import Dataflow.DataSetType
import Dataflow.Ident
import Dataflow.Loop.State
import Dataflow.Platform

/-!
# Failures

What can go wrong while operators are wired, a graph is planned, and a plan is executed. Each
failure records its cause; the wording is in the `message` functions alone.

* `SlotError`: a wrong slot of an operator graph.
* `IllegalStateError`: an operation that the state of its object does not allow.
* `PlanningError`: a task graph that cannot be wired or planned, with the `Kind` of each.
* `SchedulingError`: a reference or an input handled against the rules of execution.
* `OperatorError`: what an operator reports about its own activation.
* `ExecutionError`: how a stage or a plan fails.
* `MaterializationError`: how turning an operator graph into a task graph fails.

A failure carries the numbers and names that its message mentions and not the text, so that a
theorem about a failure is about what failed: which task lacks its producer, which stage has a
start task that is not ready, which channel was released once too often. The exceptions are the
reasons that operators give themselves.

Which failure is reported if several apply follows from the order of the checks, and is part of
the results about the operations (`Dataflow.Proofs.Plan.Outcome` for planning,
`Dataflow.Proofs.Execution.Failures` for execution).

Out of scope: failures to read a configuration, which are told apart in `EngineConfig.LoadError`
and `Json.Failure` but have no messages.
-/

namespace Dataflow

/-! ## Wiring operators -/

/-- A slot of an operator graph was addressed or connected wrongly. -/
inductive SlotError where
  | unknownOperator (operator : OperatorId)
  | inputOutOfBounds (operator : OperatorId) (index declared : Nat)
  | outputOutOfBounds (operator : OperatorId) (index declared : Nat)
  | typeMismatch (output input : DataSetType)
  | alreadyConnected (operator : OperatorId) (index : Nat)
  | notConnected (operator : OperatorId) (index : Nat)
  | broadcastNotSupported (operator : OperatorId)
  deriving DecidableEq, Repr

/-- The name of the cause alone. -/
def SlotError.name : SlotError → String
  | unknownOperator .. => "UnknownOperator"
  | inputOutOfBounds .. => "InputOutOfBounds"
  | outputOutOfBounds .. => "OutputOutOfBounds"
  | typeMismatch .. => "TypeMismatch"
  | alreadyConnected .. => "AlreadyConnected"
  | notConnected .. => "NotConnected"
  | broadcastNotSupported .. => "BroadcastNotSupported"

def SlotError.message : SlotError → String
  | unknownOperator o => o.label ++ " is not part of this graph"
  | inputOutOfBounds o i n => s!"{o.label} has no input slot {i} (declares {n})"
  | outputOutOfBounds o i n => s!"{o.label} has no output slot {i} (declares {n})"
  | typeMismatch s t => s!"cannot connect {s.label} output to {t.label} input"
  | alreadyConnected o i => s!"input slot {i} of {o.label} is already connected"
  | notConnected o i => s!"input slot {i} of {o.label} is not connected"
  | broadcastNotSupported o => o.label ++ " does not support broadcast inputs"

/-- An operation that is not legal in the current state of an object. -/
inductive IllegalStateError where
  | notALoopHead (operator : String)
  | loopStateRegression (regression : LoopState.Regression)
  | notExecutable (operator : String)
  deriving DecidableEq, Repr

/-- The name of the cause alone. -/
def IllegalStateError.name : IllegalStateError → String
  | notALoopHead .. => "NotALoopHead"
  | loopStateRegression .. => "LoopStateRegression"
  | notExecutable .. => "NotExecutable"

def IllegalStateError.message : IllegalStateError → String
  | notALoopHead name => s!"operator '{name}' is not a loop head"
  | loopStateRegression r =>
    s!"loop state cannot move from {r.source.label} to {r.target.label}"
  | notExecutable name => s!"operator '{name}' is not executable"

/-! ## Planning -/

/-- How a task is called in messages: its number, its operator and its platform. -/
structure TaskLabel where
  task : TaskId
  operator : String
  platform : Platform
  deriving DecidableEq, Repr

def TaskLabel.text (l : TaskLabel) : String :=
  s!"{l.task.label}[{l.operator}@{l.platform.name}]"

/-- How a channel is called in messages: its number and its kind. -/
structure ChannelLabel where
  channel : ChannelId
  kind : String
  deriving DecidableEq, Repr

def ChannelLabel.text (l : ChannelLabel) : String := s!"{l.channel.label}[{l.kind}]"

/-- A task graph cannot be wired as asked, or cannot be planned. -/
inductive PlanningError where
  /-- A connection of the operator graph was refused. -/
  | slot (cause : SlotError)
  | unknownTask (task : TaskId)
  | broadcastRefused (task : TaskId) (operator : String)
  | noOutput (task : TaskId) (output : Nat)
  | noInput (task : TaskId) (input : Nat)
  | alreadyFed (input : Nat) (task : TaskId) (channel : ChannelId)
  | incompatible (inputType : DataSetType) (input : Nat) (consumer : TaskId)
      (outputType : DataSetType) (output : Nat) (producer : TaskId)
  | noConsumer (channel : ChannelLabel)
  | noTerminalTask
  | noProducer (input : Nat) (task : TaskLabel)
  /-- A directed cycle of tasks, its first task repeated at the end. -/
  | dataCycle (path : List TaskLabel)
  /-- A cycle of runs, each with its tasks, in which no run can be split. -/
  | unbreakableCycle (runs : List (List TaskId))
  | cyclicRuns
  | nonReusableFanOut (channel : ChannelLabel) (stages : Nat)
  deriving DecidableEq, Repr

namespace PlanningError

/-- The classes of planning failures. -/
inductive Kind where
  /-- A required input is not fed. -/
  | missingProducer
  /-- Slot indices or channel ends do not line up. -/
  | inconsistentWiring
  /-- The task graph has a data cycle that no loop head closes. -/
  | dataCycle
  /-- A channel that can be read once would feed several stages. -/
  | nonReusableFanOut
  /-- There is nothing to plan. -/
  | emptyPlan
  deriving DecidableEq, Repr

def Kind.name : Kind → String
  | missingProducer => "MissingProducer"
  | inconsistentWiring => "InconsistentWiring"
  | dataCycle => "DataCycle"
  | nonReusableFanOut => "NonReusableFanOut"
  | emptyPlan => "EmptyPlan"

def kind : PlanningError → Kind
  | noTerminalTask => .emptyPlan
  | noProducer .. => .missingProducer
  | dataCycle .. | unbreakableCycle .. | cyclicRuns => .dataCycle
  | nonReusableFanOut .. => .nonReusableFanOut
  | slot .. | unknownTask .. | broadcastRefused .. | noOutput .. | noInput .. | alreadyFed ..
  | incompatible .. | noConsumer .. => .inconsistentWiring

/-- The cause, without the words that open every planning message. -/
def cause : PlanningError → String
  | slot e => e.message
  | unknownTask t => "unknown task " ++ t.label
  | broadcastRefused t name => s!"{t.label} ('{name}') does not accept broadcast inputs"
  | noOutput t o => s!"{t.label} has no output {o}"
  | noInput t i => s!"{t.label} has no input {i}"
  | alreadyFed i t c => s!"input {i} of {t.label} is already fed by {c.label}"
  | incompatible target i c source o p =>
    s!"cannot feed {target.label} input {i} of {c.label} " ++
    s!"from {source.label} output {o} of {p.label}"
  | noConsumer c => c.text ++ " has no consumer"
  | noTerminalTask => "the plan has no terminal tasks"
  | noProducer i t => s!"input {i} of {t.text} has no producer"
  | dataCycle path =>
    "data cycle outside of a loop: " ++ String.intercalate " -> " (path.map TaskLabel.text)
  | unbreakableCycle runs =>
    "cannot break cycle between runs " ++ String.intercalate " -> " (runs.map fun members =>
      "\x7b" ++ String.intercalate ", " (members.map TaskId.label) ++ "\x7d")
  | cyclicRuns => "platform runs still form a cycle after splitting"
  | nonReusableFanOut c n => s!"{c.text} cannot feed consumers in {n} stages"

def message (e : PlanningError) : String := "planning error: " ++ e.cause

end PlanningError

/-! ## Execution -/

/-- A reference or an input was handled against the rules of execution. -/
inductive SchedulingError where
  | duplicateInput (task : TaskId) (input : Nat) (channel : ChannelId)
  | unknownInput (task : TaskId) (channel : ChannelId)
  | notReady (task : TaskId) (stage : StageId)
  | doubleRelease (channel : ChannelId)
  | useAfterRelease (channel : ChannelId)
  deriving DecidableEq, Repr

/-- The name of the cause alone. -/
def SchedulingError.name : SchedulingError → String
  | duplicateInput .. => "DuplicateInput"
  | unknownInput .. => "UnknownInput"
  | notReady .. => "NotReady"
  | doubleRelease .. => "DoubleRelease"
  | useAfterRelease .. => "UseAfterRelease"

def SchedulingError.message : SchedulingError → String
  | duplicateInput t i c =>
    s!"{t.label} received a second instance for input {i} (from {c.label})"
  | unknownInput t c => s!"{t.label} does not consume {c.label}"
  | notReady t s => s!"start task {t.label} of {s.label} is not ready"
  | doubleRelease c =>
    s!"instance of {c.label} was released more often than it was referenced"
  | useAfterRelease c => s!"instance of {c.label} was used after its last reference was released"

/-- What an operator reports about its own activation. -/
inductive OperatorError where
  | missingInput (input : Nat)
  | unexpectedPayload (input : Nat) (expected : String)
  | noSuchOutput (output : Nat)
  | failed (reason : String)
  deriving DecidableEq, Repr

/-- The name of the cause alone. -/
def OperatorError.name : OperatorError → String
  | missingInput .. => "MissingInput"
  | unexpectedPayload .. => "UnexpectedPayload"
  | noSuchOutput .. => "NoSuchOutput"
  | failed .. => "Failed"

def OperatorError.message : OperatorError → String
  | missingInput i => s!"missing input {i}"
  | unexpectedPayload i expected => s!"input {i} does not carry {expected}"
  | noSuchOutput o => s!"no output slot {o}"
  | failed reason => reason

/-- Failure while a stage or a whole plan is executed. -/
inductive ExecutionError where
  | task (task : TaskId) (operator : String) (stage : StageId) (cause : OperatorError)
  | scheduling (cause : SchedulingError)
  | illegalState (cause : IllegalStateError)
  /-- No stage can be executed although these have not been. -/
  | stalled (pending : List StageId)
  | unfinishedLoop (head : TaskId) (state : LoopState)
  | iterationLimit (limit : Nat)
  deriving DecidableEq, Repr

def ExecutionError.message : ExecutionError → String
  | task t name s e => s!"task {t.label} ('{name}') failed in {s.label}: {e.message}"
  | scheduling e => "scheduling invariant violated: " ++ e.message
  | illegalState e => e.message
  | stalled pending =>
    s!"no executable stage left, {pending.length} stage(s) never ran: " ++
    String.intercalate ", " (pending.map StageId.label)
  | unfinishedLoop t s => s!"loop head {t.label} ended in state {s.label}"
  | iterationLimit n => s!"stage execution limit of {n} reached"

/-- Failure of an operation that materializes an operator graph. -/
inductive MaterializationError where
  | slot (cause : SlotError)
  | illegalState (cause : IllegalStateError)
  | planning (cause : PlanningError)
  deriving DecidableEq, Repr

def MaterializationError.message : MaterializationError → String
  | slot e => e.message
  | illegalState e => e.message
  | planning e => e.message

end Dataflow
