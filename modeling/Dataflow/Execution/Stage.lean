import Dataflow.Execution.Activator
import Dataflow.Execution.Config
import Dataflow.Execution.Event

/-!
# Executing a stage

A stage execution starts with the start tasks of the stage and pushes: an executed task feeds
its results to the readers inside the stage, and a reader whose inputs are bound is executed in
its turn, first come first served. In the end the results that other stages need are published
and all references of the stage execution are given back.

* `Workspace.executeTask`: one activation, with what it feeds.
* `Workspace.push`: activations until no task is ready.
* `Machine.publish`: the publication.
* `Plan.executeStage`: a whole stage execution; when it fails it gives back what it holds.

An activation goes through fixed steps: the operator gets ready and computes, a loop head that was
initialized is seen to have started, instances are made of what was emitted, the references on the
inputs are given back, the activation is told, and its results are fed. Where it fails decides what
is left: `Dataflow.Proofs.Execution.Atomic` and `Dataflow.Proofs.Execution.GivenBack` are about that.

Data are kept in three records, by what may change them. The `Workspace` is what changes until the
publication; the execution state is not part of it, so no push can publish anything. The `StageRun`
in it is what has to be given back: the activators that wait, those that are ready, and the
instances that were produced. The `Machine` is what is left between stage executions.

* All three kinds of computation keep what they did when they fail (`EStateM`), because a failing
  stage execution goes on from there.
* An activator that is being executed or made belongs to no record. It is disposed of where it is
  used; if that fails, the rest of its references is lost.
* The publication looks at all outward instances first and publishes none if one of them is
  disposed. A later failure, when references are given back, finds them published.
* A failure to release is reported unless there is another failure already, and does not keep
  the other references from being released (`attemptAll`).

The push loop is bounded by the number of tasks. That the bound never ends it is proved against
the loop without a bound (`Dataflow.Proofs.Execution.Termination`).

Out of scope: durations, log lines, and waiting. An operator that never answers has no reply
here, so executions with such an operator are not described.
-/

namespace Dataflow

/-- One executed activation. -/
structure ExecutedTask where
  task : TaskId
  activation : Activation
  deriving DecidableEq, Repr

/-- Outcome of one stage execution. -/
structure StageReport where
  stage : StageId
  /-- The activations in the order in which they were executed. -/
  executed : List ExecutedTask
  /-- Every instance that was produced. -/
  instances : List InstanceId
  /-- The tasks that never became ready. -/
  unexecuted : List TaskId
  deriving DecidableEq, Repr

/-- What a stage execution holds on to. -/
structure StageRun where
  /-- Activators that wait for inputs, in task order. -/
  staged : List Activator := []
  /-- Activators that are ready, first come first served. -/
  ready : List (Activator × Activation) := []
  instances : List InstanceId := []
  executed : List ExecutedTask := []
  deriving Inhabited

namespace StageRun

/-- The waiting activator of a task. -/
def find? (r : StageRun) (t : TaskId) : Option Activator := r.staged.find? (·.task == t)

/-- Put an activator among the waiting ones, in place of that of the same task. -/
def stage (r : StageRun) (a : Activator) : StageRun :=
  { r with staged :=
      r.staged.filter (·.task < a.task) ++ a :: r.staged.filter (a.task < ·.task) }

/-- Move a waiting activator to the end of the ready ones. -/
def makeReady (r : StageRun) (a : Activator) (activation : Activation) : StageRun :=
  { r with
    staged := r.staged.filter (·.task != a.task)
    ready := r.ready ++ [(a, activation)] }

/-- The activators a stage execution holds: the waiting ones, then the ready ones. -/
def activators (r : StageRun) : List Activator := r.staged ++ r.ready.map Prod.fst

end StageRun

/-- Do all the computations, whether they fail or not; the first failure counts. -/
def attemptAll : List (LedgerM Unit) → LedgerM Unit
  | [] => pure ()
  | x :: xs => fun l =>
    match x l with
    | .ok _ l => attemptAll xs l
    | .error e l =>
      match attemptAll xs l with
      | .ok _ l => .error e l
      | .error _ l => .error e l

/-- Give back every reference that a stage execution holds. -/
def StageRun.releaseAll (r : StageRun) : LedgerM Unit :=
  attemptAll (r.activators.map Activator.dispose ++
    r.instances.map fun i => do let _ ← Ledger.release i)

/-- What changes while a stage executes, up to the publication. -/
structure Workspace (ω : Type) where
  ledger : Ledger
  /-- The operators' memory. -/
  memory : ω
  events : Array ExecutionEvent
  run : StageRun := {}

/-- A computation of a stage execution. When it fails, what it did before stays done. -/
abbrev WorkspaceM (ω : Type) := EStateM ExecutionError (Workspace ω)

namespace Workspace

variable {ω : Type}

/-- Run a computation on the ledger. -/
def onLedger {α : Type} (x : LedgerM α) : WorkspaceM ω α
  | ⟨ledger, memory, events, run⟩ =>
    match x ledger with
    | .ok a ledger => .ok a ⟨ledger, memory, events, run⟩
    | .error e ledger => .error (.scheduling e) ⟨ledger, memory, events, run⟩

/-- Tell an event. -/
def emit (e : ExecutionEvent) : WorkspaceM ω Unit :=
  modify fun w => { w with events := w.events.push e }

/-- Change what the stage execution holds. -/
def modifyRun (f : StageRun → StageRun) : WorkspaceM ω Unit :=
  modify fun w => { w with run := f w.run }

/-! ## Activations -/

/-- What an operator sees of the instances bound to its inputs. -/
def boundInputs (l : Ledger) (inputs : List (Option InstanceId)) : List (Option BoundInput) :=
  inputs.map fun i => i.map fun i => ⟨i, l.get i⟩

/-- Ask an operator to do something with a context, and do what it did to the instances. -/
def consult (inputs : List (Option InstanceId)) (ctx : TaskContext)
    (ask : TaskContext → ω → Reply ω) : WorkspaceM ω (Except OperatorError Emissions)
  | ⟨ledger, memory, events, run⟩ =>
    let reply := ask { ctx with inputs := boundInputs ledger inputs } memory
    let ledger := reply.touches.foldl (fun l t => l.touch inputs t) ledger
    .ok (reply.result.map fun _ => reply.emissions) ⟨ledger, reply.memory, events, run⟩

/-- Have the operator of a task get ready and compute. -/
def activate (p : Plan) (b : Behaviour ω) (stage : Stage) (a : Activator)
    (activation : Activation) : WorkspaceM ω (Except OperatorError Emissions) := do
  let task := p.graph.task a.task
  let o := task.operator.object
  let ctx : TaskContext :=
    { task := a.task
      activation
      forced := stage.terminalTasks.contains a.task
      inputs := []
      outputCount := task.outputs.length }
  match ← consult a.inputs ctx (b.prepare o) with
  | .error e => pure (.error e)
  | .ok _ => consult a.inputs ctx (b.evaluate o)

/-- See that a loop head that was initialized has started, and tell if its state changed. -/
def followLoopHead (p : Plan) (b : Behaviour ω) (t : TaskId) (activation : Activation)
    (before : LoopState) : WorkspaceM ω Unit := do
  let o := (p.graph.task t).operator.object
  if activation = .loopInitialization ∧ b.loopState o (← get).memory = .notStarted then
    let w ← get
    let (outcome, memory) := b.advance o .running w.memory
    set { w with memory }
    match outcome with
    | .ok _ => pure ()
    | .error e => throw (.illegalState e)
  let after := b.loopState o (← get).memory
  if after ≠ before then emit (.loopStateChanged t before after)

/-- Make instances of what a task emitted. Data on an output without a channel is dropped;
`output` is the number of the first output. -/
def produce (p : Plan) (t : TaskId) : Nat → Emissions → WorkspaceM ω (List InstanceId)
  | _, [] => pure []
  | output, none :: rest => produce p t (output + 1) rest
  | output, some e :: rest =>
    match (p.graph.task t).outputChannel output with
    | none => produce p t (output + 1) rest
    | some c => do
      let x := Instance.create c t e.payload (p.graph.channel c).instrumented
      let i ← modifyGet fun w =>
        let (ledger, i) := w.ledger.create { x with cardinality := e.cardinality }
        (i, { w with ledger })
      let is ← produce p t (output + 1) rest
      pure (i :: is)

/-! ## Feeding -/

/-- Bind an instance to an input of a task of this stage. The task becomes ready when that was
the last input it waited for. -/
def feed (p : Plan) (b : Behaviour ω) (state : ExecutionState) (t : TaskId) (input : Nat)
    (i : InstanceId) : WorkspaceM ω Unit := do
  let waiting ← match (← get).run.find? t with
    | some a => pure a
    | none => do
      let a ← onLedger (Activator.ofState p t state)
      modifyRun (·.stage a)
      pure a
  let a ← onLedger (waiting.accept input i)
  modifyRun (·.stage a)
  match a.readiness p.graph b (← get).memory with
  | some activation => modifyRun (·.makeReady a activation)
  | none => pure ()

/-- The readers of an instance inside a stage; across a barrier there are none. -/
def innerConsumers (p : Plan) (s : StageId) (channel : ChannelId) : List Consumer :=
  let c := p.graph.channel channel
  if c.barrier then []
  else c.consumers.filter fun k => (p.graph.task k.task).stage == some s

/-- Feed an instance to its readers, in the order in which they were connected. -/
def feedEach (p : Plan) (b : Behaviour ω) (state : ExecutionState) (i : InstanceId) :
    List Consumer → WorkspaceM ω Unit
  | [] => pure ()
  | k :: ks => do
    feed p b state k.task k.input i
    feedEach p b state i ks

/-- Feed every instance to its readers inside the stage. -/
def feedAll (p : Plan) (b : Behaviour ω) (s : StageId) (state : ExecutionState) :
    List InstanceId → WorkspaceM ω Unit
  | [] => pure ()
  | i :: is => do
    let channel := ((← get).ledger.get i).channel
    feedEach p b state i (innerConsumers p s channel)
    feedAll p b s state is

/-! ## The push loop -/

/-- Execute one activation: have the operator compute, give back the references on its inputs,
and feed what it produced. -/
def executeTask (p : Plan) (b : Behaviour ω) (s : StageId) (state : ExecutionState)
    (a : Activator) (activation : Activation) : WorkspaceM ω Unit := do
  let t := a.task
  let operator := (p.graph.task t).operator
  let before := p.loopState b (← get).memory t
  match ← activate p b (p.stage s) a activation with
  | .error cause =>
    onLedger a.dispose
    throw (.task t operator.name s cause)
  | .ok emissions =>
    if operator.isLoopHead then followLoopHead p b t activation before
    let produced ← produce p t 0 emissions
    onLedger a.dispose
    modifyRun fun r => { r with
      instances := r.instances ++ produced
      executed := r.executed ++ [⟨t, activation⟩] }
    emit (.taskExecuted s t operator.name activation)
    feedAll p b s state produced

/-- Make the start tasks ready. Each of them has to be. -/
def seed (p : Plan) (b : Behaviour ω) (s : StageId) (state : ExecutionState) :
    List TaskId → WorkspaceM ω Unit
  | [] => pure ()
  | t :: ts => do
    let a ← onLedger (Activator.ofState p t state)
    match a.readiness p.graph b (← get).memory with
    | some activation =>
      modifyRun fun r => { r with ready := r.ready ++ [(a, activation)] }
      seed p b s state ts
    | none =>
      onLedger a.dispose
      throw (.scheduling (.notReady t s))

/-- Execute ready activations until there is none, at most `fuel` of them. -/
def drain (p : Plan) (b : Behaviour ω) (s : StageId) (state : ExecutionState) :
    Nat → WorkspaceM ω Unit
  | 0 => pure ()
  | fuel + 1 => do
    match (← get).run.ready with
    | [] => pure ()
    | (a, activation) :: rest =>
      modifyRun fun r => { r with ready := rest }
      executeTask p b s state a activation
      drain p b s state fuel

/-- Execute the start tasks and whatever becomes ready because of them. A stage execution
activates each of its tasks at most once, so the number of tasks is enough fuel. -/
def push (p : Plan) (b : Behaviour ω) (s : StageId) (state : ExecutionState) :
    WorkspaceM ω Unit := do
  seed p b s state (p.stage s).startTasks
  drain p b s state (p.stage s).tasks.length

end Workspace

/-! ## The publication -/

/-- What an execution changes. -/
structure Machine (ω : Type) where
  ledger : Ledger := {}
  state : ExecutionState := {}
  /-- The operators' memory. -/
  memory : ω
  /-- The events so far, in order. -/
  events : Array ExecutionEvent := #[]

/-- A computation of an execution. When it fails, what it did before stays done. -/
abbrev MachineM (ω : Type) := EStateM ExecutionError (Machine ω)

namespace Machine

variable {ω : Type}

/-- Run a computation on the instances and the state. -/
def onStore {α : Type} (x : StoreM α) : MachineM ω α
  | ⟨ledger, state, memory, events⟩ =>
    match x ⟨ledger, state⟩ with
    | .ok a ⟨ledger, state⟩ => .ok a ⟨ledger, state, memory, events⟩
    | .error e ⟨ledger, state⟩ => .error (.scheduling e) ⟨ledger, state, memory, events⟩

/-- Tell an event. -/
def emit (e : ExecutionEvent) : MachineM ω Unit :=
  modify fun m => { m with events := m.events.push e }

/-- Record the measured cardinalities of the given instances, as far as they are asked for. -/
def recordCardinalities : List InstanceId → MachineM ω Unit
  | [] => pure ()
  | i :: is => do
    let x := (← get).ledger.get i
    match x.instrumented, x.cardinality with
    | true, some n =>
      modify fun m => { m with state := m.state.recordCardinality x.channel n }
      emit (.cardinalityMeasured x.channel n)
    | _, _ => pure ()
    recordCardinalities is

/-- Publish what other stages need. If one of the instances to publish is disposed, none is
published. Cardinalities are recorded outside of loops only. -/
def publish (p : Plan) (config : ExecutorConfig) (s : StageId) (instances : List InstanceId) :
    MachineM ω Unit := do
  let stage := p.stage s
  let ledger := (← get).ledger
  let outward := instances.filter fun i => p.isOutward (ledger.get i).channel
  match outward.find? fun i => (ledger.get i).isDisposed with
  | some i => throw (.scheduling (.useAfterRelease (ledger.get i).channel))
  | none => onStore (Store.registerEach outward)
  if config.collectCardinalities && !stage.isInLoop && !stage.isLoopHeadStage then
    recordCardinalities instances

/-- Give up a stage execution: give back every reference it holds and tell the failure. -/
def abort (s : StageId) (r : StageRun) (e : ExecutionError) (m : Machine ω) : Machine ω :=
  let ledger := match r.releaseAll m.ledger with
    | .ok _ l => l
    | .error _ l => l
  let task := match e with
    | .task t .. => some t
    | _ => none
  { m with ledger, events := m.events.push (.stageFailed s task e.message) }

end Machine

/-- What is reported of a stage execution. -/
def StageRun.report (r : StageRun) (p : Plan) (s : StageId) : StageReport where
  stage := s
  executed := r.executed
  instances := r.instances
  unexecuted := (p.stage s).tasks.filter fun t => !(r.executed.map ExecutedTask.task).contains t

/-- Execute a stage once: push, publish, give back. -/
def Plan.executeStage {ω : Type} (p : Plan) (b : Behaviour ω) (config : ExecutorConfig)
    (s : StageId) : Machine ω → Except ExecutionError StageReport × Machine ω
  | ⟨ledger, state, memory, events⟩ =>
    let stage := p.stage s
    let events := events.push (.stageStarted s stage.platform stage.tasks.length)
    match Workspace.push p b s state { ledger, memory, events } with
    | .error e w => (.error e, Machine.abort s w.run e ⟨w.ledger, state, w.memory, w.events⟩)
    | .ok _ ⟨ledger, memory, events, run⟩ =>
      match Machine.publish p config s run.instances ⟨ledger, state, memory, events⟩ with
      | .error e m => (.error e, Machine.abort s run e m)
      | .ok _ m =>
        -- Whatever a failing release leaves behind is not released again.
        match Machine.onStore (Store.onLedger run.releaseAll) m with
        | .error e m => (.error e, Machine.abort s {} e m)
        | .ok _ m =>
          (.ok (run.report p s),
            { m with events := m.events.push (.stageCompleted s run.executed.length) })

end Dataflow
