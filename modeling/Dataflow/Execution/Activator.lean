import Dataflow.Execution.Readiness

/-!
# Activators

An activator gathers the inputs of one activation of a task. It takes a reference on every
instance it binds and gives them back when it is disposed of.

Binding fails if the task has no such input, if the input is bound already, or if the instance is
disposed; in each case no reference is taken and the activator is as before. None of them occurs
while a planned graph is executed with operators that keep to their own references: a channel feeds
an input once, and a stage execution produces one instance of it at most.

* `Activator.ofState`: the activator with which a task enters a stage execution, its inputs from
  other stages bound as far as they are published.
* `Activator.dispose`: give everything back.

Both stop at the first failure and undo nothing. An activator that fails to be made is not there
to be disposed of, so the references that it took stay taken; one whose disposal fails keeps those
behind the failing one. `Dataflow.Proofs.Execution.GivenBack` counts what is left in each case.
Neither can happen as long as nobody releases references that are not theirs.
-/

namespace Dataflow

/-- The inputs of one activation, as far as they are bound. -/
structure Activator where
  task : TaskId
  inputs : List (Option InstanceId)
  deriving DecidableEq, Repr, Inhabited

namespace Activator

/-- No input of the task is bound yet. -/
def ofTask (t : TaskId) (task : Task) : Activator :=
  ⟨t, List.replicate task.inputs.length none⟩

def isBound (a : Activator) (input : Nat) : Bool := ((a.inputs[input]?).join).isSome

/-- The bound instances, in input order. -/
def bound (a : Activator) : List InstanceId := a.inputs.filterMap id

/-- Bind an instance to an input and take a reference on it. An input is bound once. -/
def accept (a : Activator) (input : Nat) (i : InstanceId) : LedgerM Activator := do
  let channel := ((← get).get i).channel
  match a.inputs[input]? with
  | none => throw (.unknownInput a.task channel)
  | some (some _) => throw (.duplicateInput a.task input channel)
  | some none =>
    Ledger.obtain i
    pure { a with inputs := a.inputs.set input (some i) }

/-- Bind the given inputs to their published instances, as far as there are any. -/
def bindPublished (p : Plan) (state : ExecutionState) : Activator → List Nat → LedgerM Activator
  | a, [] => pure a
  | a, input :: rest =>
    let channel := (p.graph.task a.task).inputChannel input
    match channel.bind state.get? with
    | some i => do bindPublished p state (← a.accept input i) rest
    | none => bindPublished p state a rest

/-- Bind every input that is fed through the execution state, as far as it is published. When
this fails, the references taken before are not given back. -/
def ofState (p : Plan) (t : TaskId) (state : ExecutionState) : LedgerM Activator :=
  let task := p.graph.task t
  bindPublished p state (ofTask t task)
    ((List.range task.inputs.length).filter (p.isFedExternally t))

/-- Release the bound instances in input order, up to the first failure. -/
def dispose (a : Activator) : LedgerM Unit := Ledger.releaseEach a.bound

/-- The activation that the task, as it is in a graph, is ready for. -/
def readiness {ω : Type} (g : TaskGraph) (b : Behaviour ω) (memory : ω) (a : Activator) :
    Option Activation :=
  Dataflow.readiness (g.task a.task) (g.loopState b memory a.task) a.isBound

end Activator

end Dataflow
