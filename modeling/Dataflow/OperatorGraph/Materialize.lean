import Dataflow.OperatorGraph.Basic
import Dataflow.Plan.Preliminary

/-!
# From operators to tasks

An operator graph whose operators can all be executed turns into a task graph: one task for
each operator, under the same number, and one channel for each connected output.

Tasks are added in the order of the operators, each with its broadcast inputs. Then the
connections are made: operator by operator, output by output, and for one output in the order in
which its inputs were connected. That order decides the numbers of the channels and the order of
their consumers. All channels are collections, whose data can be read again.

The first placeholder is reported before anything is connected. Wiring the tasks cannot fail for a
graph that was wired by the operations of operator graphs, because both check the same things;
`Dataflow.Proofs.OperatorGraph.Faithful` says so, and that slots, occupants and channels of the two
graphs agree.

The preliminary plan of an operator graph has every operator as a sink none of whose outputs is
connected.
-/

namespace Dataflow.OperatorGraph

/-- Add a broadcast input to a task, `n` times. -/
def addBroadcastInputs (t : TaskId) : Nat → TaskGraph → Except PlanningError TaskGraph
  | 0, g => .ok g
  | n + 1, g => do addBroadcastInputs t n (← g.addBroadcastInput t).1

/-- Add a task for each of the nodes; placeholders have none. -/
def addTasks : List Node → TaskGraph → Except MaterializationError TaskGraph
  | [], g => .ok g
  | n :: ns, g =>
    match n.kind with
    | .logical _ => .error (.illegalState (.notExecutable n.name))
    | .elementary o =>
      let t := g.tasks.length
      match addBroadcastInputs t n.broadcastInputs.length (g.addTask o) with
      | .error e => .error (.planning e)
      | .ok g => addTasks ns g

/-- The connections of a graph: operator by operator, output by output, in the order in which
they were made. -/
def connections (g : OperatorGraph) : List (OutputRef × InputRef) :=
  g.nodes.flatMap fun n => n.outputs.flatMap fun s => s.consumers.map fun r => (s.address, r)

/-- Make the given connections between tasks. -/
def connectTasks : List (OutputRef × InputRef) → TaskGraph → Except PlanningError TaskGraph
  | [], g => .ok g
  | (source, target) :: rest, g => do
    let (g, _) ← g.connect source.operator source.index target.operator target.index
    connectTasks rest g

/-- One task for each operator, one channel for each connected output. -/
def toTaskGraph (g : OperatorGraph) : Except MaterializationError TaskGraph := do
  let tasks ← addTasks g.nodes .empty
  match connectTasks g.connections tasks with
  | .ok tasks => .ok tasks
  | .error e => .error (.planning e)

/-- The plan of all operators, with those that feed nothing as sinks. -/
def toPreliminaryPlan (g : OperatorGraph) : Except MaterializationError PreliminaryPlan := do
  .ok (.ofGraph (← g.toTaskGraph))

end Dataflow.OperatorGraph
