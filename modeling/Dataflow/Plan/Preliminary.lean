import Dataflow.Digraph.Closure
import Dataflow.TaskGraph.Basic

/-!
# Preliminary plans

A task graph together with the tasks whose results are wanted. The planned tasks are those that
the sinks depend on, directly or not; tasks that no sink depends on stay outside of the plan.

Dependencies go backward over all inputs, body inputs of loop heads and broadcast inputs included.
So a loop is planned with its body if its result is wanted, and a task behind an iteration output
alone is planned only if it feeds back or is a sink itself.

A plan is checked before it is cut into stages, in this order: there are sinks, all of them are
tasks of the graph, every input of a planned task is fed, every channel of the graph has a
consumer. The third check goes through the tasks in breadth-first order from the sinks and names
the first unfed input of the first such task. The last one never fails for a graph that was built
by the wiring operations.

Without sinks of its own a plan takes every task none of whose outputs is connected. If the graph
has cycles these tasks may depend on less than the whole graph: what is left out then stands on, or
feeds, a cycle (`Dataflow.Proofs.Plan.Coverage`).
-/

namespace Dataflow

/-- A wired task graph and its terminal tasks. -/
structure PreliminaryPlan where
  graph : TaskGraph
  sinks : List TaskId
  deriving DecidableEq, Repr, Inhabited

namespace PreliminaryPlan

/-- Every task that feeds no channel is terminal. -/
def ofGraph (g : TaskGraph) : PreliminaryPlan := ⟨g, g.sinks⟩

/-- The sinks and all tasks that they depend on, in breadth-first order. -/
def dependencies (p : PreliminaryPlan) : List TaskId :=
  Digraph.closure p.graph.producers p.graph.tasks.length p.sinks

/-- The tasks to plan, in ascending order. -/
def plannedTasks (p : PreliminaryPlan) : List TaskId :=
  p.graph.taskIds.filter p.dependencies.contains

/-- The first input of a task that nothing feeds. -/
def unfedInput (g : TaskGraph) (t : TaskId) : Option Nat := (g.task t).inputs.findIdx? (·.isNone)

/-- A plan has sinks, the sinks are tasks of its graph, and every input of a planned task is
fed. Of several tasks with an unfed input the one nearest to the sinks is named. -/
def validate (p : PreliminaryPlan) : Except PlanningError Unit := do
  if p.sinks.isEmpty then throw .noTerminalTask
  p.sinks.forM p.graph.requireTask
  p.dependencies.forM fun t =>
    match unfedInput p.graph t with
    | some i => throw (.noProducer i (p.graph.taskLabel t))
    | none => .ok ()
  p.graph.channelIds.forM fun c =>
    if (p.graph.channel c).consumers.isEmpty then throw (.noConsumer (p.graph.channelLabel c))
    else .ok ()

end PreliminaryPlan

end Dataflow
