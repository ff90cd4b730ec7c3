import Dataflow.Plan.Loops
import Dataflow.Plan.Preliminary
import Dataflow.Plan.Runs

/-!
# Assigning stages

Turns a preliminary plan into a plan: the planned tasks are partitioned into runs, the runs are
split until they form no cycle, and each run becomes a stage. The number of a stage is its
place in the execution order.

`PreliminaryPlan.assign` fails, in this order, if the plan is not valid, if its tasks form a
cycle that is no loop, or if a channel that can be read once would feed several stages.

* `PreliminaryPlan.findTaskCycle`: the second check. Feedback closes no cycle, so a cycle that it
  finds is not one that a loop head drives.
* `PreliminaryPlan.buildStage`: a stage, from the runs and their order. Its lists are given in
  ascending order and without repetition, since everything that runs over them does so in their
  order. A task is a start task if nothing inside the stage feeds it, whatever feeds it from
  outside, and terminal if it feeds nothing inside, or something outside as well.
* `PreliminaryPlan.finishChannel`: the flags of a channel. A channel that no planned task feeds keeps
  its flags, though it may gain a barrier.
* `PreliminaryPlan.materialize`: all of it, and the loops that the stages belong to.

Tasks that no sink depends on stay in the graph without a stage, together with their channels. The
channel into a body input of a loop head among them is not seen, so it gets no barrier
(`Dataflow.Proofs.Plan.Partition`), and such a loop head keeps no tasks apart
(`Dataflow.Proofs.Plan.Components`).

What a plan is, in terms of the graph alone, is stated in `Dataflow.Proofs.Plan`: when planning
succeeds (`Outcome`), the partition (`Partition`, `Components`), the graph of the stages (`Quotient`),
their ends (`StageEnds`), the loops (`Bodies`, `LoopPaths`), and what does not depend on tasks that
are added later (`Growth`).

Out of scope: costs. Nothing chooses between platforms; each operator comes with its own.
-/

namespace Dataflow

namespace PreliminaryPlan

/-- A directed cycle of planned tasks that no loop head closes; its first task comes again at
the end. -/
def findTaskCycle (r : Runs) : Option (List TaskId) :=
  let forward := r.edges.filter fun e => !e.feedback
  let next t := (forward.filter (·.producer == t)).map Edge.consumer
  (Digraph.findCycle next r.tasks).map fun cycle => cycle ++ cycle.take 1

/-! ## From runs to stages -/

/-- The stage of each task, given the runs in execution order. -/
def stageNumbers (r : Runs) (order : List Nat) : Array StageId :=
  r.labels.map fun run => order.idxOf run

/-- The numbers below `n` that occur among `xs`, in ascending order. -/
def ascending (n : Nat) (xs : List Nat) : List Nat := (List.range n).filter xs.contains

/-- Stage number `s` of `n`, but for the loops it belongs to. -/
def buildStage (g : TaskGraph) (r : Runs) (stageOf : TaskId → StageId) (n : Nat) (s : StageId) :
    Stage :=
  let tasks := r.tasks.filter fun t => stageOf t == s
  let outgoing := r.edges.filter fun e => stageOf e.producer == s
  let incoming := r.edges.filter fun e => stageOf e.consumer == s
  let isInner (e : Edge) : Bool := !e.feedback && stageOf e.producer == stageOf e.consumer
  let isOuter (e : Edge) : Bool := stageOf e.producer != stageOf e.consumer
  let fed := (incoming.filter isInner).map Edge.consumer
  let feeding := (outgoing.filter isInner).map Edge.producer
  let leaving := (outgoing.filter isOuter).map Edge.producer
  let first := tasks.headD 0
  { platform := (g.task first).operator.platform
    tasks
    startTasks := tasks.filter fun t => !fed.contains t
    terminalTasks := tasks.filter fun t => !feeding.contains t || leaving.contains t
    predecessors := ascending n
      ((incoming.filter fun e => isOuter e && !e.feedback).map fun e => stageOf e.producer)
    successors := ascending n
      ((outgoing.filter fun e => isOuter e && !e.feedback).map fun e => stageOf e.consumer)
    feedbackSources := ascending n
      ((incoming.filter fun e => e.feedback).map fun e => stageOf e.producer)
    loopHead := if (g.task first).isLoopHead then some first else none }

/-! ## Finishing the graph -/

/-- Record the stage of every planned task. -/
def placeTasks (g : TaskGraph) (planned : TaskId → Bool) (stageOf : TaskId → StageId) :
    TaskGraph :=
  { g with tasks := g.tasks.mapIdx fun t task =>
      if planned t then { task with stage := some (stageOf t) } else task }

/-- The stages that read a channel, in ascending order. -/
def readers (planned : TaskId → Bool) (stageOf : TaskId → StageId) (n : Nat) (c : Channel) :
    List StageId :=
  ascending n ((c.consumers.filter fun k => planned k.task).map fun k => stageOf k.task)

/-- Set the flags of a channel. Channels that no planned task feeds keep theirs. -/
def finishChannel (r : Runs) (planned : TaskId → Bool) (stageOf : TaskId → StageId) (n : Nat)
    (id : ChannelId) (c : Channel) : Except PlanningError Channel :=
  let c := { c with barrier := c.barrier || r.barriers.contains id }
  if planned c.producer then
    let readers := readers planned stageOf n c
    if !c.descriptor.reusable && readers.length > 1 then
      .error (.nonReusableFanOut (c.label id) readers.length)
    else .ok { c with betweenStages := readers.any (· != stageOf c.producer) }
  else .ok c

/-- Finish channel after channel; `id` is the number of the first. -/
def finishChannels (finish : ChannelId → Channel → Except PlanningError Channel) :
    ChannelId → List Channel → Except PlanningError (List Channel)
  | _, [] => .ok []
  | id, c :: cs => do .ok ((← finish id c) :: (← finishChannels finish (id + 1) cs))

/-- The plan whose stages are the given runs. -/
def materialize (g : TaskGraph) (r : Runs) : Except PlanningError Plan := do
  let order := r.executionOrder
  let n := r.count
  if order.length != n then throw .cyclicRuns
  let numbers := stageNumbers r order
  let stageOf (t : TaskId) : StageId := numbers.getD t 0
  let planned (t : TaskId) : Bool := r.tasks.contains t
  let stages := (List.range n).map (buildStage g r stageOf n)
  let g := placeTasks g planned stageOf
  let channels ← finishChannels (finishChannel r planned stageOf n) 0 g.channels
  .ok { graph := { g with channels }, stages := Loops.assign g stages, splits := r.splits }

/-- Validate a preliminary plan and cut it into stages. -/
def assign (p : PreliminaryPlan) : Except PlanningError Plan := do
  p.validate
  let runs := Runs.initial p.graph p.plannedTasks
  match findTaskCycle runs with
  | some cycle => throw (.dataCycle (cycle.map p.graph.taskLabel))
  | none => materialize p.graph (← runs.resolve)

end PreliminaryPlan

end Dataflow
