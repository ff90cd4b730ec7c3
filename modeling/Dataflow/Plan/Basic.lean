import Dataflow.TaskGraph.Basic

/-!
# Execution plans

A plan is a task graph cut into stages. All tasks of a stage run on one platform and execute
together. Stages depend on each other without cycle; feedback into a loop head is not a
dependency, it is listed apart.

* `Plan.topologicalOrder`: every stage after its predecessors, first come first served.
* `Plan.level`, `Plan.parallelStages`: stages that no path connects, level by level.

The numbers of the stages are a topological order already, but another one: the first is made by
the smallest number, the second by the earliest predecessor. The second one counts down for each
stage how many predecessors were not taken up yet. A count is an unsigned number; no count would
go below zero, because a stage is counted down once for each of its predecessors
(`Counts.pos` in `Dataflow.Proofs.Plan.Levels`).

The level of a stage is the length of the longest chain of stages that leads to it. Stages of one
level could be executed at the same time; the driver in `Dataflow.Execution.Plan` does not do so,
it goes by the numbers. Levels and orders are for whoever looks at a plan.

A plan here is any record of this form. What holds of plans that come from `PreliminaryPlan.assign`
is stated for those, in `Dataflow.Proofs.Plan`.
-/

namespace Dataflow

/-- Tasks of one platform that execute together. -/
structure Stage where
  platform : Platform
  /-- The members, in ascending order. -/
  tasks : List TaskId
  /-- The members that nothing inside the stage feeds. -/
  startTasks : List TaskId
  /-- The members that feed nothing inside the stage, or something outside of it. -/
  terminalTasks : List TaskId
  /-- The stages this one depends on, in ascending order. -/
  predecessors : List StageId
  /-- The stages that depend on this one, in ascending order. -/
  successors : List StageId
  /-- The stages that feed the body inputs of this stage's loop head, in ascending order. -/
  feedbackSources : List StageId
  /-- The loop head that makes up this stage. -/
  loopHead : Option TaskId
  /-- The stage of the innermost loop head whose body this stage belongs to. -/
  loopHeadStage : Option StageId := none
  deriving DecidableEq, Repr, Inhabited

namespace Stage

def isLoopHeadStage (s : Stage) : Bool := s.loopHead.isSome

def isInLoop (s : Stage) : Bool := s.loopHeadStage.isSome

def isStarting (s : Stage) : Bool := s.predecessors.isEmpty

end Stage

/-- A task graph with its stages. -/
structure Plan where
  graph : TaskGraph
  /-- The stages; each comes after the stages it depends on. -/
  stages : List Stage
  /-- How many runs were split off to keep stages from depending on each other. -/
  splits : Nat
  deriving DecidableEq, Repr, Inhabited

namespace Plan

/-- The stage with number `id`, or a stage without tasks if there is none. -/
def stage (p : Plan) (id : StageId) : Stage := p.stages.getD id default

/-- The numbers of the stages, in order. -/
def stageIds (p : Plan) : List StageId := List.range p.stages.length

/-- The stages that depend on no other. -/
def startingStages (p : Plan) : List StageId := p.stageIds.filter fun s => (p.stage s).isStarting

/-! ## Topological order -/

/-- Count each of the stages `ts` down by one, in order: the new counts, and the stages whose count has
come to zero. -/
def countDown : List StageId → List Nat → List Nat × List StageId
  | [], waiting => (waiting, [])
  | t :: ts, waiting =>
    let left := waiting.getD t 0 - 1
    let rest := countDown ts (waiting.set t left)
    (rest.1, if left = 0 then t :: rest.2 else rest.2)

/-- Take up the stages of `queue` one after the other. `waiting` has for each stage how many of its
predecessors were not taken up yet; a stage joins the queue when that comes to zero. -/
def orderFrom (p : Plan) : Nat → List Nat → List StageId → List StageId
  | 0, _, _ => []
  | _ + 1, _, [] => []
  | fuel + 1, waiting, s :: queue =>
    let counted := countDown (p.stage s).successors waiting
    s :: orderFrom p fuel counted.1 (queue ++ counted.2)

/-- The stages, each after its predecessors, first come first served. -/
def topologicalOrder (p : Plan) : List StageId :=
  p.orderFrom p.stages.length (p.stages.map fun s => s.predecessors.length) p.startingStages

/-! ## Levels -/

/-- Give each stage of `order` the level above those of its predecessors; `levels` are the
stages that have a level already. -/
def levelsFrom (p : Plan) : List StageId → List (StageId × Nat) → List (StageId × Nat)
  | [], levels => levels
  | s :: order, levels =>
    let below := (p.stage s).predecessors.filterMap fun q => levels.lookup q
    let level := (below.map (· + 1)).foldl max 0
    levelsFrom p order (levels ++ [(s, level)])

/-- Each stage in topological order, with its level. -/
def levels (p : Plan) : List (StageId × Nat) := p.levelsFrom p.topologicalOrder []

/-- The stages of each level, in topological order. -/
def parallelStages (p : Plan) : List (List StageId) :=
  let levels := p.levels
  let height := (levels.map fun sl => sl.2 + 1).foldl max 0
  (List.range height).map fun l => (levels.filter (·.2 == l)).map (·.1)

end Plan

end Dataflow
