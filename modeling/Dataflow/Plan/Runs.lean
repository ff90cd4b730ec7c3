import Dataflow.Digraph.Closure
import Dataflow.Digraph.Component
import Dataflow.Digraph.Cycle
import Dataflow.Digraph.Numbering
import Dataflow.Plan.Edge

/-!
# Platform runs

A run is a set of planned tasks that are to execute together. At first the runs are the
components of the tasks under local edges: same platform, no loop head at either end, no
barrier, no feedback. Executing one run after the other needs the runs to form no cycle, so as
long as they do, a run of a cycle is split: the part downstream of one entry becomes a run of
its own, and the channels that lead into it become barriers.

* `Runs.initial`: the components.
* `Runs.findCycle`, `Runs.findSplit`, `Runs.splitOff`: one step.
* `Runs.resolve`: all steps.
* `Runs.executionOrder`: the runs, each after those it depends on.

A cycle of runs comes about although the tasks have none: two tasks of one component can be joined
by a path that leads over another platform. An edge separates runs if it leads into another run or
may not lie inside one, so a run can be a cycle by itself, over a barrier or a loop head between two
of its tasks.

A split must not take an exit of the run with it, for then the cycle would only be moved. Of all
runs of the cycle and all entries of each the first that can be split is. There always is one in a
graph without cycle of tasks: the runs of a cycle are connected by edges in one direction, and if
every entry led to an exit, so would a path of tasks (`exists_findSplit` in
`Dataflow.Proofs.Plan.Runs`). Hence `PlanningError.unbreakableCycle` does not occur there.

Runs are numbered by their smallest tasks; a part that is split off gets the next number. The
labels are those of all tasks of the graph, planned or not, so that they can be looked up by the
number of the task; only those of planned tasks mean anything.

The edges of the order are those that are no feedback and lead from run to run. The order takes
the smallest run first, and its places are the numbers of the stages.
-/

namespace Dataflow

/-- A partition of the planned tasks, with the barriers it needs. -/
structure Runs where
  /-- The planned tasks, in ascending order. -/
  tasks : List TaskId
  edges : List Edge
  /-- The run of each task; it says nothing of tasks that are not planned. -/
  labels : Array Nat
  /-- How many runs there are. -/
  count : Nat
  /-- Channels whose consumers may not share a run with the producer. -/
  barriers : List ChannelId
  /-- How many runs were split off. -/
  splits : Nat := 0
  deriving DecidableEq, Repr, Inhabited

namespace Runs

/-- The run of a planned task. -/
def run (r : Runs) (t : TaskId) : Nat := r.labels.getD t 0

/-- Whether an edge can lie inside a run. -/
def isLocal (r : Runs) (e : Edge) : Bool := e.isJoinable && !r.barriers.contains e.channel

/-- Whether an edge orders runs: it leads into another run, or it may not lie inside one. -/
def separates (r : Runs) (e : Edge) : Bool :=
  !e.feedback && (r.run e.producer != r.run e.consumer || !r.isLocal e)

/-- The tasks of a run, in ascending order. -/
def members (r : Runs) (run : Nat) : List TaskId := r.tasks.filter fun t => r.run t == run

/-! ## The components -/

/-- The channels that are barriers from the start: feedback, and those marked in the graph. -/
def givenBarriers (g : TaskGraph) (edges : List Edge) : List ChannelId :=
  (edges.filter fun e => e.feedback || (g.channel e.channel).barrier).map Edge.channel

/-- The components of the planned tasks under local edges, numbered by their least tasks. -/
def initial (g : TaskGraph) (tasks : List TaskId) : Runs :=
  let edges := Edge.among g tasks
  let barriers := givenBarriers g edges
  let inside := edges.filter fun e => e.isJoinable && !barriers.contains e.channel
  let least := Digraph.components g.tasks.length (inside.map fun e => (e.producer, e.consumer))
  let roots := tasks.filter fun t => least.getD t 0 == t
  { tasks, edges, barriers
    labels := least.map fun t => roots.idxOf t
    count := roots.length }

/-! ## Cycles of runs -/

/-- From which run to which the separating edges lead. -/
def links (r : Runs) : List (Nat × Nat) :=
  (r.edges.filter r.separates).map fun e => (r.run e.producer, r.run e.consumer)

/-- The runs that a run leads to, in ascending order; a run can lead to itself. -/
def successors (links : List (Nat × Nat)) (count run : Nat) : List Nat :=
  let targets := (links.filter (·.1 == run)).map (·.2)
  (List.range count).filter targets.contains

/-- The first cycle of runs in depth-first order. -/
def findCycle (r : Runs) : Option (List Nat) :=
  let links := r.links
  let table := ((List.range r.count).map (successors links r.count)).toArray
  Digraph.findCycle (fun run => table.getD run []) (List.range r.count)

/-! ## Splitting a run -/

/-- The tasks of `run` that a separating edge out of `prev` leads to. -/
def entries (r : Runs) (prev run : Nat) : List TaskId :=
  let targets := (r.edges.filter fun e =>
    r.separates e && r.run e.producer == prev && r.run e.consumer == run).map Edge.consumer
  r.tasks.filter targets.contains

/-- The tasks of `run` that a separating edge into `next` starts from. -/
def exits (r : Runs) (run next : Nat) : List TaskId :=
  (r.edges.filter fun e =>
    r.separates e && r.run e.producer == run && r.run e.consumer == next).map Edge.producer

/-- The tasks of a run that a task leads to along local edges, the task itself included. -/
def downstream (r : Runs) (run : Nat) (entry : TaskId) : List TaskId :=
  let inside := r.edges.filter fun e => r.isLocal e && r.run e.consumer == run
  Digraph.closure (fun t => (inside.filter (·.producer == t)).map Edge.consumer)
    r.tasks.length [entry]

/-- A run of a cycle and a part of it that can be split off: everything downstream of an entry
from the run before it, provided that none of it is an exit to the run after it. The runs are
tried in the order of the cycle, the entries of a run in ascending order. -/
def findSplit (r : Runs) (cycle : List Nat) : Option (Nat × List TaskId) :=
  let k := cycle.length
  (List.range k).findSome? fun j =>
    let run := cycle.getD j 0
    let prev := cycle.getD ((j + k - 1) % k) 0
    let next := cycle.getD ((j + 1) % k) 0
    let exits := r.exits run next
    (r.entries prev run).findSome? fun entry =>
      let part := r.downstream run entry
      if part.any exits.contains then none else some (run, part)

/-- Make a part of a run a run of its own, and the channels that lead into it barriers. -/
def splitOff (r : Runs) (run : Nat) (part : List TaskId) : Runs :=
  let fresh := r.count
  let labels := r.labels.mapIdx fun t l => if part.contains t then fresh else l
  let cut := r.edges.filter fun e =>
    r.isLocal e && labels.getD e.producer 0 == run && labels.getD e.consumer 0 == fresh
  { r with
    labels
    count := fresh + 1
    barriers := r.barriers ++ cut.map Edge.channel
    splits := r.splits + 1 }

/-- Split until the runs form no cycle, at most `fuel` times. -/
def resolveWith : Nat → Runs → Except PlanningError Runs
  | 0, r => .ok r
  | fuel + 1, r =>
    match r.findCycle with
    | none => .ok r
    | some cycle =>
      match r.findSplit cycle with
      | none => .error (.unbreakableCycle (cycle.map r.members))
      | some (run, part) => resolveWith fuel (r.splitOff run part)

/-- Split until the runs form no cycle. Each split leaves one run more and none empty, so there
are fewer splits than tasks. -/
def resolve (r : Runs) : Except PlanningError Runs := resolveWith r.tasks.length r

/-! ## Order -/

/-- The other runs that a run depends on. -/
def dependencies (r : Runs) (run : Nat) : List Nat :=
  let into := r.edges.filter fun e => !e.feedback && r.run e.consumer == run
  (into.map fun e => r.run e.producer).filter (· != run)

/-- The runs, each after those it depends on, the smallest number first where there is a
choice. -/
def executionOrder (r : Runs) : List Nat :=
  let table := ((List.range r.count).map r.dependencies).toArray
  Digraph.numbering (fun run => table.getD run []) r.count

end Runs

end Dataflow
