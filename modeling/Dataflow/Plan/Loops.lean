import Dataflow.Digraph.Closure
import Dataflow.Plan.Basic

/-!
# Loop bodies

The body of a loop are the stages that can be reached from the readers of the head's iteration
outputs without entering the head's own stage or a stage that reads its final outputs. Bodies
nest; a stage belongs to the smallest body that contains it.

Only the smallest is recorded with the stage (`Stage.loopHeadStage`), and only what is recorded
counts in an execution. Two bodies may overlap without one being inside of the other, or be of one
size; then the stage is recorded for the smaller one, or for the loop with the later head, and the
other loop goes without it. So being in the body of a loop (`InBody`) and being recorded for it
(`IsInnermost`) are two relations, and `Dataflow.Proofs.Plan.Bodies` says how they are connected.

* A stage that reads both an iteration output and a final output of a head stops the search, and so
  it is outside of the body although it reads what an iteration emits.
* A stage behind the head that has nothing to do with the loop's result belongs to the body if it
  depends on an iteration output: what hangs on the loop without leading back to it is executed
  with each iteration (`Dataflow.Proofs.Execution.Rounds`).
* An output that the head names among both kinds counts as an iteration output.

Only planned readers count; the others have no stage. The search follows the successors of stages,
which leave feedback out, so it never goes around a loop.

An engine would sort the bodies by size and let each overwrite the larger ones before it. Taking
the last smallest one in a single pass comes to the same, and does not need the sorting.
-/

namespace Dataflow.Loops

/-- The stages of the tasks that read one of the given outputs of a task. -/
def readerStages (g : TaskGraph) (t : TaskId) (outputs : List Nat) : List StageId :=
  (g.consumersOf t).filterMap fun ck =>
    if outputs.contains (g.channel ck.1).output then (g.task ck.2.task).stage else none

/-- The body of the loop that task `t`, alone in stage `s`, is the head of. An output that is
both a body output and a final output counts as a body output. -/
def body (g : TaskGraph) (stages : List Stage) (s : StageId) (t : TaskId) (roles : LoopRoles) :
    List StageId :=
  let finals := roles.finalOutputs.filter fun o => !roles.bodyOutputs.contains o
  let stops := s :: readerStages g t finals
  let isPassable (x : StageId) : Bool := !stops.contains x
  let entries := (readerStages g t roles.bodyOutputs).filter isPassable
  Digraph.closure (fun x => (stages.getD x default).successors.filter isPassable)
    stages.length entries

/-- Every loop head stage with the body of its loop, in ascending order. -/
def bodies (g : TaskGraph) (stages : List Stage) : List (StageId × List StageId) :=
  (List.range stages.length).filterMap fun s => do
    let t ← (stages.getD s default).loopHead
    let roles ← (g.task t).operator.loopRoles
    some (s, body g stages s t roles)

/-- The head stage of the smallest body that contains stage `x`; of bodies of one size the last
one counts. -/
def innermost (bodies : List (StageId × List StageId)) (x : StageId) : Option StageId :=
  let best := bodies.foldl (fun best hb =>
    if hb.2.contains x then
      match best with
      | some (_, size) => if hb.2.length ≤ size then some (hb.1, hb.2.length) else best
      | none => some (hb.1, hb.2.length)
    else best) none
  best.map (·.1)

/-- Record for every stage the innermost loop that contains it. -/
def assign (g : TaskGraph) (stages : List Stage) : List Stage :=
  let bodies := bodies g stages
  stages.mapIdx fun x s => { s with loopHeadStage := innermost bodies x }

end Dataflow.Loops
