import Dataflow.Execution.Stage

/-!
# Executing a plan

A plan execution runs one stage after the other. A stage can be executed when it is pending,
none of its predecessors is, and what it reads from other stages is published; of several such
stages the one with the smallest number is next. A stage is pending until it has been executed;
loops make stages pending again:

* when a loop head was executed and is running, its body is pending;
* when the body is done and the head is running, the head is pending;
* when the head has finished, what is pending of its body is skipped.

The number of stage executions is limited, so that loops that do not end are given up.

The body of a loop, for all three rules, are the stages that are recorded for it
(`Stage.loopHeadStage`). A stage that lies in the bodies of two loops is recorded for one of them,
the innermost, so a loop whose whole body is recorded elsewhere is never made pending again, and the
stages of a loop inside of a finished one are not skipped. Both have consequences: see
`Dataflow.Proofs.Execution.Rearm` for loops that come to rest while they run, and
`Dataflow.Proofs.Loop.Nested.Outcome` for an inner loop that stays pending.

When nothing can be executed any more, the execution has stalled if a stage is pending, has failed
if a loop has not finished and that counts, and has succeeded otherwise. What was published stays
published in each case, and what operators remember stays remembered.

The agenda has one entry for a stage. A stage whose predecessor was skipped can be executed, since
it is not pending; it then finds what that predecessor published earlier, or does not become
executable for lack of it.

The limit is the fuel of `Plan.drive`, so the recursion follows the stage executions and every
result about whole executions is an induction on their number (`Plan.Midway` in
`Dataflow.Proofs.Execution.Drive`).

Out of scope: stages that run at the same time, durations, log lines, and giving an execution up
from outside.
-/

namespace Dataflow

/-- What is to be done with a stage. -/
inductive StageStatus where
  | pending
  | done
  | skipped
  deriving DecidableEq, Repr, Inhabited

/-- What is to be done with each stage. -/
abbrev Agenda := List StageStatus

namespace Agenda

/-- Every stage is still to be executed. -/
def allPending (n : Nat) : Agenda := List.replicate n .pending

/-- What is to be done with a stage; there is nothing to do for unknown stages. -/
def get (a : Agenda) (s : StageId) : StageStatus := List.getD a s .done

def isPending (a : Agenda) (s : StageId) : Bool := a.get s == .pending

/-- Set the status of every stage that satisfies a condition. -/
def setWhere (a : Agenda) (condition : StageId → Bool) (status : StageStatus) : Agenda :=
  a.mapIdx fun s old => if condition s then status else old

/-- The pending stages, in ascending order. -/
def pending (a : Agenda) : List StageId := (List.range a.length).filter a.isPending

end Agenda

/-- Outcome of a plan execution that succeeded. -/
structure PlanReport where
  /-- The stage executions, in order. -/
  stages : List StageReport
  /-- The measured cardinalities at the end, by channel. -/
  cardinalities : List (ChannelId × Nat)
  deriving DecidableEq, Repr

namespace Plan

variable {ω : Type}

/-! ## Choosing a stage -/

/-- Whether a stage can be executed now. -/
def isExecutable (p : Plan) (b : Behaviour ω) (a : Agenda) (m : Machine ω) (s : StageId) : Bool :=
  let stage := p.stage s
  a.isPending s && stage.predecessors.all (fun q => !a.isPending q) &&
    stage.tasks.all (p.inboundReady b m.memory m.state)

/-- The stage to execute next. -/
def nextExecutable (p : Plan) (b : Behaviour ω) (a : Agenda) (m : Machine ω) : Option StageId :=
  p.stageIds.find? (p.isExecutable b a m)

/-! ## Loops -/

/-- Whether a stage belongs to the body, but to no inner loop, of the given loop head stage. -/
def isInBodyOf (p : Plan) (head s : StageId) : Bool := (p.stage s).loopHeadStage == some head

/-- Where the loop head that makes up a stage stands. -/
def headState (p : Plan) (b : Behaviour ω) (memory : ω) (s : StageId) : Option LoopState :=
  (p.stage s).loopHead.map (p.loopState b memory)

/-- The agenda after a loop head stage was executed: a running loop starts an iteration, a
finished one drops what is left of its body. -/
def rearmBody (p : Plan) (b : Behaviour ω) (memory : ω) (s : StageId) (a : Agenda) : Agenda :=
  match p.headState b memory s with
  | some .running => a.setWhere (p.isInBodyOf s) .pending
  | some .finished => a.setWhere (fun t => p.isInBodyOf s t && a.isPending t) .skipped
  | _ => a

/-- The agenda after a stage of the body of `head` was executed: if nothing of the body is
left, a running loop head is next. -/
def rearmHead (p : Plan) (b : Behaviour ω) (memory : ω) (head : StageId) (a : Agenda) : Agenda :=
  let bodyDone := p.stageIds.all fun t => !(p.isInBodyOf head t && a.isPending t)
  if bodyDone && p.headState b memory head == some .running then
    a.setWhere (· == head) .pending
  else a

/-- The agenda after a stage was executed. -/
def rearm (p : Plan) (b : Behaviour ω) (memory : ω) (s : StageId) (a : Agenda) : Agenda :=
  let a := a.setWhere (· == s) .done
  let a := p.rearmBody b memory s a
  match (p.stage s).loopHeadStage with
  | some head => p.rearmHead b memory head a
  | none => a

/-! ## The whole plan -/

/-- The first loop head that has not finished, with where it stands. -/
def unfinishedLoop (p : Plan) (b : Behaviour ω) (memory : ω) : Option (TaskId × LoopState) :=
  p.stages.findSome? fun stage => do
    let t ← stage.loopHead
    let state := p.loopState b memory t
    if state = .finished then none else some (t, state)

/-- How an execution ends when no stage can be executed any more. -/
def conclude (p : Plan) (b : Behaviour ω) (config : ExecutorConfig) (a : Agenda) (memory : ω) :
    Except ExecutionError Unit :=
  if a.pending ≠ [] then .error (.stalled a.pending)
  else if config.requireFinishedLoops then
    match p.unfinishedLoop b memory with
    | some (t, state) => .error (.unfinishedLoop t state)
    | none => .ok ()
  else .ok ()

/-- Execute stages until none can be executed, at most `allowed` of them; `reports` are those
of the stages executed before. -/
def drive (p : Plan) (b : Behaviour ω) (config : ExecutorConfig) :
    Nat → Agenda → Array StageReport → Machine ω →
      Except ExecutionError Unit × Array StageReport × Machine ω
  | 0, a, reports, m =>
    match p.nextExecutable b a m with
    | none => (p.conclude b config a m.memory, reports, m)
    | some _ => (.error (.iterationLimit config.maxStageExecutions.toNat), reports, m)
  | allowed + 1, a, reports, m =>
    match p.nextExecutable b a m with
    | none => (p.conclude b config a m.memory, reports, m)
    | some s =>
      match p.executeStage b config s m with
      | (.error e, m) => (.error e, reports, m)
      | (.ok report, m) => drive p b config allowed (p.rearm b m.memory s a) (reports.push report) m

/-- Execute a plan. What it published stays published. -/
def execute (p : Plan) (b : Behaviour ω) (config : ExecutorConfig) (m : Machine ω) :
    Except ExecutionError PlanReport × Machine ω :=
  let n := p.stages.length
  let m := { m with events := m.events.push (.planStarted n) }
  match p.drive b config config.maxStageExecutions.toNat (.allPending n) #[] m with
  | (result, reports, m) =>
    let success := result matches .ok _
    let m := { m with events := m.events.push (.planCompleted success reports.size) }
    (result.map fun _ =>
      { stages := reports.toList, cardinalities := m.state.cardinalities.toList }, m)

end Plan

end Dataflow
