import Dataflow.Execution.State
import Dataflow.Operator.Behaviour
import Dataflow.Plan.Basic

/-!
# When a task can run

A task is activated when the inputs it waits for are bound. A loop head waits for its
initialization inputs until it has started and for its body inputs while it is running; any
other task waits for all its inputs.

An input is bound in one of two ways: by a task of the same stage, or, if the channel is a
barrier or comes from another stage, through the execution state.

The same condition is asked twice. The driver of a plan asks it of all tasks of a stage before the
stage is executed (`Plan.inboundReady`), and takes every input that is fed from inside of the stage
for bound. A stage execution asks it of an activator, with the inputs that really are bound
(`Activator.readiness`). The two agree on inputs that are fed through the state, with one exception:
an input that a loop head names among its parts and does not have is bound for the driver and not
for the activator, so such a stage is chosen and fails
(`Dataflow.Proofs.Execution.Failures`).

A finished loop head is never ready. A task without inputs always is, and so is a loop head that has
not started and names no initialization inputs.

* `readiness`: which activation a task is ready for; it is monotone in the bound inputs.
* `Plan.isFedExternally`, `Plan.isOutward`: the two ends of what is handed from stage to stage.
-/

namespace Dataflow

/-- The activation that a task is ready for, given where it stands as a loop head and which of
its inputs are bound. -/
def readiness (t : Task) (state : LoopState) (bound : Nat → Bool) : Option Activation :=
  match t.operator.loopRoles with
  | none => if (List.range t.inputs.length).all bound then some .plain else none
  | some roles =>
    match state with
    | .notStarted => if roles.initialization.all bound then some .loopInitialization else none
    | .running => if roles.body.all bound then some .loopIteration else none
    | .finished => none

/-- Where the operator of a task stands as a loop head. -/
def TaskGraph.loopState {ω : Type} (g : TaskGraph) (b : Behaviour ω) (memory : ω) (t : TaskId) :
    LoopState :=
  b.loopState (g.task t).operator.object memory

namespace Plan

/-- Whether an input of a task is fed through the execution state. -/
def isFedExternally (p : Plan) (t : TaskId) (input : Nat) : Bool :=
  let task := p.graph.task t
  match task.inputChannel input with
  | none => false
  | some c =>
    let channel := p.graph.channel c
    channel.barrier || (p.graph.task channel.producer).stage != task.stage

/-- Whether the instances of a channel are published when their stage ends. -/
def isOutward (p : Plan) (c : ChannelId) : Bool :=
  let channel := p.graph.channel c
  channel.betweenStages || channel.barrier

/-- Where the operator of a task stands as a loop head. -/
def loopState {ω : Type} (p : Plan) (b : Behaviour ω) (memory : ω) (t : TaskId) : LoopState :=
  p.graph.loopState b memory t

/-- Whether a task could run now if everything inside its stage went well. -/
def inboundReady {ω : Type} (p : Plan) (b : Behaviour ω) (memory : ω) (state : ExecutionState)
    (t : TaskId) : Bool :=
  let task := p.graph.task t
  let bound (input : Nat) : Bool :=
    !p.isFedExternally t input || (task.inputChannel input).any state.contains
  (readiness task (p.loopState b memory t) bound).isSome

end Plan

end Dataflow
