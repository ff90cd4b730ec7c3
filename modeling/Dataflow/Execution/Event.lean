import Dataflow.Error
import Dataflow.Operator.Behaviour

/-!
# Execution events

The progress of an execution, as it is told to whoever watches.

Events come in the order in which things happen: a stage is started before its tasks are executed,
and completed or failed after them; cardinalities are told after the publication. A
loop head tells a change of state before the activation that brought it about, and tells none if
it is where it was. A plan that fails tells that it did; the reason is told by a stage that was given
up, or by nobody. What an operator does by itself is not told.

Telling an event never fails and never waits, so a watcher cannot keep an execution from going on.
How events are handed to a watcher, and how long stages and plans took, is out of scope: a
completion tells what was executed and no duration.
-/

namespace Dataflow

/-- One piece of progress. -/
inductive ExecutionEvent where
  | planStarted (stages : Nat)
  /-- The plan ended, well or not, after so many stage executions. -/
  | planCompleted (success : Bool) (stageExecutions : Nat)
  | stageStarted (stage : StageId) (platform : Platform) (tasks : Nat)
  /-- The stage ended and its results were published. -/
  | stageCompleted (stage : StageId) (executed : Nat)
  /-- The stage was given up; the task is named if an operator failed. -/
  | stageFailed (stage : StageId) (task : Option TaskId) (message : String)
  | taskExecuted (stage : StageId) (task : TaskId) (operator : String) (activation : Activation)
  | loopStateChanged (task : TaskId) (source target : LoopState)
  | cardinalityMeasured (channel : ChannelId) (cardinality : Nat)
  deriving DecidableEq, Repr

end Dataflow
