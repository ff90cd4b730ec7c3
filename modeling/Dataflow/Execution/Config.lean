/-!
# Executor configurations

The limits and habits of a plan execution.

The limit is compared before a stage execution, so an execution that needs exactly as many as are
allowed ends well; with a limit of zero it ends well only if there is nothing to execute. It counts
stage executions of all kinds, those of a loop body in each iteration. Turning the collection of
cardinalities off leaves the instances as they are, measured or not; the execution then records
and tells none. Unfinished loops are looked at only when nothing is pending any more, so the last
switch never turns a stalled execution into a success.
-/

namespace Dataflow

/-- How a plan is executed. -/
structure ExecutorConfig where
  /-- How many stage executions one plan execution may take, loop iterations included. -/
  maxStageExecutions : UInt64 := 10000
  /-- Whether measured cardinalities are kept. -/
  collectCardinalities : Bool := true
  /-- Whether an execution succeeds only if every loop head has finished. -/
  requireFinishedLoops : Bool := true
  deriving DecidableEq, Repr, Inhabited

end Dataflow
