import Dataflow.Json.Value
import Dataflow.Plan.Basic

/-!
# Plans in writing

Two ways to write a plan down: `Plan.summary` is a JSON object with the stages, the starting
stages and the channels; `Plan.outline` is a text with one line for each stage.

A summary leaves out what follows from the rest: the predecessors of a stage and what feeds back
into it. It names tasks by their labels where it lists the tasks of a stage and by their numbers
everywhere else. All channels of the graph are listed, also those outside of the plan.

Both are read by people and by other programs; nothing here reads them back.
-/

namespace Dataflow

namespace Plan

/-- A list of numbers as a JSON array. -/
def numbers (ns : List Nat) : Json := .array (ns.map .number)

/-- A stage in a summary; `loop_head_stage` is left out for a stage outside of loops. -/
def summarizeStage (p : Plan) (id : StageId) : Json :=
  let s := p.stage id
  let loop := s.loopHeadStage.toList.map fun h => ("loop_head_stage", Json.number h)
  .object (
    [("id", .number id),
      ("platform", .text s.platform.name),
      ("tasks", .array (s.tasks.map fun t => .text (p.graph.taskLabel t).text)),
      ("start_tasks", numbers s.startTasks),
      ("terminal_tasks", numbers s.terminalTasks),
      ("successors", numbers s.successors)] ++ loop)

/-- A channel in a summary. A task that reads it twice is listed twice. -/
def summarizeChannel (p : Plan) (id : ChannelId) : Json :=
  let c := p.graph.channel id
  .object
    [("id", .number id),
      ("kind", .text c.descriptor.name),
      ("producer", .number c.producer),
      ("consumers", numbers (c.consumers.map Consumer.task)),
      ("barrier", .bool c.barrier),
      ("between_stages", .bool c.betweenStages),
      ("instrumented", .bool c.instrumented)]

/-- The stages and channels of a plan. -/
def summary (p : Plan) : Json :=
  .object
    [("stages", .array (p.stageIds.map p.summarizeStage)),
      ("starting_stages", numbers p.startingStages),
      ("channels", .array (p.graph.channelIds.map p.summarizeChannel))]

/-- A stage in an outline: its platform, the operators of its tasks and its successors. -/
def outlineStage (p : Plan) (id : StageId) : String :=
  let s := p.stage id
  let operators := s.tasks.map fun t => (p.graph.task t).operator.name
  let successors :=
    if s.successors.isEmpty then ""
    else " -> " ++ String.intercalate ", " (s.successors.map StageId.label)
  id.label ++ " @" ++ s.platform.name ++ " \x7b" ++ String.intercalate ", " operators ++ "\x7d" ++
    successors ++ "\n"

/-- One line for each stage, in order. -/
def outline (p : Plan) : String := String.join (p.stageIds.map p.outlineStage)

end Plan

end Dataflow
