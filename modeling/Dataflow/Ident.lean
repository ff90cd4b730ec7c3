/-!
# Identifiers

Operators, tasks, channels and stages are numbered from zero in the order in which they were
added to the graph or plan that owns them. An identifier is that number; its label is the
number behind the kind of thing it counts, and messages name things by their labels.

An identifier does not say which graph it belongs to. Looking something up under a number that
its owner does not have answers a default (`TaskGraph.task`, `TaskGraph.channel`, `Plan.stage`),
so that looking up is total. A caller's own identifiers are checked before they are used
(`TaskGraph.requireTask`, `OperatorGraph.requireNode`); those that stand in a graph or a plan are
in range, which `TaskGraph.Wired` says of every graph that was built by the wiring operations.
-/

namespace Dataflow

/-- Position of an operator in its operator graph. -/
abbrev OperatorId := Nat

/-- Position of a task in its task graph. -/
abbrev TaskId := Nat

/-- Position of a channel in its task graph. -/
abbrev ChannelId := Nat

/-- Position of a stage in its plan. -/
abbrev StageId := Nat

def OperatorId.label (id : OperatorId) : String := "op#" ++ toString id

def TaskId.label (id : TaskId) : String := "task#" ++ toString id

def ChannelId.label (id : ChannelId) : String := "channel#" ++ toString id

def StageId.label (id : StageId) : String := "stage#" ++ toString id

end Dataflow
