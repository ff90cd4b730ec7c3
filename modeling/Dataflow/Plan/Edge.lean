import Dataflow.TaskGraph.Basic

/-!
# Edges between planned tasks

An edge is one consumption: a channel, the task that feeds it and a task that reads it. Edges
into the body inputs of a loop head are feedback; they close an iteration and order nothing.

What planning needs to know of an edge is computed once, from the graph, and does not change any
more: planning adds barriers, and these are kept apart from the edges. An input that nothing feeds
has no edge, and a task that reads a channel twice has two.

Edges stand in the order of their consumers and of the inputs of each, which is an order that
results depend on: the cycle that is reported, and where the search for one begins, follow it.

A body input is known by its position among the inputs of the loop head, so whether an edge is
feedback depends on the consumer alone. An edge between two loop heads can be feedback for the one
and nothing special for the other.
-/

namespace Dataflow

/-- One consumption of a channel by a planned task. -/
structure Edge where
  channel : ChannelId
  producer : TaskId
  consumer : TaskId
  /-- The consumer is a loop head and reads the channel on a body input. -/
  feedback : Bool
  /-- Producer and consumer run on different platforms. -/
  crossing : Bool
  /-- Producer or consumer is a loop head. -/
  touchesHead : Bool
  deriving DecidableEq, Repr, Inhabited

namespace Edge

/-- Nothing but a barrier can keep producer and consumer from executing together: they are on
one platform, neither is a loop head, and the edge is not feedback. -/
def isJoinable (e : Edge) : Bool := !e.feedback && !e.crossing && !e.touchesHead

/-- The edge by which input `i` of task `t` reads channel `c`. -/
def ofInput (g : TaskGraph) (t : TaskId) (i : Nat) (c : ChannelId) : Edge :=
  let consumer := g.task t
  let p := (g.channel c).producer
  let producer := g.task p
  { channel := c
    producer := p
    consumer := t
    feedback := consumer.operator.bodyInputs.contains i
    crossing := producer.operator.platform != consumer.operator.platform
    touchesHead := consumer.isLoopHead || producer.isLoopHead }

/-- The edges into the inputs of a task, in input order. -/
def into (g : TaskGraph) (t : TaskId) : List Edge :=
  (g.task t).inputs.zipIdx.filterMap fun ci => ci.1.map (ofInput g t ci.2)

/-- The edges into the given tasks, in the order of the tasks and of their inputs. -/
def among (g : TaskGraph) (tasks : List TaskId) : List Edge := tasks.flatMap (into g)

end Edge

end Dataflow
