import Dataflow.Channel
import Dataflow.Task

/-!
# Task graphs

Tasks and the channels between them. A connection is recorded three times: in the input it
feeds, in the output that feeds it, and among the consumers of the channel. An output owns at
most one channel, an input is fed by at most one.

A wiring operation either returns the changed graph or the reason why it is refused, in which
case there is no changed graph. A connection is checked in a fixed order: the producer, its output,
the consumer, its input, whether that input is free, and then the types. The types of a broadcast
input are not checked.

* `TaskGraph.addTask`, `addBroadcastInput`, `connectWith`, `connect`, `markBarrier`: the operations.
  A graph that comes from them is `Built`.
* `TaskGraph.openChannel`: an output that has a channel keeps it, and its kind; the kind that a later
  connection asks for does not count.
* `TaskGraph.producerOf`, `producers`, `consumersOf`, `sinks`: what planning asks of a graph.

In every built graph the three records agree, whatever was refused on the way
(`Dataflow.Proofs.TaskGraph.Requests`), and every channel has a consumer, since a channel comes
into being with its first one. Nothing here looks for cycles; a cycle is found by planning.
-/

namespace Dataflow

/-- Tasks and channels, each numbered by its position. -/
structure TaskGraph where
  tasks : List Task := []
  channels : List Channel := []
  deriving DecidableEq, Repr, Inhabited

namespace TaskGraph

def empty : TaskGraph := {}

/-! ## Looking things up -/

/-- The task with number `id`, or a task without slots if there is none. -/
def task (g : TaskGraph) (id : TaskId) : Task := g.tasks.getD id default

/-- The channel with number `id`, or an unconsumed channel if there is none. -/
def channel (g : TaskGraph) (id : ChannelId) : Channel := g.channels.getD id default

/-- The numbers of the tasks, in order. -/
def taskIds (g : TaskGraph) : List TaskId := List.range g.tasks.length

/-- The numbers of the channels, in order. -/
def channelIds (g : TaskGraph) : List ChannelId := List.range g.channels.length

def taskLabel (g : TaskGraph) (id : TaskId) : TaskLabel := (g.task id).label id

def channelLabel (g : TaskGraph) (id : ChannelId) : ChannelLabel := (g.channel id).label id

/-- The task that feeds an input. -/
def producerOf (g : TaskGraph) (id : TaskId) (input : Nat) : Option TaskId :=
  ((g.task id).inputChannel input).map fun c => (g.channel c).producer

/-- The tasks that feed the inputs of a task, in input order. -/
def producers (g : TaskGraph) (id : TaskId) : List TaskId :=
  (g.task id).inputs.filterMap fun c => c.map fun c => (g.channel c).producer

/-- Every channel that leaves a task, with each of its consumers. -/
def consumersOf (g : TaskGraph) (id : TaskId) : List (ChannelId × Consumer) :=
  (g.task id).outputs.reduceOption.flatMap fun c => (g.channel c).consumers.map fun k => (c, k)

/-- The tasks none of whose outputs feeds a channel. -/
def sinks (g : TaskGraph) : List TaskId :=
  g.taskIds.filter fun t => (g.task t).outputs.all Option.isNone

/-! ## Building -/

/-- Add a task; its number is the number of tasks before. -/
def addTask (g : TaskGraph) (o : Operator) : TaskGraph :=
  { g with tasks := g.tasks ++ [Task.ofOperator o] }

/-- The number of a task of this graph. -/
def requireTask (g : TaskGraph) (id : TaskId) : Except PlanningError Unit :=
  if id < g.tasks.length then .ok () else .error (.unknownTask id)

/-- Append a broadcast input to a task; answers the position of the new input. -/
def addBroadcastInput (g : TaskGraph) (id : TaskId) :
    Except PlanningError (TaskGraph × Nat) := do
  g.requireTask id
  let t := g.task id
  if t.operator.supportsBroadcast then
    .ok ({ g with tasks := g.tasks.set id { t with inputs := t.inputs ++ [none] } },
      t.inputs.length)
  else .error (.broadcastRefused id t.operator.name)

/-- Why a connection is refused, if it is. Broadcast inputs are untyped. -/
def checkConnection (g : TaskGraph) (producer : TaskId) (output : Nat) (consumer : TaskId)
    (input : Nat) : Except PlanningError Unit := do
  g.requireTask producer
  let p := g.task producer
  unless output < p.outputs.length do throw (.noOutput producer output)
  g.requireTask consumer
  let c := g.task consumer
  unless input < c.inputs.length do throw (.noInput consumer input)
  match c.inputChannel input with
  | some bound => throw (.alreadyFed input consumer bound)
  | none =>
    let source := p.operator.outputType output
    let target := c.operator.inputType input
    if input < c.operator.inputs.length ∧ source.isCompatibleWith target = false then
      throw (.incompatible target input consumer source output producer)

/-- The channel of an output: the one it has, or else a new one of the given kind. -/
def openChannel (g : TaskGraph) (producer : TaskId) (output : Nat) (kind : ChannelDescriptor) :
    TaskGraph × ChannelId :=
  match (g.task producer).outputChannel output with
  | some c => (g, c)
  | none =>
    let c := g.channels.length
    ({ g with
        channels := g.channels ++ [{ descriptor := kind, producer, output }]
        tasks := g.tasks.modify producer (·.bindOutput output c) }, c)

/-- Make an input a consumer of a channel. -/
def attach (g : TaskGraph) (c : ChannelId) (consumer : TaskId) (input : Nat) : TaskGraph :=
  { g with
    channels := g.channels.modify c fun ch =>
      { ch with consumers := ch.consumers ++ [⟨consumer, input⟩] }
    tasks := g.tasks.modify consumer (·.bindInput input c) }

/-- Feed an input from an output, through the channel of that output. The kind matters only
for an output that has no channel yet. Answers the channel. -/
def connectWith (g : TaskGraph) (producer : TaskId) (output : Nat) (consumer : TaskId)
    (input : Nat) (kind : ChannelDescriptor) : Except PlanningError (TaskGraph × ChannelId) := do
  g.checkConnection producer output consumer input
  let (g, c) := g.openChannel producer output kind
  .ok (g.attach c consumer input, c)

/-- Feed an input from an output through a channel that can be read again. -/
def connect (g : TaskGraph) (producer : TaskId) (output : Nat) (consumer : TaskId)
    (input : Nat) : Except PlanningError (TaskGraph × ChannelId) :=
  g.connectWith producer output consumer input .collection

/-- Keep the consumers of a channel in other stages than its producer. -/
def markBarrier (g : TaskGraph) (c : ChannelId) : TaskGraph :=
  { g with channels := g.channels.modify c fun ch => { ch with barrier := true } }

def setInstrumented (g : TaskGraph) (c : ChannelId) (on : Bool) : TaskGraph :=
  { g with channels := g.channels.modify c fun ch => { ch with instrumented := on } }

end TaskGraph

end Dataflow
