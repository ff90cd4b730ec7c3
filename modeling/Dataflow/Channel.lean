import Dataflow.Error

/-!
# Channels

A channel carries the data of one task output to the task inputs that consume it. Planning
sets two flags: a barrier keeps producer and consumers in different stages, and a channel
between stages is read by a task of another stage than its producer's. The third flag says that
the measured cardinalities of its instances are of interest.

* A barrier is given before planning (`TaskGraph.markBarrier`) or comes from planning: the channels
  into the body inputs of a planned loop head are barriers, and so are those that a split of a run
  cuts (`Runs.splitOff`). Planning never takes a barrier away.
* `betweenStages` is decided by planning alone, and anew for every channel that a planned task
  feeds.
* Consumers stand in the order in which they were connected. That is the order in which a stage
  execution feeds them, and so it decides which task is executed first.

The kind of a channel is a name and whether its data can be read again; a channel that can be
read once may not feed several stages (`PlanningError.nonReusableFanOut`).
-/

namespace Dataflow

/-- The kind of a channel. -/
structure ChannelDescriptor where
  name : String
  /-- Whether the same data can be handed to several consumers. -/
  reusable : Bool
  deriving DecidableEq, Repr

namespace ChannelDescriptor

/-- Data that is kept and can be read again. -/
def collection : ChannelDescriptor := ⟨"collection", true⟩

/-- Data that can be consumed once. -/
def stream : ChannelDescriptor := ⟨"stream", false⟩

instance : Inhabited ChannelDescriptor := ⟨collection⟩

end ChannelDescriptor

/-- One consuming input of a channel. -/
structure Consumer where
  task : TaskId
  input : Nat
  deriving DecidableEq, Repr

/-- A conduit from one task output to any number of task inputs. -/
structure Channel where
  descriptor : ChannelDescriptor
  producer : TaskId
  /-- The output of the producer that feeds this channel. -/
  output : Nat
  /-- The consuming inputs, in the order in which they were connected. -/
  consumers : List Consumer := []
  /-- Consumers must be in other stages than the producer. -/
  barrier : Bool := false
  /-- Some consumer is in another stage than the producer. -/
  betweenStages : Bool := false
  /-- Instances of this channel report their measured cardinality. -/
  instrumented : Bool := false
  deriving DecidableEq, Repr, Inhabited

/-- What is written on the channel with number `id`. -/
def Channel.label (id : ChannelId) (c : Channel) : ChannelLabel := ⟨id, c.descriptor.name⟩

end Dataflow
