import Dataflow.Plan.Basic

/-!
# Instrumentation

Which channels of a plan report their measured cardinalities. A mode is applied to a whole plan:
it decides every channel anew, whatever was marked before.

A mark on a channel is copied to each instance when it is made, and an instance that is marked is
recorded with its cardinality if its operator measured one. So marking a channel measures nothing
by itself, and marks that are set later do not change instances that exist.

Channels inside of loops can be marked; the publication leaves them out, not the mode
(`Machine.publish`). Channels that no planned task feeds can be marked as well, without any effect.

The three modes are those a configuration can ask for. A mode of somebody's own, any choice of
channels, is covered by the results, which hold for any marks (`Dataflow.Proofs.Execution.Collected`).
-/

namespace Dataflow

/-- Which channels report their measured cardinalities. -/
inductive Instrumentation where
  | none
  /-- The channels that leave the stage of their producer. -/
  | outbound
  | full
  deriving DecidableEq, Repr

namespace Instrumentation

instance : Inhabited Instrumentation := ⟨outbound⟩

def name : Instrumentation → String
  | none => "none"
  | outbound => "outbound"
  | full => "full"

/-- The mode that is called by this name. -/
def ofName? (s : String) : Option Instrumentation :=
  if s = "none" then some none
  else if s = "outbound" then some outbound
  else if s = "full" then some full
  else Option.none

/-- Whether a channel of a planned graph reports. -/
def selects (m : Instrumentation) (c : Channel) : Bool :=
  match m with
  | none => false
  | outbound => c.betweenStages
  | full => true

/-- Mark the selected channels of a plan, and no others. -/
def apply (m : Instrumentation) (p : Plan) : Plan :=
  let channels := p.graph.channels.map fun c => { c with instrumented := m.selects c }
  { p with graph := { p.graph with channels } }

@[simp] theorem ofName?_name (m : Instrumentation) : ofName? m.name = some m := by
  cases m <;> rfl

end Instrumentation

/-- The channels that report, in ascending order. -/
def TaskGraph.instrumentedChannels (g : TaskGraph) : List ChannelId :=
  g.channelIds.filter fun c => (g.channel c).instrumented

end Dataflow
