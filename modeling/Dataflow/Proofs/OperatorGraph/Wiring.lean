import Dataflow.Proofs.OperatorGraph.Slots
import Mathlib.Data.List.Nodup

/-!
# What wiring operators keeps

The calls that change an operator graph (`Request`), carried out one after the other whether they
succeed or not. In every graph that comes about this way the two records of a connection agree
(`Wired`): an input names its occupant iff the occupant lists the input, and lists it once.

Both ends of a connection are written down, one as the occupant of an input and one in the list of
consumers of an output, and nothing but the calls makes them agree. To undo a connection removes one
entry of a list, at its place, and so restores the list as it was before the entry was appended.

* `Wired.handle`: each call keeps the invariant.
* **`handleAll_wired`**: it holds after any calls; a refused call changes nothing, and a connection
  can be undone and made again.

A call may name slots and operators that do not exist, connect what does not go together or use an
input twice; it is refused then and changes nothing, so that a graph is in order whether or not the
caller looks at the answers. A connection that is undone and made again comes last among the
consumers, which is why the fourth part does not say that the graph is the same.
-/

namespace Dataflow

namespace OperatorGraph

/-! ## Calls -/

/-- A call that may change an operator graph. -/
inductive Request where
  | addLogical (name : String) (inputs outputs : List DataSetType)
  | addLogicalLoop (name : String) (data convergence : DataSetType)
  | addElementary (operator : Operator)
  | addBroadcastInput (id : OperatorId) (name : String) (dataType : DataSetType)
  | connect (source : OutputRef) (target : InputRef)
  | disconnect (target : InputRef)
  deriving DecidableEq, Repr

/-- What a call answers when it succeeds. -/
inductive Answer where
  | operator (id : OperatorId)
  | input (address : InputRef)
  | connected
  | occupant (source : OutputRef)
  deriving DecidableEq, Repr

/-- Carry out a call: its answer, or why it is refused, and the graph after it. -/
def handle (g : OperatorGraph) : Request → Except SlotError Answer × OperatorGraph
  | .addLogical name inputs outputs => (.ok (.operator g.nextId), g.addLogical name inputs outputs)
  | .addLogicalLoop name data convergence =>
    (.ok (.operator g.nextId), g.addLogicalLoop name data convergence)
  | .addElementary o => (.ok (.operator g.nextId), g.addElementary o)
  | .addBroadcastInput id name t =>
    match g.addBroadcastInput id name t with
    | .ok (g', address) => (.ok (.input address), g')
    | .error e => (.error e, g)
  | .connect source target =>
    match g.connect source target with
    | .ok g' => (.ok .connected, g')
    | .error e => (.error e, g)
  | .disconnect target =>
    match g.disconnect target with
    | .ok (g', source) => (.ok (.occupant source), g')
    | .error e => (.error e, g)

/-- The graph after calls one after the other. -/
def handleAll (g : OperatorGraph) (requests : List Request) : OperatorGraph :=
  requests.foldl (fun g request => (g.handle request).2) g

/-- What each call keeps is kept by any calls. -/
theorem handleAll_induction {P : OperatorGraph → Prop}
    (handle : ∀ g request, P g → P (g.handle request).2) (requests : List Request)
    {g : OperatorGraph} (h : P g) : P (g.handleAll requests) := by
  induction requests generalizing g with
  | nil => exact h
  | cons request requests ih => exact ih (handle g request h)

/-- What a call does to the graph: nothing, or what it is for. -/
inductive Step (g : OperatorGraph) : OperatorGraph → Prop
  | refused : Step g g
  | added (name : String) (kind : NodeKind) (inputs outputs : List DataSetType)
      (declared : ∀ o, kind = .elementary o → inputs = o.inputs ∧ outputs = o.outputs) :
      Step g (g.addNode (.build g.nextId name kind inputs outputs))
  | widened {n : Node} (s : InputSlot) (node : g.nodes[s.address.operator]? = some n)
      (last : s.address.index = n.inputs.length) (free : s.occupant = none)
      (broadcast : s.broadcast = true) (supported : n.kind.supportsBroadcast = true) :
      Step g (g.appendInput s)
  | linked {source : OutputRef} {target : InputRef} (connectable : g.Connectable source target) :
      Step g (g.link source target)
  | unlinked {source : OutputRef} {target : InputRef} (occupied : g.occupant target = some source) :
      Step g (g.unlink source target)

theorem step_handle (g : OperatorGraph) (request : Request) : g.Step (g.handle request).2 := by
  cases request with
  | addLogical name inputs outputs => exact .added name _ _ _ fun _ h => NodeKind.noConfusion h
  | addLogicalLoop name data convergence =>
    exact .added name _ _ _ fun _ h => NodeKind.noConfusion h
  | addElementary o =>
    refine .added o.name _ _ _ fun o' h => ?_
    obtain rfl := NodeKind.elementary.inj h
    exact ⟨rfl, rfl⟩
  | addBroadcastInput id name t =>
    cases hadd : g.addBroadcastInput id name t with
    | error e =>
      simp only [handle, hadd]
      exact .refused
    | ok added =>
      obtain ⟨g', address⟩ := added
      obtain ⟨n, hn, hs, rfl, rfl⟩ := addBroadcastInput_eq_ok.mp hadd
      simp only [handle, hadd]
      exact .widened _ hn rfl rfl rfl hs
  | connect source target =>
    cases hconnect : g.connect source target with
    | error e =>
      simp only [handle, hconnect]
      exact .refused
    | ok g' =>
      obtain ⟨hc, rfl⟩ := connect_eq_ok.mp hconnect
      simp only [handle, hconnect]
      exact .linked hc
  | disconnect target =>
    cases hdisconnect : g.disconnect target with
    | error e =>
      simp only [handle, hdisconnect]
      exact .refused
    | ok undone =>
      obtain ⟨g', source⟩ := undone
      obtain ⟨ho, rfl⟩ := disconnect_eq_ok.mp hdisconnect
      simp only [handle, hdisconnect]
      exact .unlinked ho

/-! ## The invariant -/

/-- Slots know where they are, broadcast inputs come last, and the two records of each connection
agree. -/
structure Wired (g : OperatorGraph) : Prop where
  input_address : ∀ r s, g.inputAt r = some s → s.address = r
  output_address : ∀ a s, g.outputAt a = some s → s.address = a
  broadcast_last : ∀ b i j s t, g.inputAt ⟨b, i⟩ = some s → g.inputAt ⟨b, j⟩ = some t →
    s.broadcast = false → t.broadcast = true → i < j
  occupant_iff : ∀ r a, g.occupant r = some a ↔ r ∈ g.consumers a
  nodup : ∀ a, (g.consumers a).Nodup
  compatible : ∀ r a, g.occupant r = some a → g.Compatible a r

variable {g g' : OperatorGraph} {source : OutputRef} {target : InputRef}

theorem wired_empty : Wired .empty := by
  have hin : ∀ r, empty.inputAt r = none := fun r => inputAt_of_le (Nat.zero_le _)
  have hout : ∀ a, empty.outputAt a = none := fun a => outputAt_of_le (Nat.zero_le _)
  have hoccupant : ∀ r, empty.occupant r = none := fun r => by rw [occupant, hin]; rfl
  have hconsumers : ∀ a, empty.consumers a = [] := fun a => by rw [consumers, hout]; rfl
  refine ⟨fun r s h => ?_, fun a s h => ?_, fun b i j s t h => ?_, fun r a => ?_, fun a => ?_,
    fun r a h => ?_⟩
  · exact absurd (hin r ▸ h) nofun
  · exact absurd (hout a ▸ h) nofun
  · exact absurd (hin _ ▸ h) nofun
  · simp [hoccupant, hconsumers]
  · rw [hconsumers]
    exact List.nodup_nil
  · exact absurd (hoccupant r ▸ h) nofun

/-- An old slot stays what it is when an operator is added. -/
theorem Compatible.addNode (h : g.Compatible source target) (n : Node) :
    (g.addNode n).Compatible source target := by
  obtain ⟨out, inp, hout, hinp, hc⟩ := h
  refine ⟨out, inp, ?_, ?_, hc⟩
  · rw [outputAt_addNode, if_neg fun he => ?_, hout]
    rw [outputAt_of_le (Nat.le_of_eq he.symm)] at hout
    exact absurd hout nofun
  · rw [inputAt_addNode, if_neg fun he => ?_, hinp]
    rw [inputAt_of_le (Nat.le_of_eq he.symm)] at hinp
    exact absurd hinp nofun

theorem Wired.addNode (h : g.Wired) (name : String) (kind : NodeKind)
    (inputs outputs : List DataSetType) :
    (g.addNode (.build g.nextId name kind inputs outputs)).Wired := by
  have hnew : ∀ (i : Nat) (s : InputSlot),
      (Node.build g.nextId name kind inputs outputs).inputs[i]? = some s →
        s.address = ⟨g.nextId, i⟩ ∧ s.broadcast = false := by
    intro i s hs
    rw [getElem?_inputs_build, Option.map_eq_some_iff] at hs
    obtain ⟨t, -, rfl⟩ := hs
    exact ⟨rfl, rfl⟩
  refine {
    input_address := fun r s hr => ?input_address
    output_address := fun a s ha => ?output_address
    broadcast_last := fun b i j s t hs ht => ?broadcast_last
    occupant_iff := fun r a => ?occupant_iff
    nodup := fun a => ?nodup
    compatible := fun r a hr => ?compatible }
  case input_address =>
    rw [inputAt_addNode] at hr
    split at hr
    · rename_i he
      rw [(hnew _ s hr).1, ← he]
    · exact h.input_address r s hr
  case output_address =>
    rw [outputAt_addNode] at ha
    split at ha
    · rename_i he
      rw [getElem?_outputs_build, Option.map_eq_some_iff] at ha
      obtain ⟨t, -, rfl⟩ := ha
      rw [← he]
    · exact h.output_address a s ha
  case broadcast_last =>
    rw [inputAt_addNode] at hs ht
    split at ht
    · exact fun _ hb => absurd ((hnew _ t ht).2.symm.trans hb) nofun
    · rename_i hne
      rw [if_neg hne] at hs
      exact h.broadcast_last b i j s t hs ht
  case occupant_iff =>
    rw [occupant_addNode_build, consumers_addNode_build]
    exact h.occupant_iff r a
  case nodup =>
    rw [consumers_addNode_build]
    exact h.nodup a
  case compatible =>
    rw [occupant_addNode_build] at hr
    exact (h.compatible r a hr).addNode _

section AppendInput

variable {n : Node} {s : InputSlot} (hn : g.nodes[s.address.operator]? = some n)
  (hi : s.address.index = n.inputs.length)

include hn hi

/-- The address of a new input is not in use. -/
theorem inputAt_address : g.inputAt s.address = none := by
  unfold inputAt
  rw [hn, hi]
  simp

theorem occupant_appendInput (hfree : s.occupant = none) (r : InputRef) :
    (g.appendInput s).occupant r = g.occupant r := by
  unfold occupant
  rw [inputAt_appendInput hn hi]
  split
  · rename_i hr
    rw [hr, inputAt_address hn hi]
    exact hfree
  · rfl

/-- An old slot stays what it is when an input is added. -/
theorem Compatible.appendInput (h : g.Compatible source target) :
    (g.appendInput s).Compatible source target := by
  obtain ⟨out, inp, hout, hinp, hc⟩ := h
  refine ⟨out, inp, by rw [outputAt_appendInput, hout], ?_, hc⟩
  rw [inputAt_appendInput hn hi, if_neg fun he => ?_, hinp]
  rw [he, inputAt_address hn hi] at hinp
  exact absurd hinp nofun

theorem Wired.appendInput (h : g.Wired) (hfree : s.occupant = none) (hb : s.broadcast = true) :
    (g.appendInput s).Wired := by
  have hoccupant := occupant_appendInput hn hi hfree
  have hconsumers : ∀ a, (g.appendInput s).consumers a = g.consumers a := fun a => by
    unfold consumers
    rw [outputAt_appendInput]
  refine {
    input_address := fun r t hr => ?input_address
    output_address := fun a t ha => ?output_address
    broadcast_last := fun b i j t u ht hu => ?broadcast_last
    occupant_iff := fun r a => ?occupant_iff
    nodup := fun a => ?nodup
    compatible := fun r a hr => ?compatible }
  case input_address =>
    rw [inputAt_appendInput hn hi] at hr
    split at hr
    · rename_i he
      rw [← Option.some.inj hr, he]
    · exact h.input_address r t hr
  case output_address =>
    rw [outputAt_appendInput] at ha
    exact h.output_address a t ha
  case broadcast_last =>
    rw [inputAt_appendInput hn hi] at ht hu
    split at ht
    · obtain rfl := Option.some.inj ht
      exact fun hregular => absurd (hregular.symm.trans hb) nofun
    · split at hu
      · -- the new input comes after those that were there
        rename_i hj
        intro _ _
        have hlt : i < n.inputs.length := by
          unfold inputAt at ht
          rw [show b = s.address.operator from congrArg InputRef.operator hj, hn] at ht
          exact (List.getElem?_eq_some_iff.mp ht).1
        rwa [show j = n.inputs.length from (congrArg InputRef.index hj).trans hi]
      · exact h.broadcast_last b i j t u ht hu
  case occupant_iff =>
    rw [hoccupant, hconsumers]
    exact h.occupant_iff r a
  case nodup =>
    rw [hconsumers]
    exact h.nodup a
  case compatible =>
    rw [hoccupant] at hr
    exact (h.compatible r a hr).appendInput hn hi

end AppendInput

/-! ## Rewiring -/

/-- Two graphs that differ in their connections only. -/
structure SameSlots (g g' : OperatorGraph) : Prop where
  input : ∀ r, (g'.inputAt r).map InputSlot.declaration = (g.inputAt r).map InputSlot.declaration
  output : ∀ a,
    (g'.outputAt a).map OutputSlot.declaration = (g.outputAt a).map OutputSlot.declaration

theorem SameSlots.symm (h : SameSlots g g') : SameSlots g' g :=
  ⟨fun r => (h.input r).symm, fun a => (h.output a).symm⟩

theorem SameSlots.exists_inputAt (h : SameSlots g g') {r : InputRef} {s' : InputSlot}
    (hs : g'.inputAt r = some s') : ∃ s, g.inputAt r = some s ∧ s.address = s'.address ∧
      s.dataType = s'.dataType ∧ s.broadcast = s'.broadcast := by
  have hmap := h.input r
  rw [hs, Option.map_some, eq_comm, Option.map_eq_some_iff] at hmap
  obtain ⟨s, hr, he⟩ := hmap
  obtain ⟨ha, he⟩ := Prod.mk.inj he
  obtain ⟨ht, hb⟩ := Prod.mk.inj he
  exact ⟨s, hr, ha, ht, hb⟩

theorem SameSlots.exists_outputAt (h : SameSlots g g') {a : OutputRef} {s' : OutputSlot}
    (hs : g'.outputAt a = some s') : ∃ s, g.outputAt a = some s ∧ s.address = s'.address ∧
      s.dataType = s'.dataType := by
  have hmap := h.output a
  rw [hs, Option.map_some, eq_comm, Option.map_eq_some_iff] at hmap
  obtain ⟨s, ha, he⟩ := hmap
  obtain ⟨haddress, ht⟩ := Prod.mk.inj he
  exact ⟨s, ha, haddress, ht⟩

theorem Compatible.of_sameSlots (h : g.Compatible source target) (hs : SameSlots g g') :
    g'.Compatible source target := by
  obtain ⟨out, inp, hout, hinp, hc⟩ := h
  obtain ⟨out', hout', -, hto⟩ := hs.symm.exists_outputAt hout
  obtain ⟨inp', hinp', -, hti, -⟩ := hs.symm.exists_inputAt hinp
  exact ⟨out', inp', hout', hinp', by rw [hto, hti]; exact hc⟩

/-- It takes three facts on the connections for a graph to stay wired when it is rewired. -/
theorem Wired.rewire (h : g.Wired) (hs : SameSlots g g')
    (hiff : ∀ r a, g'.occupant r = some a ↔ r ∈ g'.consumers a)
    (hnodup : ∀ a, (g'.consumers a).Nodup)
    (hcompatible : ∀ r a, g'.occupant r = some a → g.Compatible a r) : g'.Wired := by
  refine ⟨fun r s hr => ?_, fun a s ha => ?_, fun b i j s t hr ht hb hbt => ?_, hiff, hnodup,
    fun r a hr => (hcompatible r a hr).of_sameSlots hs⟩
  · obtain ⟨s₀, hr₀, ha, -⟩ := hs.exists_inputAt hr
    rw [← ha]
    exact h.input_address r s₀ hr₀
  · obtain ⟨s₀, ha₀, he, -⟩ := hs.exists_outputAt ha
    rw [← he]
    exact h.output_address a s₀ ha₀
  · obtain ⟨s₀, hs₀, -, -, hbs⟩ := hs.exists_inputAt hr
    obtain ⟨t₀, ht₀, -, -, hbt₀⟩ := hs.exists_inputAt ht
    exact h.broadcast_last b i j s₀ t₀ hs₀ ht₀ (hbs.trans hb) (hbt₀.trans hbt)

theorem sameSlots_link (source : OutputRef) (target : InputRef) :
    SameSlots g (g.link source target) := by
  refine ⟨fun r => ?_, fun a => ?_⟩
  · rw [inputAt_link]
    split
    · rw [Option.map_map]
      rfl
    · rfl
  · rw [outputAt_link]
    split
    · rw [Option.map_map]
      exact congrArg (fun f => Option.map f (g.outputAt a))
        (funext fun s => s.declaration_addConsumer target)
    · rfl

theorem sameSlots_unlink (source : OutputRef) (target : InputRef) :
    SameSlots g (g.unlink source target) := by
  refine ⟨fun r => ?_, fun a => ?_⟩
  · rw [inputAt_unlink]
    split
    · rw [Option.map_map]
      rfl
    · rfl
  · rw [outputAt_unlink]
    split
    · rw [Option.map_map]
      rfl
    · rfl

theorem occupant_link (hc : g.Compatible source target) (r : InputRef) :
    (g.link source target).occupant r = if r = target then some source else g.occupant r := by
  obtain ⟨-, inp, -, hinp, -⟩ := hc
  unfold occupant
  rw [inputAt_link]
  split
  · rename_i hr
    rw [hr, hinp]
    rfl
  · rfl

theorem consumers_link (hc : g.Compatible source target) (hnew : target ∉ g.consumers source)
    (a : OutputRef) : (g.link source target).consumers a =
      if a = source then g.consumers a ++ [target] else g.consumers a := by
  obtain ⟨out, -, hout, -, -⟩ := hc
  rw [consumers_of_outputAt hout] at hnew
  unfold consumers
  rw [outputAt_link]
  split
  · rename_i ha
    rw [ha, hout]
    simp [OutputSlot.addConsumer, hnew]
  · rfl

theorem occupant_unlink (source : OutputRef) (target r : InputRef) :
    (g.unlink source target).occupant r = if r = target then none else g.occupant r := by
  unfold occupant
  rw [inputAt_unlink]
  split
  · cases g.inputAt r <;> rfl
  · rfl

theorem consumers_unlink (source a : OutputRef) (target : InputRef) :
    (g.unlink source target).consumers a =
      if a = source then (g.consumers a).filter (· != target) else g.consumers a := by
  unfold consumers
  rw [outputAt_unlink]
  split
  · cases g.outputAt a <;> rfl
  · rfl

/-- An input without occupant is listed nowhere. -/
theorem Wired.not_mem_of_free (h : g.Wired) (hfree : g.occupant target = none) (a : OutputRef) :
    target ∉ g.consumers a := fun hmem => by
  rw [(h.occupant_iff target a).mpr hmem] at hfree
  exact absurd hfree nofun

theorem Wired.link (h : g.Wired) (hc : g.Connectable source target) :
    (g.link source target).Wired := by
  have hnew := h.not_mem_of_free hc.free
  refine h.rewire (sameSlots_link source target) (fun r a => ?_) (fun a => ?_) fun r a hr => ?_
  · rw [occupant_link hc.compatible, consumers_link hc.compatible (hnew source)]
    by_cases hr : r = target
    · subst hr
      by_cases ha : a = source
      · simp [ha]
      · simp [ha, hnew a, Ne.symm ha]
    · rw [if_neg hr, h.occupant_iff r a]
      split <;> simp [hr]
  · rw [consumers_link hc.compatible (hnew source)]
    split
    · refine List.nodup_append.mpr ⟨h.nodup a, by simp, fun r hr r' hr' => ?_⟩
      rw [List.mem_singleton.mp hr']
      rintro rfl
      exact hnew a hr
    · exact h.nodup a
  · rw [occupant_link hc.compatible] at hr
    split at hr
    · rename_i he
      obtain rfl := Option.some.inj hr
      rw [he]
      exact hc.compatible
    · exact h.compatible r a hr

theorem Wired.unlink (h : g.Wired) (ho : g.occupant target = some source) :
    (g.unlink source target).Wired := by
  refine h.rewire (sameSlots_unlink source target) (fun r a => ?_) (fun a => ?_) fun r a hr => ?_
  · rw [occupant_unlink, consumers_unlink]
    by_cases hr : r = target
    · subst hr
      by_cases ha : a = source
      · simp [ha]
      · -- the source alone lists the input
        have hother : r ∉ g.consumers a := fun hmem =>
          ha (Option.some.inj (((h.occupant_iff r a).mpr hmem).symm.trans ho))
        simp [ha, hother]
    · rw [if_neg hr, h.occupant_iff r a]
      split <;> simp [hr]
  · rw [consumers_unlink]
    split
    · exact (h.nodup a).filter _
    · exact h.nodup a
  · rw [occupant_unlink] at hr
    split at hr
    · exact absurd hr nofun
    · exact h.compatible r a hr

/-- Each call keeps the graph wired. -/
theorem Wired.handle (h : g.Wired) (request : Request) : (g.handle request).2.Wired := by
  have hstep := step_handle g request
  generalize (g.handle request).2 = g' at hstep
  cases hstep with
  | refused => exact h
  | added name kind inputs outputs => exact h.addNode name kind inputs outputs
  | widened s hn hi hfree hb => exact h.appendInput hn hi hfree hb
  | linked hc => exact h.link hc
  | unlinked ho => exact h.unlink ho

theorem Wired.handleAll (h : g.Wired) (requests : List Request) : (g.handleAll requests).Wired :=
  handleAll_induction (fun _ request h => h.handle request) requests h

/-! ## Calls that take each other back -/

/-- A refused call leaves the graph as it is. -/
theorem handle_of_error {request : Request} {e : SlotError}
    (h : (g.handle request).1 = .error e) : (g.handle request).2 = g := by
  cases request with
  | addLogical | addLogicalLoop | addElementary => exact absurd h nofun
  | addBroadcastInput id name t =>
    cases hadd : g.addBroadcastInput id name t <;> simp_all [OperatorGraph.handle]
  | connect source target =>
    cases hconnect : g.connect source target <;> simp_all [OperatorGraph.handle]
  | disconnect target =>
    cases hdisconnect : g.disconnect target <;> simp_all [OperatorGraph.handle]

/-- A connection that is undone leaves no trace. -/
theorem Wired.disconnect_of_connect (h : g.Wired) (hconnect : g.connect source target = .ok g') :
    g'.disconnect target = .ok (g, source) := by
  obtain ⟨hc, rfl⟩ := connect_eq_ok.mp hconnect
  refine disconnect_eq_ok.mpr ⟨?_, ?_⟩
  · rw [occupant_link hc.compatible, if_pos rfl]
  · exact (unlink_link hc.free (h.not_mem_of_free hc.free source)).symm

/-- A connection that was undone can be made again. -/
theorem Wired.connect_of_disconnect (h : g.Wired)
    (hdisconnect : g.disconnect target = .ok (g', source)) :
    g'.connect source target = .ok (g'.link source target) := by
  obtain ⟨ho, rfl⟩ := disconnect_eq_ok.mp hdisconnect
  refine connect_eq_ok.mpr ⟨⟨?_, ?_⟩, rfl⟩
  · rw [occupant_unlink, if_pos rfl]
  · exact (h.compatible target source ho).of_sameSlots (sameSlots_unlink source target)

/-- **After any calls the graph is wired.** The slots know their positions, broadcast inputs come
last, and an input names an output as its occupant iff that output lists the input, once, and their
types go together. A call that is refused changes nothing. A connection that is made and undone gives
back the graph, the order of the other consumers included, and one that is undone can be made again. -/
theorem handleAll_wired (requests : List Request) :
    let g := empty.handleAll requests
    g.Wired ∧ (∀ request e, (g.handle request).1 = .error e → (g.handle request).2 = g) ∧
      (∀ source target g', g.connect source target = .ok g' →
        g'.disconnect target = .ok (g, source)) ∧
      ∀ source target g', g.disconnect target = .ok (g', source) →
        ∃ g'', g'.connect source target = .ok g'' := by
  have h := wired_empty.handleAll requests
  exact ⟨h, fun _ _ => handle_of_error, fun _ _ _ => h.disconnect_of_connect,
    fun _ _ _ hdisconnect => ⟨_, h.connect_of_disconnect hdisconnect⟩⟩

/-- An operator that feeds itself and a second one, which feeds a broadcast input of the first that
was added in between. The last call is refused. -/
def feedbackRequests : List Request :=
  [.addLogical "merge" [.any, .any] [.any], .addLogical "rate" [.any] [.any],
    .connect ⟨0, 0⟩ ⟨0, 1⟩, .addBroadcastInput 0 "rates" .any, .connect ⟨0, 0⟩ ⟨1, 0⟩,
    .connect ⟨1, 0⟩ ⟨0, 2⟩, .connect ⟨1, 0⟩ ⟨1, 0⟩]

theorem feedback_wired :
    let g := empty.handleAll feedbackRequests
    g.Wired ∧ g.consumers ⟨0, 0⟩ = [⟨0, 1⟩, ⟨1, 0⟩] ∧
      (g.handle (.connect ⟨1, 0⟩ ⟨1, 0⟩)).1 = .error (.alreadyConnected 1 0) ∧
      (g.handle (.connect ⟨1, 0⟩ ⟨1, 0⟩)).2 = g ∧
      (g.link ⟨1, 0⟩ ⟨0, 0⟩).disconnect ⟨0, 0⟩ = .ok (g, ⟨1, 0⟩) ∧
      ∃ g'', (g.unlink ⟨0, 0⟩ ⟨0, 1⟩).connect ⟨0, 0⟩ ⟨0, 1⟩ = .ok g'' := by
  obtain ⟨hw, hrefused, hundone, hagain⟩ := handleAll_wired feedbackRequests
  have herror : ((empty.handleAll feedbackRequests).handle (.connect ⟨1, 0⟩ ⟨1, 0⟩)).1 =
      .error (.alreadyConnected 1 0) := rfl
  exact ⟨hw, rfl, herror, hrefused _ _ herror, hundone _ _ _ rfl, hagain _ _ _ rfl⟩

end OperatorGraph

end Dataflow
