import Dataflow.OperatorGraph.Basic

/-!
# The slots of an operator graph

An operator graph seen through its slots: `inputAt` and `outputAt` look a slot up by its address,
`occupant` and `consumers` read the two records of a connection. Each wiring operation is stated by
what it makes of them, and `link` and `unlink` are what a connection made or undone comes to.

* `connect_eq_ok`, `disconnect_eq_ok`, `addBroadcastInput_eq_ok`: when a call succeeds, and the graph
  it answers.
* `unlink_link`: undoing a connection that was new gives back the graph.
-/

namespace Dataflow

/-- Nothing changes where the change leaves the element alone. -/
theorem modify_eq_of_fixed {α : Type} {xs : List α} {i : Nat} {f : α → α}
    (h : ∀ x, xs[i]? = some x → f x = x) : xs.modify i f = xs := by
  refine List.ext_getElem? fun j => ?_
  rw [List.getElem?_modify]
  cases hx : xs[j]? with
  | none => rfl
  | some x =>
    by_cases hij : i = j
    · subst hij
      simp [h x hx]
    · simp [hij]

/-- What an input was declared to be, whatever feeds it. -/
def InputSlot.declaration (s : InputSlot) : InputRef × DataSetType × Bool :=
  (s.address, s.dataType, s.broadcast)

/-- What an output was declared to be, whatever it feeds. -/
def OutputSlot.declaration (s : OutputSlot) : OutputRef × DataSetType := (s.address, s.dataType)

@[simp] theorem OutputSlot.declaration_addConsumer (s : OutputSlot) (r : InputRef) :
    (s.addConsumer r).declaration = s.declaration := by
  unfold OutputSlot.addConsumer
  split <;> rfl

@[simp] theorem OutputSlot.declaration_removeConsumer (s : OutputSlot) (r : InputRef) :
    (s.removeConsumer r).declaration = s.declaration := rfl

namespace OperatorGraph

/-- The input at an address, if there is one. -/
def inputAt (g : OperatorGraph) (r : InputRef) : Option InputSlot :=
  (g.nodes[r.operator]?).bind fun n => n.inputs[r.index]?

/-- The output at an address, if there is one. -/
def outputAt (g : OperatorGraph) (a : OutputRef) : Option OutputSlot :=
  (g.nodes[a.operator]?).bind fun n => n.outputs[a.index]?

/-- The output that an input records as feeding it. -/
def occupant (g : OperatorGraph) (r : InputRef) : Option OutputRef :=
  (g.inputAt r).bind InputSlot.occupant

/-- The inputs that an output records as fed by it. -/
def consumers (g : OperatorGraph) (a : OutputRef) : List InputRef :=
  ((g.outputAt a).map OutputSlot.consumers).getD []

variable {g g' : OperatorGraph} {r target : InputRef} {a source : OutputRef}

theorem occupant_of_inputAt {s : InputSlot} (h : g.inputAt r = some s) :
    g.occupant r = s.occupant := by
  unfold occupant
  rw [h]
  rfl

theorem consumers_of_outputAt {s : OutputSlot} (h : g.outputAt a = some s) :
    g.consumers a = s.consumers := by
  unfold consumers
  rw [h]
  rfl

theorem exists_inputAt_of_occupant (h : g.occupant r = some a) :
    ∃ s, g.inputAt r = some s ∧ s.occupant = some a :=
  Option.bind_eq_some_iff.mp h

/-- The addresses of a new operator are not in use. -/
theorem inputAt_of_le (h : g.nodes.length ≤ r.operator) : g.inputAt r = none := by
  unfold inputAt
  rw [List.getElem?_eq_none h]
  rfl

theorem outputAt_of_le (h : g.nodes.length ≤ a.operator) : g.outputAt a = none := by
  unfold outputAt
  rw [List.getElem?_eq_none h]
  rfl

/-! ## Looking up -/

theorem input_eq_ok {s : InputSlot} : g.input r = .ok s ↔ g.inputAt r = some s := by
  unfold input inputAt requireNode
  cases g.nodes[r.operator]? with
  | none => simp [bind, Except.bind]
  | some n => cases hs : n.inputs[r.index]? <;> simp [bind, Except.bind, hs]

theorem output_eq_ok {s : OutputSlot} : g.output a = .ok s ↔ g.outputAt a = some s := by
  unfold output outputAt requireNode
  cases g.nodes[a.operator]? with
  | none => simp [bind, Except.bind]
  | some n => cases hs : n.outputs[a.index]? <;> simp [bind, Except.bind, hs]

/-! ## New operators -/

theorem getElem?_addNode (n : Node) (id : OperatorId) :
    (g.addNode n).nodes[id]? = if id = g.nextId then some n else g.nodes[id]? := by
  unfold addNode nextId
  rw [List.getElem?_append]
  by_cases hlt : id < g.nodes.length
  · rw [if_pos hlt, if_neg (Nat.ne_of_lt hlt)]
  · by_cases he : id = g.nodes.length
    · simp [he]
    · have hle := Nat.le_of_not_lt hlt
      rw [if_neg hlt, if_neg he, List.getElem?_eq_none hle]
      exact List.getElem?_eq_none (Nat.sub_pos_of_lt (Nat.lt_of_le_of_ne hle fun h => he h.symm))

theorem inputAt_addNode (n : Node) (r : InputRef) :
    (g.addNode n).inputAt r =
      if r.operator = g.nextId then n.inputs[r.index]? else g.inputAt r := by
  unfold inputAt
  rw [getElem?_addNode]
  split <;> rfl

theorem outputAt_addNode (n : Node) (a : OutputRef) :
    (g.addNode n).outputAt a =
      if a.operator = g.nextId then n.outputs[a.index]? else g.outputAt a := by
  unfold outputAt
  rw [getElem?_addNode]
  split <;> rfl

section

variable (id : OperatorId) (name : String) (kind : NodeKind) (inputs outputs : List DataSetType)

theorem getElem?_inputs_build (i : Nat) :
    (Node.build id name kind inputs outputs).inputs[i]? = inputs[i]?.map fun t =>
      { name := s!"in{i}", address := ⟨id, i⟩, dataType := t } :=
  List.getElem?_mapIdx

theorem getElem?_outputs_build (i : Nat) :
    (Node.build id name kind inputs outputs).outputs[i]? = outputs[i]?.map fun t =>
      { name := s!"out{i}", address := ⟨id, i⟩, dataType := t } :=
  List.getElem?_mapIdx

/-- Nothing feeds a new operator, whose inputs had no occupant before they were there. -/
theorem occupant_addNode_build (r : InputRef) :
    (g.addNode (.build id name kind inputs outputs)).occupant r = g.occupant r := by
  unfold occupant
  rw [inputAt_addNode]
  split
  · rename_i hr
    rw [inputAt_of_le (Nat.le_of_eq hr.symm), getElem?_inputs_build]
    cases inputs[r.index]? <;> rfl
  · rfl

theorem consumers_addNode_build (a : OutputRef) :
    (g.addNode (.build id name kind inputs outputs)).consumers a = g.consumers a := by
  unfold consumers
  rw [outputAt_addNode]
  split
  · rename_i ha
    rw [outputAt_of_le (Nat.le_of_eq ha.symm), getElem?_outputs_build]
    cases outputs[a.index]? <;> rfl
  · rfl

end

/-! ## Changed slots -/

theorem getElem?_modifyNode (id : OperatorId) (f : Node → Node) (j : OperatorId) :
    (g.modifyNode id f).nodes[j]? = if id = j then (g.nodes[j]?).map f else g.nodes[j]? := by
  unfold modifyNode
  rw [List.getElem?_modify]
  split <;> simp

theorem modifyNode_comm {f h : Node → Node} (hfh : ∀ n, f (h n) = h (f n)) (i j : OperatorId) :
    (g.modifyNode i f).modifyNode j h = (g.modifyNode j h).modifyNode i f := by
  unfold modifyNode
  by_cases hij : i = j
  · subst hij
    rw [List.modify_modify_eq, List.modify_modify_eq, show h ∘ f = f ∘ h from
      funext fun n => (hfh n).symm]
  · rw [List.modify_modify_ne _ _ _ hij]

/-- What happens to an input and what happens to an output do not interfere. -/
theorem modifyInput_modifyOutput (r : InputRef) (f : InputSlot → InputSlot) (a : OutputRef)
    (h : OutputSlot → OutputSlot) :
    (g.modifyInput r f).modifyOutput a h = (g.modifyOutput a h).modifyInput r f :=
  modifyNode_comm (f := fun n => { n with inputs := n.inputs.modify r.index f })
    (h := fun n => { n with outputs := n.outputs.modify a.index h }) (fun _ => rfl) _ _

theorem modifyInput_modifyInput (r : InputRef) (f h : InputSlot → InputSlot) :
    (g.modifyInput r f).modifyInput r h = g.modifyInput r (h ∘ f) := by
  unfold modifyInput modifyNode
  rw [List.modify_modify_eq]
  simp only [Function.comp_def, List.modify_modify_eq]

theorem modifyOutput_modifyOutput (a : OutputRef) (f h : OutputSlot → OutputSlot) :
    (g.modifyOutput a f).modifyOutput a h = g.modifyOutput a (h ∘ f) := by
  unfold modifyOutput modifyNode
  rw [List.modify_modify_eq]
  simp only [Function.comp_def, List.modify_modify_eq]

theorem modifyInput_eq_self {f : InputSlot → InputSlot}
    (h : ∀ s, g.inputAt r = some s → f s = s) : g.modifyInput r f = g := by
  unfold modifyInput modifyNode
  rw [modify_eq_of_fixed fun n hn => ?_]
  rw [modify_eq_of_fixed fun s hs => h s ?_]
  unfold inputAt
  rw [hn]
  exact hs

theorem modifyOutput_eq_self {f : OutputSlot → OutputSlot}
    (h : ∀ s, g.outputAt a = some s → f s = s) : g.modifyOutput a f = g := by
  unfold modifyOutput modifyNode
  rw [modify_eq_of_fixed fun n hn => ?_]
  rw [modify_eq_of_fixed fun s hs => h s ?_]
  unfold outputAt
  rw [hn]
  exact hs

theorem inputAt_modifyInput (target : InputRef) (f : InputSlot → InputSlot) (r : InputRef) :
    (g.modifyInput target f).inputAt r =
      if r = target then (g.inputAt r).map f else g.inputAt r := by
  unfold inputAt modifyInput
  rw [getElem?_modifyNode]
  by_cases ho : target.operator = r.operator
  · rw [if_pos ho]
    cases g.nodes[r.operator]? with
    | none => simp
    | some n =>
      simp only [Option.map_some, Option.bind_some, List.getElem?_modify]
      by_cases hi : target.index = r.index
      · rw [if_pos (show r = target from by cases r; cases target; simp_all)]
        simp [hi]
      · have hne : r ≠ target := fun he => hi (by rw [he])
        simp [hi, hne]
  · have hne : r ≠ target := fun he => ho (by rw [he])
    rw [if_neg ho, if_neg hne]

theorem outputAt_modifyOutput (source : OutputRef) (f : OutputSlot → OutputSlot) (a : OutputRef) :
    (g.modifyOutput source f).outputAt a =
      if a = source then (g.outputAt a).map f else g.outputAt a := by
  unfold outputAt modifyOutput
  rw [getElem?_modifyNode]
  by_cases ho : source.operator = a.operator
  · rw [if_pos ho]
    cases g.nodes[a.operator]? with
    | none => simp
    | some n =>
      simp only [Option.map_some, Option.bind_some, List.getElem?_modify]
      by_cases hi : source.index = a.index
      · rw [if_pos (show a = source from by cases a; cases source; simp_all)]
        simp [hi]
      · have hne : a ≠ source := fun he => hi (by rw [he])
        simp [hi, hne]
  · have hne : a ≠ source := fun he => ho (by rw [he])
    rw [if_neg ho, if_neg hne]

@[simp] theorem outputAt_modifyInput (target : InputRef) (f : InputSlot → InputSlot)
    (a : OutputRef) : (g.modifyInput target f).outputAt a = g.outputAt a := by
  unfold outputAt modifyInput
  rw [getElem?_modifyNode]
  split
  · cases g.nodes[a.operator]? <;> rfl
  · rfl

@[simp] theorem inputAt_modifyOutput (source : OutputRef) (f : OutputSlot → OutputSlot)
    (r : InputRef) : (g.modifyOutput source f).inputAt r = g.inputAt r := by
  unfold inputAt modifyOutput
  rw [getElem?_modifyNode]
  split
  · cases g.nodes[r.operator]? <;> rfl
  · rfl

/-- The graph in which an operator has one more input, the last one. -/
def appendInput (g : OperatorGraph) (s : InputSlot) : OperatorGraph :=
  g.modifyNode s.address.operator fun n => { n with inputs := n.inputs ++ [s] }

theorem inputAt_appendInput {s : InputSlot} {n : Node} (hn : g.nodes[s.address.operator]? = some n)
    (hi : s.address.index = n.inputs.length) (r : InputRef) :
    (g.appendInput s).inputAt r = if r = s.address then some s else g.inputAt r := by
  unfold inputAt appendInput
  rw [getElem?_modifyNode]
  by_cases ho : s.address.operator = r.operator
  · rw [if_pos ho, ← ho, hn]
    simp only [Option.map_some, Option.bind_some]
    by_cases he : r = s.address
    · rw [if_pos he, he, hi, List.getElem?_concat_length]
    · have hne : r.index ≠ n.inputs.length := fun h => he (by
        cases r
        cases hs : s.address
        simp_all)
      rw [if_neg he, List.getElem?_append]
      split
      · rfl
      · rename_i hlt
        rw [List.getElem?_eq_none (Nat.le_of_not_lt hlt)]
        exact List.getElem?_eq_none (by rw [List.length_singleton]; omega)
  · have hne : r ≠ s.address := fun he => ho (by rw [he])
    rw [if_neg ho, if_neg hne]

@[simp] theorem outputAt_appendInput (s : InputSlot) (a : OutputRef) :
    (g.appendInput s).outputAt a = g.outputAt a := by
  unfold outputAt appendInput
  rw [getElem?_modifyNode]
  split
  · cases g.nodes[a.operator]? <;> rfl
  · rfl

theorem addBroadcastInput_eq_ok {id : OperatorId} {name : String} {t : DataSetType} :
    g.addBroadcastInput id name t = .ok (g', r) ↔ ∃ n, g.nodes[id]? = some n ∧
      n.kind.supportsBroadcast = true ∧ r = ⟨id, n.inputs.length⟩ ∧
      g' = g.appendInput { name, address := r, dataType := t, broadcast := true } := by
  unfold addBroadcastInput requireNode
  cases g.nodes[id]? with
  | none => exact ⟨nofun, fun ⟨_, h, _⟩ => absurd h nofun⟩
  | some n =>
    simp only [bind, Except.bind]
    constructor
    · intro h
      split at h
      · rename_i hs
        obtain ⟨hg, rfl⟩ := Prod.mk.inj (Except.ok.inj h)
        exact ⟨n, rfl, hs, rfl, hg.symm⟩
      · exact absurd h nofun
    · rintro ⟨_, hn, hs, rfl, rfl⟩
      obtain rfl := Option.some.inj hn
      rw [if_pos hs]
      rfl

/-! ## Connections -/

/-- The graph in which both ends record a connection. -/
def link (g : OperatorGraph) (source : OutputRef) (target : InputRef) : OperatorGraph :=
  (g.modifyInput target fun s => { s with occupant := some source }).modifyOutput source
    (·.addConsumer target)

/-- The graph in which neither end records the connection. -/
def unlink (g : OperatorGraph) (source : OutputRef) (target : InputRef) : OperatorGraph :=
  (g.modifyInput target fun s => { s with occupant := none }).modifyOutput source
    (·.removeConsumer target)

theorem inputAt_link (source : OutputRef) (target r : InputRef) :
    (g.link source target).inputAt r = if r = target then
      (g.inputAt r).map fun s => { s with occupant := some source } else g.inputAt r := by
  unfold link
  rw [inputAt_modifyOutput, inputAt_modifyInput]

theorem outputAt_link (source a : OutputRef) (target : InputRef) :
    (g.link source target).outputAt a = if a = source then
      (g.outputAt a).map (·.addConsumer target) else g.outputAt a := by
  unfold link
  rw [outputAt_modifyOutput, outputAt_modifyInput]

theorem inputAt_unlink (source : OutputRef) (target r : InputRef) :
    (g.unlink source target).inputAt r = if r = target then
      (g.inputAt r).map fun s => { s with occupant := none } else g.inputAt r := by
  unfold unlink
  rw [inputAt_modifyOutput, inputAt_modifyInput]

theorem outputAt_unlink (source a : OutputRef) (target : InputRef) :
    (g.unlink source target).outputAt a = if a = source then
      (g.outputAt a).map (·.removeConsumer target) else g.outputAt a := by
  unfold unlink
  rw [outputAt_modifyOutput, outputAt_modifyInput]

/-- Both ends are there, and what leaves the output may flow into the input. -/
def Compatible (g : OperatorGraph) (source : OutputRef) (target : InputRef) : Prop :=
  ∃ out inp, g.outputAt source = some out ∧ g.inputAt target = some inp ∧
    out.dataType.isCompatibleWith inp.dataType = true

/-- What a connection needs. -/
structure Connectable (g : OperatorGraph) (source : OutputRef) (target : InputRef) : Prop where
  free : g.occupant target = none
  compatible : g.Compatible source target

theorem connect_eq_ok : g.connect source target = .ok g' ↔
    g.Connectable source target ∧ g' = g.link source target := by
  unfold connect
  cases hout : g.output source with
  | error e =>
    refine ⟨nofun, fun ⟨hc, _⟩ => ?_⟩
    obtain ⟨out, -, ho, -, -⟩ := hc.compatible
    rw [output_eq_ok.mpr ho] at hout
    exact absurd hout nofun
  | ok out =>
    cases hinp : g.input target with
    | error e =>
      refine ⟨nofun, fun ⟨hc, _⟩ => ?_⟩
      obtain ⟨-, inp, -, hi, -⟩ := hc.compatible
      rw [input_eq_ok.mpr hi] at hinp
      exact absurd hinp nofun
    | ok inp =>
      have ho := output_eq_ok.mp hout
      have hi := input_eq_ok.mp hinp
      have hoccupant := occupant_of_inputAt hi
      simp only [bind, Except.bind]
      constructor
      · intro h
        split at h
        · exact absurd h nofun
        · rename_i hfree
          split at h
          · rename_i hc
            refine ⟨⟨?_, out, inp, ho, hi, hc⟩, (Except.ok.inj h).symm⟩
            rw [hoccupant]
            exact Option.not_isSome_iff_eq_none.mp hfree
          · exact absurd h nofun
      · rintro ⟨⟨hfree, out', inp', ho', hi', hc⟩, rfl⟩
        obtain rfl := Option.some.inj (ho.symm.trans ho')
        obtain rfl := Option.some.inj (hi.symm.trans hi')
        rw [hoccupant] at hfree
        rw [if_neg (by simp [InputSlot.isConnected, hfree]), if_pos hc]
        rfl

theorem disconnect_eq_ok : g.disconnect target = .ok (g', source) ↔
    g.occupant target = some source ∧ g' = g.unlink source target := by
  unfold disconnect
  cases hinp : g.input target with
  | error e =>
    refine ⟨nofun, fun ⟨ho, _⟩ => ?_⟩
    obtain ⟨s, hs, -⟩ := exists_inputAt_of_occupant ho
    rw [input_eq_ok.mpr hs] at hinp
    exact absurd hinp nofun
  | ok inp =>
    rw [occupant_of_inputAt (input_eq_ok.mp hinp)]
    simp only [bind, Except.bind]
    cases inp.occupant with
    | none => exact ⟨nofun, fun h => absurd h.1 nofun⟩
    | some a =>
      constructor
      · intro h
        obtain ⟨hg, rfl⟩ := Prod.mk.inj (Except.ok.inj h)
        exact ⟨rfl, hg.symm⟩
      · rintro ⟨ha, rfl⟩
        obtain rfl := Option.some.inj ha
        rfl

/-- A consumer that is added last and removed again leaves the others in their order. -/
theorem removeConsumer_addConsumer {s : OutputSlot} (h : target ∉ s.consumers) :
    (s.addConsumer target).removeConsumer target = s := by
  have hkept : s.consumers.filter (· != target) = s.consumers := by
    refine List.filter_eq_self.mpr fun r hr => ?_
    rw [bne_iff_ne]
    rintro rfl
    exact h hr
  unfold OutputSlot.addConsumer OutputSlot.removeConsumer
  rw [if_neg h]
  simp [hkept]

/-- Undoing a new connection gives back the graph, the order of the other consumers included. -/
theorem unlink_link (hfree : g.occupant target = none) (hnew : target ∉ g.consumers source) :
    (g.link source target).unlink source target = g := by
  unfold link unlink
  rw [← modifyInput_modifyOutput, modifyInput_modifyInput, modifyOutput_modifyOutput]
  rw [modifyInput_eq_self fun s hs => ?_, modifyOutput_eq_self fun s hs => ?_]
  · rw [consumers_of_outputAt hs] at hnew
    exact removeConsumer_addConsumer hnew
  · rw [occupant_of_inputAt hs] at hfree
    cases s
    simp_all

end OperatorGraph

end Dataflow
