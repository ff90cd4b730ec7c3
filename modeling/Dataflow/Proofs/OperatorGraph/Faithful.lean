import Dataflow.Proofs.OperatorGraph.Materialize
import Dataflow.Proofs.OperatorGraph.Wiring
import Dataflow.Proofs.TaskGraph.Requests

/-!
# The task graph says what the operator graph says

The connections of an operator graph were accepted by the types recorded in its slots; those of the
task graph are checked against the types that the operators declare. That the two agree rests on what
all calls keep (`Declared`): the regular inputs of an operator are those it declares, and it has others
only if it takes broadcast inputs.

* `Declared.handleAll`: after any calls the slots of an operator are as it declares them.
* `addTasks_eq_ok`: the tasks, before they are connected.
* `Reflects.connectTasks`: connection by connection the channels come to say what the slots say.
* **`handleAll_toTaskGraph`**: the whole graph.

Placeholders have no task, and a graph with one cannot be turned into tasks; besides that nothing can
go wrong. In particular the errors that connecting tasks could give are proved not to occur, although
each of them is checked again.

The channels are numbered in the order in which connections are found, operator by operator and output
by output. The statement does not speak of these numbers: it says which channels there are and what
each connects, with the order of its consumers, since that is what planning and execution depend on.
-/

namespace Dataflow

/-! ## Slots and declarations -/

/-- The slots of a node are those that an operator declares, with broadcast inputs behind them if it
takes any. -/
structure Node.Declared (n : Node) (o : Operator) : Prop where
  inputs_le : o.inputs.length ≤ n.inputs.length
  input : ∀ i s, n.inputs[i]? = some s → s.broadcast = decide (o.inputs.length ≤ i) ∧
    (i < o.inputs.length → s.dataType = o.inputType i)
  outputs : n.outputs.length = o.outputs.length
  output : ∀ i s, n.outputs[i]? = some s → s.dataType = o.outputType i
  supported : o.inputs.length < n.inputs.length → o.supportsBroadcast = true

theorem Node.declared_build (id : OperatorId) (name : String) (kind : NodeKind) (o : Operator) :
    (Node.build id name kind o.inputs o.outputs).Declared o where
  inputs_le := by simp [Node.build]
  input i s h := by
    rw [OperatorGraph.getElem?_inputs_build, Option.map_eq_some_iff] at h
    obtain ⟨t, ht, rfl⟩ := h
    obtain ⟨hlt, rfl⟩ := List.getElem?_eq_some_iff.mp ht
    refine ⟨by simp [hlt], fun _ => ?_⟩
    simp [Operator.inputType, hlt]
  outputs := by simp [Node.build]
  output i s h := by
    rw [OperatorGraph.getElem?_outputs_build, Option.map_eq_some_iff] at h
    obtain ⟨t, ht, rfl⟩ := h
    obtain ⟨hlt, rfl⟩ := List.getElem?_eq_some_iff.mp ht
    simp [Operator.outputType, hlt]
  supported h := by simp [Node.build] at h

namespace Node.Declared

variable {n : Node} {o : Operator}

theorem addInput (h : n.Declared o) {s : InputSlot} (hb : s.broadcast = true)
    (hs : o.supportsBroadcast = true) :
    Node.Declared { n with inputs := n.inputs ++ [s] } o where
  inputs_le := by
    rw [List.length_append]
    exact Nat.le_add_right_of_le h.inputs_le
  input i t ht := by
    rw [List.getElem?_append] at ht
    split at ht
    · exact h.input i t ht
    · rename_i hlt
      have hle : o.inputs.length ≤ i := Nat.le_trans h.inputs_le (Nat.le_of_not_lt hlt)
      have ht := List.mem_singleton.mp (List.mem_of_getElem? ht)
      rw [ht, hb]
      exact ⟨(decide_eq_true hle).symm, fun hi => absurd hle (Nat.not_le_of_lt hi)⟩
  outputs := h.outputs
  output := h.output
  supported _ := hs

theorem modifyInput (h : n.Declared o) (i : Nat) {f : InputSlot → InputSlot}
    (hf : ∀ s, (f s).declaration = s.declaration) :
    Node.Declared { n with inputs := n.inputs.modify i f } o where
  inputs_le := by
    rw [List.length_modify]
    exact h.inputs_le
  input j t ht := by
    rw [List.getElem?_modify, Option.map_eq_map, Option.map_eq_some_iff] at ht
    obtain ⟨s, hs, rfl⟩ := ht
    have hkept : (if i = j then f s else s).declaration = s.declaration := by
      split
      · exact hf s
      · rfl
    obtain ⟨-, hrest⟩ := Prod.mk.inj hkept
    obtain ⟨htype, hbroadcast⟩ := Prod.mk.inj hrest
    rw [htype, hbroadcast]
    exact h.input j s hs
  outputs := h.outputs
  output := h.output
  supported hlt := h.supported (by rwa [List.length_modify] at hlt)

theorem modifyOutput (h : n.Declared o) (i : Nat) {f : OutputSlot → OutputSlot}
    (hf : ∀ s, (f s).declaration = s.declaration) :
    Node.Declared { n with outputs := n.outputs.modify i f } o where
  inputs_le := h.inputs_le
  input := h.input
  outputs := (List.length_modify _ _ _).trans h.outputs
  output j t ht := by
    rw [List.getElem?_modify, Option.map_eq_map, Option.map_eq_some_iff] at ht
    obtain ⟨s, hs, rfl⟩ := ht
    have hkept : (if i = j then f s else s).declaration = s.declaration := by
      split
      · exact hf s
      · rfl
    rw [(Prod.mk.inj hkept).2]
    exact h.output j s hs
  supported := h.supported

/-- The broadcast inputs are those behind the declared ones. -/
theorem length_broadcastInputs (h : n.Declared o) :
    o.inputs.length + n.broadcastInputs.length = n.inputs.length := by
  have hsplit : n.broadcastInputs = n.inputs.drop o.inputs.length := by
    have hfirst : (n.inputs.take o.inputs.length).filter InputSlot.broadcast = [] := by
      refine List.filter_eq_nil_iff.mpr fun s hs => ?_
      obtain ⟨i, hi⟩ := List.mem_iff_getElem?.mp hs
      rw [List.getElem?_take] at hi
      split at hi
      · rename_i hlt
        simp [(h.input i s hi).1, hlt]
      · exact absurd hi nofun
    have hlast : (n.inputs.drop o.inputs.length).filter InputSlot.broadcast =
        n.inputs.drop o.inputs.length := by
      refine List.filter_eq_self.mpr fun s hs => ?_
      obtain ⟨i, hi⟩ := List.mem_iff_getElem?.mp hs
      rw [List.getElem?_drop] at hi
      simp [(h.input _ s hi).1]
    unfold Node.broadcastInputs
    conv_lhs => rw [← List.take_append_drop o.inputs.length n.inputs]
    rw [List.filter_append, hfirst, hlast, List.nil_append]
  rw [hsplit, List.length_drop]
  exact Nat.add_sub_of_le h.inputs_le

end Node.Declared

namespace OperatorGraph

/-- The slots of each operator that can be executed are as it declares them. -/
def Declared (g : OperatorGraph) : Prop :=
  ∀ (id : OperatorId) (n : Node) (o : Operator), g.nodes[id]? = some n →
    n.kind = .elementary o → n.Declared o

variable {g : OperatorGraph}

theorem Declared.modifyNode (h : g.Declared) (id : OperatorId) {f : Node → Node}
    (hkind : ∀ n, (f n).kind = n.kind)
    (hf : ∀ n o, g.nodes[id]? = some n → n.kind = .elementary o → n.Declared o →
      (f n).Declared o) : (g.modifyNode id f).Declared := by
  intro j n o hn hk
  rw [getElem?_modifyNode] at hn
  split at hn
  · rename_i hj
    obtain ⟨m, hm, rfl⟩ := Option.map_eq_some_iff.mp hn
    rw [hkind] at hk
    exact hf m o (hj ▸ hm) hk (h j m o hm hk)
  · exact h j n o hn hk

theorem Declared.handle (h : g.Declared) (request : Request) :
    (g.handle request).2.Declared := by
  have hstep := step_handle g request
  generalize (g.handle request).2 = g' at hstep
  cases hstep with
  | refused => exact h
  | added name kind inputs outputs declared =>
    intro id n o hn hk
    rw [getElem?_addNode] at hn
    split at hn
    · obtain rfl := Option.some.inj hn
      obtain ⟨rfl, rfl⟩ := declared o hk
      exact Node.declared_build _ _ _ o
    · exact h id n o hn hk
  | @widened n s hn hi hfree hb hs =>
    refine h.modifyNode _ (fun _ => rfl) fun m o hm hk hd => hd.addInput hb ?_
    obtain rfl := Option.some.inj (hm.symm.trans hn)
    rw [hk] at hs
    exact hs
  | linked hc =>
    refine Declared.modifyNode ?_ _ (fun _ => rfl) fun m o _ _ hd =>
      hd.modifyOutput _ fun s => s.declaration_addConsumer _
    exact h.modifyNode _ (fun _ => rfl) fun m o _ _ hd => hd.modifyInput _ fun _ => rfl
  | unlinked ho =>
    refine Declared.modifyNode ?_ _ (fun _ => rfl) fun m o _ _ hd =>
      hd.modifyOutput _ fun s => s.declaration_removeConsumer _
    exact h.modifyNode _ (fun _ => rfl) fun m o _ _ hd => hd.modifyInput _ fun _ => rfl

theorem Declared.handleAll (h : g.Declared) (requests : List Request) :
    (g.handleAll requests).Declared :=
  handleAll_induction (fun _ request h => h.handle request) requests h

theorem declared_empty : Declared .empty := fun _ _ _ hn => absurd hn (by simp [empty])

/-! ## Tasks -/

/-- The task of an operator that nothing is connected to. -/
def bareTask (o : Operator) (broadcasts : Nat) : Task :=
  { Task.ofOperator o with
    inputs := List.replicate (o.inputs.length + broadcasts) none }

theorem addBroadcastInputs_eq_ok (tasks : List Task) (channels : List Channel) (o : Operator) :
    ∀ (n m : Nat), (0 < n → o.supportsBroadcast = true) →
      addBroadcastInputs tasks.length n ⟨tasks ++ [bareTask o m], channels⟩ =
        .ok ⟨tasks ++ [bareTask o (m + n)], channels⟩
  | 0, m, _ => rfl
  | n + 1, m, hs => by
    have hsupports := hs (Nat.succ_pos n)
    have hlt : tasks.length < (tasks ++ [bareTask o m]).length := by simp
    have hlast : TaskGraph.task ⟨tasks ++ [bareTask o m], channels⟩ tasks.length = bareTask o m := by
      simp [TaskGraph.task]
    have hadd : TaskGraph.addBroadcastInput ⟨tasks ++ [bareTask o m], channels⟩ tasks.length =
        .ok (⟨tasks ++ [bareTask o (m + 1)], channels⟩, (bareTask o m).inputs.length) := by
      unfold TaskGraph.addBroadcastInput
      rw [TaskGraph.requireTask_eq_ok.mpr hlt, hlast]
      simp only [bind, Except.bind]
      rw [if_pos (show (bareTask o m).operator.supportsBroadcast = true from hsupports)]
      simp [bareTask, List.replicate_succ', ← Nat.add_assoc]
    unfold addBroadcastInputs
    rw [hadd]
    simp only [bind, Except.bind]
    rw [addBroadcastInputs_eq_ok tasks channels o n (m + 1) fun _ => hsupports]
    rw [Nat.add_assoc m, Nat.add_comm 1 n]

/-- The task of a node that nothing is connected to. -/
def nodeTask (n : Node) : Task :=
  match n.kind with
  | .elementary o => bareTask o n.broadcastInputs.length
  | .logical _ => default

theorem addTasks_eq_ok : ∀ {ns : List Node} {tasks : List Task} {channels : List Channel},
    (∀ n ∈ ns, ∃ o, n.kind = .elementary o ∧ n.Declared o) →
      addTasks ns ⟨tasks, channels⟩ = .ok ⟨tasks ++ ns.map nodeTask, channels⟩
  | [], tasks, channels, _ => by simp [addTasks]
  | n :: ns, tasks, channels, h => by
    obtain ⟨o, hk, hd⟩ := h n List.mem_cons_self
    have hsupports : 0 < n.broadcastInputs.length → o.supportsBroadcast = true := fun hpos =>
      hd.supported (by have := hd.length_broadcastInputs; omega)
    have hadd := addBroadcastInputs_eq_ok tasks channels o n.broadcastInputs.length 0 hsupports
    have hbare : bareTask o 0 = Task.ofOperator o := rfl
    have htask : nodeTask n = bareTask o n.broadcastInputs.length := by
      unfold nodeTask
      rw [hk]
    rw [hbare, Nat.zero_add] at hadd
    unfold addTasks
    rw [hk]
    simp only [TaskGraph.addTask, hadd]
    rw [addTasks_eq_ok fun m hm => h m (List.mem_cons_of_mem _ hm), List.map_cons, htask]
    simp

/-- Placeholders are no tasks. -/
theorem isElementary_of_addTasks : ∀ {ns : List Node} {g g' : TaskGraph},
    addTasks ns g = .ok g' → ∀ n ∈ ns, n.kind.isElementary = true
  | [], _, _, _ => List.forall_mem_nil _
  | n :: ns, g, g', h => by
    unfold addTasks at h
    split at h
    · exact absurd h (by simp)
    · rename_i o hk
      simp only at h
      split at h
      · exact absurd h (by simp)
      · refine List.forall_mem_cons.mpr ⟨?_, isElementary_of_addTasks h⟩
        rw [hk]
        rfl

/-! ## Connections -/

/-- The inputs that connections feed from an output, in the order of the connections. -/
def targets (links : List (OutputRef × InputRef)) (a : OutputRef) : List Consumer :=
  (links.filter fun link => link.1 = a).map fun link => ⟨link.2.operator, link.2.index⟩

theorem targets_append (links more : List (OutputRef × InputRef)) (a : OutputRef) :
    targets (links ++ more) a = targets links a ++ targets more a := by
  unfold targets
  rw [List.filter_append, List.map_append]

theorem targets_cons (source a : OutputRef) (target : InputRef)
    (links : List (OutputRef × InputRef)) : targets ((source, target) :: links) a =
      if source = a then ⟨target.operator, target.index⟩ :: targets links a else targets links a := by
  unfold targets
  rw [List.filter_cons]
  by_cases ha : source = a <;> simp [ha]

theorem mem_targets {links : List (OutputRef × InputRef)} {a : OutputRef} {r : InputRef} :
    ⟨r.operator, r.index⟩ ∈ targets links a ↔ (a, r) ∈ links := by
  unfold targets
  rw [List.mem_map]
  constructor
  · rintro ⟨⟨b, q⟩, hmem, he⟩
    obtain ⟨hmem, hb⟩ := List.mem_filter.mp hmem
    have hq : q = r := by
      cases q
      cases r
      simp_all
    have hb : b = a := by simpa using hb
    exact hb ▸ hq ▸ hmem
  · exact fun h => ⟨(a, r), List.mem_filter.mpr ⟨h, by simp⟩, rfl⟩

/-- Of a list of lists only one is not empty. -/
theorem flatMap_eq_of_getElem? {α β : Type} {f : α → List β} : ∀ (xs : List α) (i : Nat),
    (∀ j x, xs[j]? = some x → j ≠ i → f x = []) → xs.flatMap f = ((xs[i]?).map f).getD []
  | [], _, _ => rfl
  | x :: xs, 0, h => by
    have hrest : xs.flatMap f = [] :=
      List.flatMap_eq_nil_iff.mpr fun y hy => by
        obtain ⟨j, hj⟩ := List.mem_iff_getElem?.mp hy
        exact h (j + 1) y hj (Nat.succ_ne_zero j)
    simp [hrest]
  | x :: xs, i + 1, h => by
    have hx : f x = [] := h 0 x rfl (Nat.succ_ne_zero i).symm
    have hrest := flatMap_eq_of_getElem? xs i fun j y hj hne =>
      h (j + 1) y hj fun he => hne (Nat.succ.inj he)
    simp [hx, hrest]

/-- The connections of an output are those that it lists. -/
theorem Wired.filter_connections (h : g.Wired) (a : OutputRef) :
    (g.connections.filter fun link => link.1 = a) = (g.consumers a).map fun r => (a, r) := by
  have hslot : ∀ (j : OperatorId) (n : Node) (k : Nat) (s : OutputSlot), g.nodes[j]? = some n →
      n.outputs[k]? = some s → s.address = ⟨j, k⟩ := fun j n k s hn hs => by
    refine h.output_address ⟨j, k⟩ s ?_
    unfold outputAt
    rw [hn]
    exact hs
  have hother : ∀ s : OutputSlot, s.address ≠ a →
      ((s.consumers.map fun r => (s.address, r)).filter fun link => link.1 = a) = [] := by
    intro s hs
    simp [hs]
  unfold connections
  rw [List.filter_flatMap, flatMap_eq_of_getElem? _ a.operator]
  · unfold consumers outputAt
    cases hn : g.nodes[a.operator]? with
    | none => rfl
    | some n =>
      simp only [Option.map_some, Option.getD_some, Option.bind_some]
      rw [List.filter_flatMap, flatMap_eq_of_getElem? _ a.index]
      · cases hs : n.outputs[a.index]? with
        | none => rfl
        | some s =>
          simp [hslot _ n _ s hn hs]
      · intro k s hs hk
        refine hother s fun he => hk ?_
        rw [hslot _ n _ s hn hs] at he
        exact congrArg OutputRef.index he
  · intro j n hn hj
    rw [List.filter_flatMap, List.flatMap_eq_nil_iff]
    intro s hs
    obtain ⟨k, hk⟩ := List.mem_iff_getElem?.mp hs
    refine hother s fun he => hj ?_
    rw [hslot j n k s hn hk] at he
    exact congrArg OutputRef.operator he

theorem Wired.targets_connections (h : g.Wired) (a : OutputRef) :
    targets g.connections a = (g.consumers a).map fun r => ⟨r.operator, r.index⟩ := by
  unfold targets
  rw [h.filter_connections, List.map_map]
  rfl

theorem Wired.mem_connections (h : g.Wired) {a : OutputRef} {r : InputRef} :
    (a, r) ∈ g.connections ↔ g.occupant r = some a := by
  rw [h.occupant_iff, ← mem_targets, h.targets_connections, List.mem_map]
  constructor
  · rintro ⟨q, hq, he⟩
    have : q = r := by
      cases q
      cases r
      simp_all
    exact this ▸ hq
  · exact fun hr => ⟨r, hr, rfl⟩

theorem Wired.nodup_targets (h : g.Wired) (a : OutputRef) : (targets g.connections a).Nodup := by
  rw [h.targets_connections]
  refine (h.nodup a).map fun r q he => ?_
  cases r
  cases q
  simp_all

/-- The tasks are those of the operators, and their channels are those of the connections made so
far. -/
structure Reflects (g : OperatorGraph) (done : List (OutputRef × InputRef)) (tasks : TaskGraph) :
    Prop where
  built : tasks.Built
  length : tasks.tasks.length = g.nodes.length
  task : ∀ (id : OperatorId) (n : Node), g.nodes[id]? = some n →
    n.kind = .elementary (tasks.task id).operator ∧
      (tasks.task id).inputs.length = n.inputs.length ∧
      (tasks.task id).outputs.length = n.outputs.length
  channel : ∀ c < tasks.channels.length, ∃ a, targets done a ≠ [] ∧ tasks.channel c =
    { descriptor := .collection, producer := a.operator, output := a.index,
      consumers := targets done a }
  opened : ∀ a, targets done a ≠ [] → ∃ c < tasks.channels.length,
    (tasks.channel c).producer = a.operator ∧ (tasks.channel c).output = a.index

variable {done rest : List (OutputRef × InputRef)} {source : OutputRef} {target : InputRef}
  {tasks : TaskGraph}

/-- The channel of an output that is connected already is the one that names it. -/
theorem Reflects.outputChannel (h : g.Reflects done tasks) (hne : targets done source ≠ []) :
    ∃ c, (tasks.task source.operator).outputChannel source.index = some c := by
  obtain ⟨c, hc, hp, ho⟩ := h.opened source hne
  exact ⟨c, (h.built.wired.output_iff _ _ c).mpr ⟨hc, hp, ho⟩⟩

/-- What the calls on the operators accepted, the tasks accept. -/
theorem Reflects.checkConnection (h : g.Reflects done tasks) (hw : g.Wired) (hd : g.Declared)
    (hlinks : done ++ (source, target) :: rest = g.connections) :
    tasks.checkConnection source.operator source.index target.operator target.index = .ok () := by
  have hmem : ∀ link ∈ done, link ∈ g.connections := fun link hl =>
    hlinks ▸ List.mem_append_left _ hl
  have hoccupant : g.occupant target = some source := by
    rw [← hw.mem_connections, ← hlinks]
    exact List.mem_append_right _ List.mem_cons_self
  obtain ⟨out, inp, hout, hinp, htypes⟩ := hw.compatible target source hoccupant
  obtain ⟨p, hp, hps⟩ := Option.bind_eq_some_iff.mp hout
  obtain ⟨n, hn, hns⟩ := Option.bind_eq_some_iff.mp hinp
  obtain ⟨hpk, -, hpo⟩ := h.task _ p hp
  obtain ⟨hnk, hni, -⟩ := h.task _ n hn
  obtain ⟨hsource, -⟩ := List.getElem?_eq_some_iff.mp hp
  obtain ⟨htarget, -⟩ := List.getElem?_eq_some_iff.mp hn
  obtain ⟨hsi, -⟩ := List.getElem?_eq_some_iff.mp hps
  obtain ⟨hti, -⟩ := List.getElem?_eq_some_iff.mp hns
  rw [← h.length] at hsource htarget
  rw [← hpo] at hsi
  rw [← hni] at hti
  refine TaskGraph.checkConnection_eq_ok.mpr ⟨⟨hsource, hsi, htarget, hti, ?_⟩, fun hlt => ?_⟩
  · -- an input is the target of one connection
    by_contra hfed
    obtain ⟨c, hc⟩ := Option.ne_none_iff_exists'.mp hfed
    obtain ⟨hlt, hk⟩ := (h.built.wired.input_iff _ _ c).mp hc
    obtain ⟨a, -, hchannel⟩ := h.channel c hlt
    rw [hchannel] at hk
    have hdone := mem_targets.mp hk
    obtain rfl : a = source :=
      Option.some.inj ((hw.mem_connections.mp (hmem _ hdone)).symm.trans hoccupant)
    have hnodup := hw.nodup_targets a
    rw [← hlinks, targets_append, targets_cons, if_pos rfl] at hnodup
    exact (List.nodup_append.mp hnodup).2.2 _ hk _ List.mem_cons_self rfl
  · rw [← (hd _ p _ hp hpk).output _ out hps, ← ((hd _ n _ hn hnk).input _ inp hns).2 hlt]
    exact htypes

theorem targets_concat_self (done : List (OutputRef × InputRef)) (source : OutputRef)
    (target : InputRef) : targets (done ++ [(source, target)]) source =
      targets done source ++ [⟨target.operator, target.index⟩] := by
  rw [targets_append, targets_cons, if_pos rfl]
  rfl

theorem targets_concat_of_ne {a : OutputRef} (h : source ≠ a) (done : List (OutputRef × InputRef))
    (target : InputRef) : targets (done ++ [(source, target)]) a = targets done a := by
  rw [targets_append, targets_cons, if_neg h]
  exact List.append_nil _

/-- A connection goes into the channel of its output, which is a new one if it is the first. -/
theorem Reflects.channel_wire (h : g.Reflects done tasks) (target : InputRef) {c : ChannelId}
    (hc : c < (tasks.wire source.operator source.index target.operator target.index
      .collection).channels.length) :
    ∃ a, targets (done ++ [(source, target)]) a ≠ [] ∧
      (tasks.wire source.operator source.index target.operator target.index .collection).channel c =
        { descriptor := .collection, producer := a.operator, output := a.index,
          consumers := targets (done ++ [(source, target)]) a } := by
  have hown := targets_concat_self done source target
  have hw := h.built.wired
  cases hopen : (tasks.task source.operator).outputChannel source.index with
  | some b =>
    obtain ⟨hlt, hp, ho⟩ := (hw.output_iff _ _ b).mp hopen
    rw [TaskGraph.length_wire_of_some hopen] at hc
    obtain ⟨a, ha, hchannel⟩ := h.channel c hc
    rw [TaskGraph.channel_wire_of_some hopen hlt]
    by_cases hs : source = a
    · subst hs
      have hcb : c = b := Option.some.inj
        (((hw.output_iff _ _ c).mpr ⟨hc, by rw [hchannel], by rw [hchannel]⟩).symm.trans hopen)
      rw [if_pos hcb, hchannel]
      exact ⟨source, by simp [hown], by rw [hown]⟩
    · have hcb : c ≠ b := by
        rintro rfl
        cases source
        cases a
        simp_all
      rw [if_neg hcb]
      exact ⟨a, by rwa [targets_concat_of_ne hs], by rw [targets_concat_of_ne hs, hchannel]⟩
  | none =>
    have hfirst : targets done source = [] := by
      by_contra hne
      obtain ⟨b, hb⟩ := h.outputChannel hne
      rw [hopen] at hb
      exact absurd hb nofun
    rw [TaskGraph.length_wire_of_none hopen] at hc
    rw [TaskGraph.channel_wire_of_none hopen]
    split
    · exact ⟨source, by simp [hown], by rw [hown, hfirst]; rfl⟩
    · rename_i hne
      obtain ⟨a, ha, hchannel⟩ := h.channel c (Nat.lt_of_le_of_ne (Nat.le_of_lt_succ hc) hne)
      have hs : source ≠ a := by
        rintro rfl
        exact ha hfirst
      exact ⟨a, by rwa [targets_concat_of_ne hs], by rw [targets_concat_of_ne hs, hchannel]⟩

/-- One more connection. -/
theorem Reflects.wire (h : g.Reflects done tasks)
    (hc : tasks.checkConnection source.operator source.index target.operator target.index = .ok ()) :
    g.Reflects (done ++ [(source, target)])
      (tasks.wire source.operator source.index target.operator target.index .collection) := by
  have hw := h.built.wired
  refine ⟨h.built.wire hc, TaskGraph.length_tasks_wire.trans h.length, fun id n hn => ?_,
    fun c hc => h.channel_wire target hc, fun a ha => ?_⟩
  · obtain ⟨ho, hi, hout⟩ := TaskGraph.task_wire (g := tasks) id
    rw [ho, hi, hout]
    exact h.task id n hn
  · by_cases hs : source = a
    · subst hs
      exact hw.exists_channel_wire _ _ _ _ _
    · rw [targets_concat_of_ne hs] at ha
      obtain ⟨c, hlt, hp, ho⟩ := h.opened a ha
      obtain ⟨hlt', -, hp', ho'⟩ := hw.keepsChannels_wire source.operator source.index
        target.operator target.index .collection c hlt
      exact ⟨c, hlt', hp'.trans hp, ho'.trans ho⟩

/-- All connections are made, and they are made in their order. -/
theorem Reflects.connectTasks (hw : g.Wired) (hd : g.Declared) :
    ∀ {rest done : List (OutputRef × InputRef)} {tasks : TaskGraph}, done ++ rest = g.connections →
      g.Reflects done tasks →
      ∃ tasks', connectTasks rest tasks = .ok tasks' ∧ g.Reflects g.connections tasks'
  | [], done, tasks, hlinks, h => by
    rw [List.append_nil] at hlinks
    exact ⟨tasks, rfl, hlinks ▸ h⟩
  | (source, target) :: rest, done, tasks, hlinks, h => by
    have hc := h.checkConnection hw hd hlinks
    obtain ⟨tasks', hrest, hr⟩ := Reflects.connectTasks hw hd (by simpa using hlinks) (h.wire hc)
    refine ⟨tasks', ?_, hr⟩
    unfold OperatorGraph.connectTasks TaskGraph.connect
    rw [TaskGraph.connectWith_of_ok hc]
    exact hrest

/-- Before the first connection. -/
theorem reflects_bare (hd : g.Declared) (he : ∀ n ∈ g.nodes, n.kind.isElementary = true)
    (hadd : addTasks g.nodes .empty = .ok ⟨g.nodes.map nodeTask, []⟩) :
    g.Reflects [] ⟨g.nodes.map nodeTask, []⟩ := by
  refine ⟨addTasks_built .empty hadd, List.length_map _, fun id n hn => ?_,
    fun c hc => absurd hc (Nat.not_lt_zero c), fun a ha => absurd rfl ha⟩
  have htask : TaskGraph.task ⟨g.nodes.map nodeTask, []⟩ id = nodeTask n := by
    simp [TaskGraph.task, hn]
  cases hk : n.kind with
  | logical head =>
    have := he n (List.mem_of_getElem? hn)
    rw [hk] at this
    exact absurd this Bool.false_ne_true
  | elementary o =>
    have hnode := hd id n o hn hk
    rw [htask]
    unfold nodeTask
    rw [hk]
    refine ⟨rfl, ?_, ?_⟩
    · exact (List.length_replicate ..).trans hnode.length_broadcastInputs
    · exact (List.length_replicate ..).trans hnode.outputs.symm

/-- A graph of operators becomes a graph of tasks. -/
theorem exists_toTaskGraph (hw : g.Wired) (hd : g.Declared)
    (he : ∀ n ∈ g.nodes, n.kind.isElementary = true) :
    ∃ tasks, g.toTaskGraph = .ok tasks ∧ g.Reflects g.connections tasks := by
  have hadd : addTasks g.nodes .empty = .ok ⟨g.nodes.map nodeTask, []⟩ :=
    addTasks_eq_ok fun n hn => by
      obtain ⟨id, hid⟩ := List.mem_iff_getElem?.mp hn
      cases hk : n.kind with
      | logical head =>
        have := he n hn
        rw [hk] at this
        exact absurd this nofun
      | elementary o => exact ⟨o, rfl, hd id n o hid hk⟩
  obtain ⟨tasks, hconnect, hr⟩ :=
    Reflects.connectTasks hw hd (List.nil_append _) (reflects_bare hd he hadd)
  refine ⟨tasks, ?_, hr⟩
  unfold toTaskGraph
  rw [hadd]
  simp only [bind, Except.bind]
  rw [hconnect]

theorem isElementary_of_toTaskGraph (h : g.toTaskGraph = .ok tasks) :
    ∀ n ∈ g.nodes, n.kind.isElementary = true := by
  unfold toTaskGraph at h
  cases hadd : addTasks g.nodes .empty with
  | error e =>
    rw [hadd] at h
    exact absurd h nofun
  | ok added => exact isElementary_of_addTasks hadd

/-! ## The whole graph -/

/-- The channel of an output is read by its connections. -/
theorem Reflects.consumers_channel (h : g.Reflects done tasks) {c : ChannelId} {a : OutputRef}
    (hc : c < tasks.channels.length) (hp : (tasks.channel c).producer = a.operator)
    (ho : (tasks.channel c).output = a.index) : targets done a ≠ [] ∧ tasks.channel c =
      { descriptor := .collection, producer := a.operator, output := a.index,
        consumers := targets done a } := by
  obtain ⟨b, hb, hchannel⟩ := h.channel c hc
  obtain rfl : b = a := by
    rw [hchannel] at hp ho
    cases a
    cases b
    simp_all
  exact ⟨hb, hchannel⟩

theorem Reflects.existsUnique_channel (h : g.Reflects done tasks) {a : OutputRef}
    (ha : targets done a ≠ []) : ∃! c, c < tasks.channels.length ∧
      (tasks.channel c).producer = a.operator ∧ (tasks.channel c).output = a.index := by
  obtain ⟨c, hc⟩ := h.opened a ha
  refine ⟨c, hc, fun d hd => ?_⟩
  have hw := h.built.wired
  exact Option.some.inj
    (((hw.output_iff _ _ d).mpr hd).symm.trans ((hw.output_iff _ _ c).mpr hc))

/-- Tasks are fed as their operators are. -/
theorem Reflects.fed_iff (h : g.Reflects g.connections tasks) (hw : g.Wired) (i : TaskId) (j : Nat)
    (k : TaskId) (o : Nat) : (∃ c < tasks.channels.length,
      (tasks.task i).inputChannel j = some c ∧
      (tasks.channel c).producer = k ∧ (tasks.channel c).output = o) ↔
        g.occupant ⟨i, j⟩ = some ⟨k, o⟩ := by
  rw [← hw.mem_connections, ← mem_targets]
  constructor
  · rintro ⟨c, hlt, hc, hp, ho⟩
    have hk := ((h.built.wired.input_iff i j c).mp hc).2
    rw [(h.consumers_channel (a := ⟨k, o⟩) hlt hp ho).2] at hk
    exact hk
  · intro hk
    obtain ⟨c, hlt, hp, ho⟩ := h.opened ⟨k, o⟩ (List.ne_nil_of_mem hk)
    refine ⟨c, hlt, (h.built.wired.input_iff i j c).mpr ⟨hlt, ?_⟩, hp, ho⟩
    rw [(h.consumers_channel (a := ⟨k, o⟩) hlt hp ho).2]
    exact hk

/-- **The task graph of an operator graph says what the operator graph says.** There is one iff every
operator can be executed; no connection that was accepted between slots is refused between tasks. Each
task is that of its operator and has its slots, broadcast inputs last. An input is fed by the output
that occupies its slot. Every connected output has one channel, no other output has any, and a channel
is read by the inputs that the output feeds, in the order in which they were connected. -/
theorem handleAll_toTaskGraph (requests : List Request) :
    let g := empty.handleAll requests
    ((∃ tasks, g.toTaskGraph = .ok tasks) ↔ ∀ n ∈ g.nodes, n.kind.isElementary = true) ∧
      ∀ tasks, g.toTaskGraph = .ok tasks →
        tasks.tasks.length = g.nodes.length ∧
        (∀ (id : OperatorId) (n : Node), g.nodes[id]? = some n →
          n.kind = .elementary (tasks.task id).operator ∧
          (tasks.task id).inputs.length = n.inputs.length ∧
          (tasks.task id).outputs.length = n.outputs.length ∧
          ∀ i s, n.inputs[i]? = some s →
            (s.broadcast = true ↔ (tasks.task id).operator.inputs.length ≤ i)) ∧
        (∀ i j k o, (∃ c < tasks.channels.length, (tasks.task i).inputChannel j = some c ∧
          (tasks.channel c).producer = k ∧ (tasks.channel c).output = o) ↔
            g.occupant ⟨i, j⟩ = some ⟨k, o⟩) ∧
        (∀ a, g.consumers a ≠ [] → ∃! c, c < tasks.channels.length ∧
          (tasks.channel c).producer = a.operator ∧ (tasks.channel c).output = a.index) ∧
        ∀ c < tasks.channels.length, ∃ a, g.consumers a ≠ [] ∧ tasks.channel c =
          { descriptor := .collection, producer := a.operator, output := a.index,
            consumers := (g.consumers a).map fun r => ⟨r.operator, r.index⟩ } := by
  have hw := wired_empty.handleAll requests
  have hd := declared_empty.handleAll requests
  refine ⟨⟨fun ⟨tasks, h⟩ => isElementary_of_toTaskGraph h, fun he => ?_⟩, fun tasks h => ?_⟩
  · obtain ⟨tasks, htasks, -⟩ := exists_toTaskGraph hw hd he
    exact ⟨tasks, htasks⟩
  · obtain ⟨tasks', htasks', hr⟩ := exists_toTaskGraph hw hd (isElementary_of_toTaskGraph h)
    obtain rfl : tasks' = tasks := Except.ok.inj (htasks'.symm.trans h)
    refine ⟨hr.length, fun id n hn => ?_, hr.fed_iff hw, fun a ha => ?_, fun c hc => ?_⟩
    · obtain ⟨hk, hi, ho⟩ := hr.task id n hn
      refine ⟨hk, hi, ho, fun i s hs => ?_⟩
      rw [((hd id n _ hn hk).input i s hs).1, decide_eq_true_iff]
    · refine hr.existsUnique_channel ?_
      rw [hw.targets_connections]
      simpa using ha
    · obtain ⟨a, ha, hchannel⟩ := hr.channel c hc
      rw [hw.targets_connections] at ha hchannel
      exact ⟨a, by simpa using ha, hchannel⟩

/-- A source of numbers. -/
def numbers : Operator :=
  { object := 1, name := "numbers", platform := ⟨"java"⟩, inputs := []
    outputs := [⟨"Long", false⟩] }

/-- A source that feeds every input of a second operator, a broadcast input among them. The first
connection is undone and made again, which makes it the last one. -/
def reconnectedRequests : List Request :=
  [.addElementary numbers, .addElementary TaskGraph.adder, .connect ⟨0, 0⟩ ⟨1, 0⟩,
    .connect ⟨0, 0⟩ ⟨1, 1⟩, .addBroadcastInput 1 "rates" ⟨"Long", false⟩, .connect ⟨0, 0⟩ ⟨1, 2⟩,
    .disconnect ⟨1, 0⟩, .connect ⟨0, 0⟩ ⟨1, 0⟩]

theorem reconnected_toTaskGraph :
    ∃ tasks, (empty.handleAll reconnectedRequests).toTaskGraph = .ok tasks ∧
      tasks.tasks.length = 2 ∧ (tasks.task 1).operator = TaskGraph.adder ∧
      (tasks.task 1).inputs.length = 3 ∧
      (∃ c < tasks.channels.length, (tasks.task 1).inputChannel 2 = some c ∧
        (tasks.channel c).producer = 0 ∧ (tasks.channel c).output = 0) ∧
      ∃ c < tasks.channels.length, (tasks.channel c).consumers = [⟨1, 1⟩, ⟨1, 2⟩, ⟨1, 0⟩] := by
  obtain ⟨hiff, hfaithful⟩ := handleAll_toTaskGraph reconnectedRequests
  obtain ⟨tasks, h⟩ := hiff.mpr (by decide)
  obtain ⟨hlength, htask, hfed, hchannel, hreads⟩ := hfaithful tasks h
  obtain ⟨hk, hi, -⟩ := htask 1 _ rfl
  obtain ⟨c, ⟨hc, hp, ho⟩, -⟩ := hchannel ⟨0, 0⟩ (by decide)
  obtain ⟨a, -, hconsumers⟩ := hreads c hc
  obtain rfl : a = ⟨0, 0⟩ := by
    rw [hconsumers] at hp ho
    cases a
    simp_all
  exact ⟨tasks, h, hlength, (NodeKind.elementary.inj hk).symm, hi, (hfed 1 2 0 0).mpr rfl, c, hc,
    congrArg Channel.consumers hconsumers⟩

end OperatorGraph

end Dataflow
