import Dataflow.Proofs.Plan.Kept
import Dataflow.Proofs.Plan.Outcome

/-!
# What is not planned makes no difference

A graph may grow by tasks that read what it has. Planning the same sinks as before starts with the
same tasks, edges and runs, so that it ends in the same way: with the same stages or with the same
error.

All three steps of planning read the graph through the planned tasks: validation reads their inputs,
splitting the edges between them, and finishing, which goes through all channels, passes over readers
that are not planned. The first two are compared here and the last one in `Dataflow.Proofs.Plan.Kept`.
The numbers of the new tasks lie behind those of the old ones, so that what is sorted by number comes
in the same order.

* `plannedTasks_of_keeps`, `validate_of_keeps`, `Keeps.alike_initial`: how planning starts.
* **`assign_growsTo`**: how it ends.

The graph grows by any sequence of calls that succeed (`TaskGraph.GrowsTo`): tasks are added, and
inputs of the added tasks are connected, to old tasks as well. An old task gets no new input, since
that would change what it needs. Two things do change and do not matter: an output without channel may
get one, and an old channel may get more consumers. With the new tasks among the sinks nothing of this
need hold.
-/

namespace Dataflow

variable {g g' : TaskGraph} {tasks : List TaskId}

/-! ## What is planned -/

namespace TaskGraph

theorem Wired.channel_lt_of_mem (hw : g.Wired) {t : TaskId} {c : ChannelId}
    (h : some c ∈ (g.task t).inputs) : c < g.channels.length := by
  obtain ⟨i, hi⟩ := List.mem_iff_getElem?.mp h
  exact ((hw.input_iff t i c).mp (inputChannel_eq_some.mpr hi)).1

theorem Keeps.producers (h : g.Keeps g') (hw : g.Wired) {t : TaskId} (ht : t < g.tasks.length) :
    g'.producers t = g.producers t := by
  unfold TaskGraph.producers
  rw [h.inputs t ht]
  refine List.filterMap_congr fun o ho => ?_
  cases o with
  | none => rfl
  | some c => exact congrArg some (h.producer (hw.channel_lt_of_mem ho))

theorem Keeps.ofInput (h : g.Keeps g') (hw : g.Wired) {t : TaskId} (ht : t < g.tasks.length)
    (i : Nat) {c : ChannelId} (hc : c < g.channels.length) :
    Edge.ofInput g' t i c = Edge.ofInput g t i c := by
  have hp := hw.producer_lt hc
  unfold Edge.ofInput
  simp only [h.producer hc, h.operator t ht, h.operator _ hp, h.isLoopHead ht, h.isLoopHead hp]

theorem Keeps.among (h : g.Keeps g') (hw : g.Wired) (hlt : ∀ t ∈ tasks, t < g.tasks.length) :
    Edge.among g' tasks = Edge.among g tasks := by
  refine List.flatMap_congr fun t ht => ?_
  unfold Edge.into
  rw [h.inputs t (hlt t ht)]
  refine List.filterMap_congr fun ⟨o, i⟩ hm => ?_
  cases o with
  | none => rfl
  | some c =>
    have hc := hw.channel_lt_of_mem (List.fst_mem_of_mem_zipIdx hm)
    exact congrArg some (h.ofInput hw (hlt t ht) i hc)

theorem Keeps.givenBarriers (h : g.Keeps g') (hw : g.Wired)
    (hlt : ∀ t ∈ tasks, t < g.tasks.length) :
    Runs.givenBarriers g' (Edge.among g' tasks) = Runs.givenBarriers g (Edge.among g tasks) := by
  unfold Runs.givenBarriers
  rw [h.among hw hlt]
  refine congrArg _ (List.filter_congr fun e he => ?_)
  obtain ⟨t, -, i, c, hc, rfl⟩ := mem_among_iff.mp he
  exact congrArg _ (h.barrier ((hw.input_iff t i c).mp hc).1)

/-- The first runs are the same. -/
theorem Keeps.alike_initial (h : g.Keeps g') (hw : g.Wired) (hs : g.IsScope tasks)
    (hs' : g'.IsScope tasks) : Runs.Alike (.initial g tasks) (.initial g' tasks) := by
  have hamong := h.among hw hs.lt
  have hgiven := h.givenBarriers hw hs.lt
  have hinner : Runs.innerEdges g' tasks = Runs.innerEdges g tasks := by
    unfold Runs.innerEdges
    rw [hgiven, hamong]
  have hlabel : ∀ t ∈ tasks, Digraph.labelAt (Runs.leastTasks g' tasks) t =
      Digraph.labelAt (Runs.leastTasks g tasks) t := fun t ht => by
    unfold Runs.leastTasks
    rw [hinner]
    refine Digraph.labelAt_components_of_le h.tasks_le (fun pair hp => ?_) t (hs.lt t ht)
    obtain ⟨e, he, rfl⟩ := List.mem_map.mp hp
    have hends := hs.ends_mem (Runs.mem_innerEdges.mp he).1
    exact ⟨hs.lt _ hends.1, hs.lt _ hends.2⟩
  have hroots : Runs.roots g' tasks = Runs.roots g tasks :=
    List.filter_congr fun t ht => by rw [hlabel t ht]
  refine ⟨rfl, hamong, congrArg List.length hroots, hgiven, rfl, fun e he => hs.ends_mem he,
    fun t ht => ⟨(Runs.valid_initial hs).lt_size hs ht, (Runs.valid_initial hs').lt_size hs' ht⟩,
    fun t ht => ?_⟩
  rw [Runs.run_initial hs ht, Runs.run_initial hs' ht, hroots, hlabel t ht]

end TaskGraph

namespace PreliminaryPlan

variable {sinks : List TaskId}

theorem forM_congr {α ε : Type} {f f' : α → Except ε Unit} : ∀ {xs : List α},
    (∀ x ∈ xs, f' x = f x) → xs.forM f' = xs.forM f
  | [], _ => rfl
  | x :: xs, hf => by
    change (f' x >>= fun _ => xs.forM f') = (f x >>= fun _ => xs.forM f)
    rw [hf x List.mem_cons_self, forM_congr fun y hy => hf y (List.mem_cons_of_mem _ hy)]

theorem SinksKnown.of_keeps (hs : SinksKnown ⟨g, sinks⟩) (h : g.Keeps g') :
    SinksKnown ⟨g', sinks⟩ :=
  ⟨hs.1, fun s hm => Nat.lt_of_lt_of_le (hs.2 s hm) h.tasks_le⟩

section Planned

variable (h : g.Keeps g') (hw : g.Wired) (hs : SinksKnown ⟨g, sinks⟩)
include h hw hs

theorem dependencies_of_keeps : dependencies ⟨g', sinks⟩ = dependencies ⟨g, sinks⟩ :=
  Digraph.closure_congr (isClosed_producers (p := ⟨g, sinks⟩) hw)
    (fun _ ht => h.producers hw (List.mem_range.mp ht)) (fun s hm => List.mem_range.mpr (hs.2 s hm))
    (Nat.le_of_eq List.length_range) h.tasks_le

theorem plannedTasks_of_keeps : plannedTasks ⟨g', sinks⟩ = plannedTasks ⟨g, sinks⟩ := by
  obtain ⟨k, hk⟩ := Nat.exists_eq_add_of_le h.tasks_le
  have hnone : ((List.range k).map (g.tasks.length + ·)).filter
      (dependencies ⟨g, sinks⟩).contains = [] := by
    refine List.filter_eq_nil_iff.mpr fun t ht hc => ?_
    obtain ⟨i, -, rfl⟩ := List.mem_map.mp ht
    have hlt := ((mem_dependencies hw hs).mp (List.contains_iff_mem.mp hc)).lt hw hs
    exact Nat.not_le_of_lt hlt (Nat.le_add_right _ _)
  unfold plannedTasks TaskGraph.taskIds
  rw [dependencies_of_keeps h hw hs, hk, List.range_add, List.filter_append, hnone,
    List.append_nil]

/-- Validation says the same. -/
theorem validate_of_keeps (hc : g.Consumed) (hc' : g'.Consumed) :
    validate ⟨g', sinks⟩ = validate ⟨g, sinks⟩ := by
  rw [validate_of_known hs hc, validate_of_known (hs.of_keeps h) hc',
    dependencies_of_keeps h hw hs]
  refine forM_congr fun t ht => ?_
  have hlt := ((mem_dependencies hw hs).mp ht).lt hw hs
  unfold unfedInput
  simp only [h.inputs t hlt, h.taskLabel hlt]

end Planned

/-! ## How planning ends -/

variable {r r' : Runs}

theorem findTaskCycle_of_alike (ha : Runs.Alike r r') : findTaskCycle r' = findTaskCycle r := by
  unfold findTaskCycle
  rw [ha.edges, ha.tasks]

/-- A cycle of tasks is one of planned tasks. -/
theorem mem_of_findTaskCycle {p : PreliminaryPlan} (hw : p.graph.Wired) (hs : p.SinksKnown)
    {path : List TaskId} (h : findTaskCycle p.firstRuns = some path) {t : TaskId} (ht : t ∈ path) :
    t ∈ p.plannedTasks := by
  rw [findTaskCycle_firstRuns] at h
  obtain ⟨cycle, hc, rfl⟩ := Option.map_eq_some_iff.mp h
  have hmem : t ∈ cycle := (List.mem_append.mp ht).elim id List.mem_of_mem_take
  obtain ⟨j, hj, rfl⟩ := List.getElem_of_mem hmem
  have hstep := (Digraph.findCycle_some (isClosed_forward hw hs) hc).step hj
  rw [List.getD_eq_getElem _ _ hj] at hstep
  obtain ⟨e, he, -, hp, -⟩ := Runs.mem_forward.mp hstep
  exact hp ▸ ((isScope_plannedTasks hw hs).ends_mem he).1

/-- **What is not planned makes no difference**: for sinks among the tasks that a graph had before
it grew, planning fails with the same error as before or yields the same stages, and the channels
that the graph had get the same flags. -/
theorem assign_growsTo (hg : g.Built) (hx : g.GrowsTo g') {sinks : List TaskId}
    (hsinks : ∀ s ∈ sinks, s < g.tasks.length) :
    (∃ e, assign ⟨g, sinks⟩ = .error e ∧ assign ⟨g', sinks⟩ = .error e) ∨
      ∃ plan plan', assign ⟨g, sinks⟩ = .ok plan ∧ assign ⟨g', sinks⟩ = .ok plan' ∧
        Matches g plan plan' := by
  have h := hx.keeps
  have hg' := hx.built hg
  have hw := hg.wired
  have hw' := hg'.wired
  by_cases hnil : sinks = []
  · exact Or.inl ⟨_, assign_of_invalid (validate_of_nil hnil),
      assign_of_invalid (validate_of_nil hnil)⟩
  have hs : SinksKnown ⟨g, sinks⟩ := ⟨hnil, hsinks⟩
  have hs' := hs.of_keeps h
  have hvalid := validate_of_keeps h hw hs hg.consumed hg'.consumed
  have hplanned := plannedTasks_of_keeps h hw hs
  have hscope := isScope_plannedTasks (p := ⟨g, sinks⟩) hw hs
  have hscope' := isScope_plannedTasks (p := ⟨g', sinks⟩) hw' hs'
  have ha : Runs.Alike (firstRuns ⟨g, sinks⟩) (firstRuns ⟨g', sinks⟩) := by
    unfold firstRuns
    rw [hplanned]
    exact h.alike_initial hw hscope (hplanned ▸ hscope')
  cases hv : validate ⟨g, sinks⟩ with
  | error e => exact Or.inl ⟨e, assign_of_invalid hv, assign_of_invalid (hvalid.trans hv)⟩
  | ok u =>
    have hcycle := findTaskCycle_of_alike ha
    cases hc : findTaskCycle (firstRuns ⟨g, sinks⟩) with
    | some cycle =>
      have hlabels : cycle.map g'.taskLabel = cycle.map g.taskLabel :=
        List.map_congr_left fun t ht => h.taskLabel (hscope.lt t (mem_of_findTaskCycle hw hs hc ht))
      refine Or.inl ⟨_, assign_of_cycle hv hc, ?_⟩
      rw [← hlabels]
      exact assign_of_cycle (hvalid.trans hv) (hcycle.trans hc)
    | none =>
      have hc' := hcycle.trans hc
      obtain ⟨r, hr, hres⟩ := exists_resolved (p := ⟨g, sinks⟩) hw hs
        ((findTaskCycle_eq_none_iff hw hs).mp hc)
      obtain ⟨r', hr', har⟩ := ha.resolve hr
      have hlt : ∀ t, r.tasks.contains t = true → t < g.tasks.length := fun t ht => by
        rw [hres.valid.tasks_eq, List.contains_iff_mem] at ht
        exact hscope.lt t ht
      obtain ⟨s, hsm⟩ := List.exists_mem_of_ne_nil sinks hnil
      rw [assign_of_acyclic hv hc hr, assign_of_acyclic (hvalid.trans hv) hc' hr']
      exact materialize_of_alike h hg.unplaced hg'.unplaced har
        (Nat.zero_lt_of_lt (hsinks s hsm)) hlt (hres.length_executionOrder hscope)

/-- A task that listens to what it is sent. -/
def listener : Operator where
  object := 4
  name := "listen"
  platform := ⟨"c"⟩
  inputs := []
  outputs := []
  supportsBroadcast := true

/-- Three operators to which a loop was added that would repeat what sorting feeds. -/
def repeated (kind : ChannelDescriptor) : TaskGraph :=
  ((interleaved kind).graph.addTask
    { object := 3, name := "loop", platform := ⟨"a"⟩, inputs := [.any, .any, .any, .any],
      outputs := [.any, .any, .any], loopRoles := some {} }).wire 1 0 3 2 kind

/-- Besides the loop there is someone who may listen. -/
def listening (kind : ChannelDescriptor) : TaskGraph :=
  let g := (repeated kind).addTask listener
  { g with tasks := g.tasks.set 4 (g.task 4).addInput }

/-- What is read is listened to. -/
def overheard (kind : ChannelDescriptor) : TaskGraph := (listening kind).wire 0 0 4 0 kind

theorem growsTo_overheard : ∀ kind ∈ [ChannelDescriptor.collection, .stream],
    (interleaved kind).graph.GrowsTo (overheard kind) := by
  intro kind hkind
  have hloop : (interleaved kind).graph.GrowsTo (repeated kind) :=
    .wire (.addTask _ .refl) (Nat.le_refl 3) rfl
  have hinput : ∀ kind ∈ [ChannelDescriptor.collection, .stream],
      ((repeated kind).addTask listener).addBroadcastInput 4 = .ok (listening kind, 0) := by
    decide +kernel
  have hcheck : ∀ kind ∈ [ChannelDescriptor.collection, .stream],
      (listening kind).checkConnection 0 0 4 0 = .ok () := by decide +kernel
  have hnew : (interleaved kind).graph.tasks.length ≤ 4 := Nat.le_succ 3
  exact ((hloop.addTask listener).addBroadcastInput hnew (hinput kind hkind)).wire hnew
    (hcheck kind hkind)

/-- What listens neither changes the three stages of operators that share a collection, nor why
operators cannot share a stream. -/
theorem interleaved_overheard :
    (∀ kind ∈ [ChannelDescriptor.collection, .stream], (interleaved kind).graph.Built ∧
      (interleaved kind).graph.GrowsTo (overheard kind) ∧
      ∀ s ∈ (interleaved kind).sinks, s < (interleaved kind).graph.tasks.length) ∧
    (∃ plan plan', (interleaved .collection).assign = .ok plan ∧
      assign ⟨overheard .collection, [2]⟩ = .ok plan' ∧
      Matches (interleaved .collection).graph plan plan' ∧ plan.stages.length = 3) ∧
    (interleaved .stream).assign = .error (.nonReusableFanOut ⟨0, "stream"⟩ 2) ∧
    assign ⟨overheard .stream, [2]⟩ = .error (.nonReusableFanOut ⟨0, "stream"⟩ 2) := by
  obtain ⟨plan₀, hplan, hlen⟩ : ∃ plan, (interleaved .collection).assign = .ok plan ∧
      plan.stages.length = 3 := exists_assign_of_decide (by decide +kernel)
  have hfail : (interleaved .stream).assign = .error (.nonReusableFanOut ⟨0, "stream"⟩ 2) := by
    decide +kernel
  have hsinks : ∀ kind, ∀ s ∈ (interleaved kind).sinks,
      s < (interleaved kind).graph.tasks.length := fun _ s hs => by
    rw [List.mem_singleton.mp hs]
    exact Nat.lt_succ_self 2
  have houtcome := fun kind hkind =>
    assign_growsTo (built_interleaved kind) (growsTo_overheard kind hkind) (hsinks kind)
  refine ⟨fun kind hkind => ⟨built_interleaved kind, growsTo_overheard kind hkind, hsinks kind⟩, ?_,
    hfail, ?_⟩
  · rcases houtcome .collection (by decide) with ⟨e, he, -⟩ | ⟨plan, plan', h, h', hmatches⟩
    · exact absurd (hplan.symm.trans he) nofun
    · obtain rfl : plan₀ = plan := Except.ok.inj (hplan.symm.trans h)
      exact ⟨plan₀, plan', h, h', hmatches, hlen⟩
  · rcases houtcome .stream (by decide) with ⟨e, he, he'⟩ | ⟨plan, plan', h, -⟩
    · exact he'.trans (he.symm.trans hfail)
    · exact absurd (hfail.symm.trans h) nofun

end PreliminaryPlan

end Dataflow
