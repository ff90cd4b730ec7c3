import Dataflow.Plan.Runs
import Dataflow.Proofs.Digraph.Acyclic
import Dataflow.Proofs.Digraph.Component
import Dataflow.Proofs.Plan.Demand

/-!
# Splitting runs

`Runs.Valid` is what the splitting of runs keeps: the runs are nonempty, they partition the
planned tasks, a local edge lies inside one run, and two tasks of a run are connected by edges
that were local from the start.

As long as the tasks themselves form no cycle, some run of a cycle of runs can be split
(`exists_findSplit`): otherwise every entry of every run of the cycle would lead to an entry of
the next one, and the walk would never end. A split leaves both parts nonempty, so there are
fewer splits than tasks.

* `valid_initial`, **`Valid.splitOff`**: the invariant.
* **`exists_findSplit`**: progress.
* **`resolve_spec`**: the splitting ends with runs that form no cycle.
* `Valid.findCycle_eq_none`: runs that need no split.
-/

namespace Dataflow

/-- Distinct tasks of a graph, among them whatever feeds one of them. -/
structure TaskGraph.IsScope (g : TaskGraph) (tasks : List TaskId) : Prop where
  nodup : tasks.Nodup
  lt : ∀ t ∈ tasks, t < g.tasks.length
  producer : ∀ t ∈ tasks, ∀ u, g.Feeds u t → u ∈ tasks

theorem PreliminaryPlan.isScope_plannedTasks {p : PreliminaryPlan} (hg : p.graph.Wired)
    (hs : p.SinksKnown) : p.graph.IsScope p.plannedTasks := by
  refine ⟨nodup_plannedTasks, fun t ht => ((mem_plannedTasks hg hs).mp ht).lt hg hs,
    fun t ht u hu => ?_⟩
  exact (mem_plannedTasks hg hs).mpr (((mem_plannedTasks hg hs).mp ht).of_feeds hu)

theorem TaskGraph.IsScope.ends_mem {g : TaskGraph} {tasks : List TaskId} (h : g.IsScope tasks)
    {e : Edge} (he : e ∈ Edge.among g tasks) : e.producer ∈ tasks ∧ e.consumer ∈ tasks := by
  obtain ⟨t, ht, i, c, hc, rfl⟩ := mem_among_iff.mp he
  exact ⟨h.producer t ht _ ⟨i, c, hc, rfl⟩, ht⟩

namespace Runs

/-- The edges along which the first runs are joined. -/
def innerEdges (g : TaskGraph) (tasks : List TaskId) : List Edge :=
  (Edge.among g tasks).filter fun e =>
    e.isJoinable && !(givenBarriers g (Edge.among g tasks)).contains e.channel

/-- Two tasks are connected by edges along which the first runs are joined. -/
def Joined (g : TaskGraph) (tasks : List TaskId) : TaskId → TaskId → Prop :=
  Digraph.Connected ((innerEdges g tasks).map fun e => (e.producer, e.consumer))

/-- The invariant of splitting. -/
structure Valid (g : TaskGraph) (tasks : List TaskId) (r : Runs) : Prop where
  tasks_eq : r.tasks = tasks
  edges_eq : r.edges = Edge.among g tasks
  given : ∀ c ∈ givenBarriers g (Edge.among g tasks), c ∈ r.barriers
  size : r.labels.size = g.tasks.length
  run_lt : ∀ t ∈ tasks, r.run t < r.count
  occupied : ∀ k < r.count, ∃ t ∈ tasks, r.run t = k
  run_eq : ∀ e ∈ Edge.among g tasks, r.isLocal e = true → r.run e.producer = r.run e.consumer
  joined : ∀ t ∈ tasks, ∀ u ∈ tasks, r.run t = r.run u → Joined g tasks t u

variable {g : TaskGraph} {tasks : List TaskId} {r : Runs}

/-! ## The first runs -/

section Initial

theorem mem_innerEdges {e : Edge} : e ∈ innerEdges g tasks ↔ e ∈ Edge.among g tasks ∧
    e.isJoinable = true ∧ e.channel ∉ givenBarriers g (Edge.among g tasks) := by
  unfold innerEdges
  simp

theorem isLocal_initial {e : Edge} : (initial g tasks).isLocal e = true ↔
    e.isJoinable = true ∧ e.channel ∉ givenBarriers g (Edge.among g tasks) := by
  unfold isLocal initial
  simp

/-- The labels of the components of the tasks. -/
def leastTasks (g : TaskGraph) (tasks : List TaskId) : Array Nat :=
  Digraph.components g.tasks.length ((innerEdges g tasks).map fun e => (e.producer, e.consumer))

/-- The tasks that label the first runs. -/
def roots (g : TaskGraph) (tasks : List TaskId) : List TaskId :=
  tasks.filter fun t => Digraph.labelAt (leastTasks g tasks) t == t

theorem labelled_leastTasks (h : g.IsScope tasks) : Digraph.Labelled g.tasks.length
    ((innerEdges g tasks).map fun e => (e.producer, e.consumer)) (leastTasks g tasks) := by
  apply Digraph.components_spec
  intro pair hp
  obtain ⟨e, he, rfl⟩ := List.mem_map.mp hp
  have hends := h.ends_mem (mem_innerEdges.mp he).1
  exact ⟨h.lt _ hends.1, h.lt _ hends.2⟩

theorem Joined.mem (h : g.IsScope tasks) {t u : TaskId} (hj : Joined g tasks t u) :
    t ∈ tasks ↔ u ∈ tasks := by
  induction hj with
  | rel a b hab =>
    obtain ⟨e, he, heq⟩ := List.mem_map.mp hab
    obtain ⟨rfl, rfl⟩ := Prod.mk.inj heq
    have hends := h.ends_mem (mem_innerEdges.mp he).1
    exact iff_of_true hends.1 hends.2
  | refl a => exact Iff.rfl
  | symm a b _ ih => exact ih.symm
  | trans a b c _ _ ih1 ih2 => exact ih1.trans ih2

theorem labelAt_mem_roots (h : g.IsScope tasks) {t : TaskId} (ht : t ∈ tasks) :
    Digraph.labelAt (leastTasks g tasks) t ∈ roots g tasks := by
  have hl := labelled_leastTasks h
  have htl := h.lt t ht
  have hle := hl.le t htl
  have hj : Joined g tasks (Digraph.labelAt (leastTasks g tasks) t) t :=
    (hl.connected _ (Nat.lt_of_le_of_lt hle htl) t htl).mp (hl.root t htl)
  unfold roots
  rw [List.mem_filter, beq_iff_eq]
  exact ⟨(hj.mem h).mpr ht, hl.root t htl⟩

theorem run_initial (h : g.IsScope tasks) {t : TaskId} (ht : t ∈ tasks) :
    (initial g tasks).run t = (roots g tasks).idxOf (Digraph.labelAt (leastTasks g tasks) t) := by
  have hsize : (leastTasks g tasks).size = g.tasks.length := (labelled_leastTasks h).size
  have htl : t < (leastTasks g tasks).size := by
    rw [hsize]
    exact h.lt t ht
  change ((leastTasks g tasks).map fun l => (roots g tasks).idxOf l).getD t 0 = _
  unfold Digraph.labelAt
  rw [Array.getD_eq_getD_getElem?, Array.getD_eq_getD_getElem?, Array.getElem?_map,
    Array.getElem?_eq_getElem htl, Option.map_some, Option.getD_some, Option.getD_some]

theorem run_initial_eq_iff (h : g.IsScope tasks) {t u : TaskId} (ht : t ∈ tasks) (hu : u ∈ tasks) :
    (initial g tasks).run t = (initial g tasks).run u ↔ Joined g tasks t u := by
  rw [run_initial h ht, run_initial h hu, List.idxOf_inj (labelAt_mem_roots h ht)]
  exact (labelled_leastTasks h).connected t (h.lt t ht) u (h.lt u hu)

theorem valid_initial (h : g.IsScope tasks) : Valid g tasks (initial g tasks) := by
  have hl := labelled_leastTasks h
  refine ⟨rfl, rfl, fun _ hc => hc, ?_, fun t ht => ?_, fun k hk => ?_, fun e he hloc => ?_,
    fun t ht u hu heq => (run_initial_eq_iff h ht hu).mp heq⟩
  · exact (Array.size_map).trans hl.size
  · rw [run_initial h ht]
    exact List.idxOf_lt_length_of_mem (labelAt_mem_roots h ht)
  · -- the root that stands at place `k` has the label `k`
    have hk' : k < (roots g tasks).length := hk
    have hmem := List.getElem_mem hk'
    obtain ⟨hroot, hself⟩ := List.mem_filter.mp hmem
    refine ⟨(roots g tasks)[k], hroot, ?_⟩
    rw [run_initial h hroot, beq_iff_eq.mp hself]
    exact (h.nodup.filter _).idxOf_getElem k hk'
  · have hends := h.ends_mem he
    refine (run_initial_eq_iff h hends.1 hends.2).mpr (Relation.EqvGen.rel _ _ ?_)
    exact List.mem_map_of_mem (mem_innerEdges.mpr ⟨he, isLocal_initial.mp hloc⟩)

end Initial

/-! ## Cycles of runs -/

/-- The runs that a run leads to. -/
def next (r : Runs) (run : Nat) : List Nat :=
  (((List.range r.count).map (successors r.links r.count)).toArray).getD run []

theorem findCycle_eq (r : Runs) : r.findCycle = Digraph.findCycle r.next (List.range r.count) := rfl

theorem mem_next {x y : Nat} : y ∈ r.next x ↔ x < r.count ∧ y < r.count ∧
    ∃ e ∈ r.edges, r.separates e = true ∧ r.run e.producer = x ∧ r.run e.consumer = y := by
  unfold next
  by_cases hx : x < r.count
  · have hget : (((List.range r.count).map (successors r.links r.count)).toArray).getD x [] =
        successors r.links r.count x := by simp [hx]
    rw [hget]
    unfold successors links
    simp only [List.mem_filter, List.mem_range, List.contains_iff_mem, List.mem_map, beq_iff_eq,
      hx, true_and]
    refine and_congr_right ?_
    intro _
    constructor
    · rintro ⟨_, ⟨⟨e, ⟨he, hsep⟩, rfl⟩, hrun⟩, rfl⟩
      exact ⟨e, he, hsep, hrun, rfl⟩
    · rintro ⟨e, he, hsep, hrun, rfl⟩
      exact ⟨_, ⟨⟨e, ⟨he, hsep⟩, rfl⟩, hrun⟩, rfl⟩
  · simp [hx]

theorem isClosed_next (r : Runs) : Digraph.IsClosed r.next (List.range r.count) :=
  fun _ _ _ hy => List.mem_range.mpr (mem_next.mp hy).2.1

/-- Edges that order something: all but feedback. -/
def forward (r : Runs) (t : TaskId) : List TaskId :=
  ((r.edges.filter fun e => !e.feedback).filter (·.producer == t)).map Edge.consumer

theorem mem_forward {t u : TaskId} : u ∈ r.forward t ↔
    ∃ e ∈ r.edges, e.feedback = false ∧ e.producer = t ∧ e.consumer = u := by
  unfold forward
  simp only [List.mem_map, List.mem_filter, beq_iff_eq, Bool.not_eq_true']
  constructor
  · rintro ⟨e, ⟨⟨he, hf⟩, hp⟩, hc⟩
    exact ⟨e, he, hf, hp, hc⟩
  · rintro ⟨e, he, hf, hp, hc⟩
    exact ⟨e, ⟨⟨he, hf⟩, hp⟩, hc⟩

theorem feedback_of_isLocal {e : Edge} (h : r.isLocal e = true) : e.feedback = false := by
  unfold isLocal Edge.isJoinable at h
  simp only [Bool.and_eq_true, Bool.not_eq_true'] at h
  exact h.1.1.1

theorem feedback_of_separates {e : Edge} (h : r.separates e = true) : e.feedback = false := by
  unfold separates at h
  simp only [Bool.and_eq_true, Bool.not_eq_true'] at h
  exact h.1

/-! ## Finding a split -/

/-- One step inside a run. -/
def within (r : Runs) (run : Nat) (t : TaskId) : List TaskId :=
  ((r.edges.filter fun e => r.isLocal e && r.run e.consumer == run).filter
    (·.producer == t)).map Edge.consumer

theorem mem_within {run : Nat} {t u : TaskId} : u ∈ r.within run t ↔ ∃ e ∈ r.edges,
    r.isLocal e = true ∧ r.run e.consumer = run ∧ e.producer = t ∧ e.consumer = u := by
  unfold within
  simp only [List.mem_map, List.mem_filter, beq_iff_eq, Bool.and_eq_true]
  constructor
  · rintro ⟨e, ⟨⟨he, hl, hr⟩, hp⟩, hc⟩
    exact ⟨e, he, hl, hr, hp, hc⟩
  · rintro ⟨e, he, hl, hr, hp, hc⟩
    exact ⟨e, ⟨⟨he, hl, hr⟩, hp⟩, hc⟩

theorem mem_downstream (hs : g.IsScope tasks) (hv : r.Valid g tasks) {run : Nat} {entry t : TaskId}
    (he : entry ∈ tasks) :
    t ∈ r.downstream run entry ↔ Digraph.Reaches (r.within run) entry t := by
  have hcl : Digraph.IsClosed (r.within run) tasks := by
    intro x _ y hy
    obtain ⟨e, he, -, -, -, rfl⟩ := mem_within.mp hy
    exact (hs.ends_mem (hv.edges_eq ▸ he)).2
  change t ∈ Digraph.closure (r.within run) r.tasks.length [entry] ↔ _
  rw [Digraph.mem_closure_iff hcl (by simpa using he) (by rw [hv.tasks_eq])]
  simp

theorem mem_entries {prev run : Nat} {t : TaskId} : t ∈ r.entries prev run ↔ t ∈ r.tasks ∧
    ∃ e ∈ r.edges, r.separates e = true ∧ r.run e.producer = prev ∧ r.run e.consumer = run ∧
      e.consumer = t := by
  unfold entries
  simp only [List.mem_filter, List.contains_iff_mem, List.mem_map, beq_iff_eq, Bool.and_eq_true]
  refine and_congr_right ?_
  intro _
  constructor
  · rintro ⟨e, ⟨he, ⟨hs, hp⟩, hr⟩, hc⟩
    exact ⟨e, he, hs, hp, hr, hc⟩
  · rintro ⟨e, he, hs, hp, hr, hc⟩
    exact ⟨e, ⟨he, ⟨hs, hp⟩, hr⟩, hc⟩

theorem mem_exits {run next : Nat} {t : TaskId} : t ∈ r.exits run next ↔
    ∃ e ∈ r.edges, r.separates e = true ∧ r.run e.producer = run ∧ r.run e.consumer = next ∧
      e.producer = t := by
  unfold exits
  simp only [List.mem_filter, List.mem_map, beq_iff_eq, Bool.and_eq_true]
  constructor
  · rintro ⟨e, ⟨he, ⟨hs, hp⟩, hr⟩, hc⟩
    exact ⟨e, he, hs, hp, hr, hc⟩
  · rintro ⟨e, he, hs, hp, hr, hc⟩
    exact ⟨e, ⟨he, ⟨hs, hp⟩, hr⟩, hc⟩

/-- Going one place back around a cycle and one place on again. -/
theorem mod_pred_succ {j k : Nat} (hj : j < k) : ((j + k - 1) % k + 1) % k = j := by
  have hpred : j + k - 1 + 1 = j + k := by omega
  rw [Nat.mod_add_mod, hpred, Nat.add_mod_right, Nat.mod_eq_of_lt hj]

/-- Going one place on around a cycle and one place back again. -/
theorem mod_succ_pred {j k : Nat} (hj : j < k) : ((j + 1) % k + k - 1) % k = j := by
  have hsub : (j + 1) % k + k - 1 = (j + 1) % k + (k - 1) := by omega
  have hsucc : j + 1 + (k - 1) = j + k := by omega
  rw [hsub, Nat.mod_add_mod, hsucc, Nat.add_mod_right, Nat.mod_eq_of_lt hj]

/-- **Some run of a cycle can be split**, because the tasks form no cycle. -/
theorem exists_findSplit (hs : g.IsScope tasks) (hv : r.Valid g tasks)
    (hg : ∀ t ∈ tasks, Digraph.Grounded r.forward t) {cycle : List Nat}
    (hc : Digraph.IsCycle r.next cycle) : ∃ run part, r.findSplit cycle = some (run, part) := by
  cases hsplit : r.findSplit cycle with
  | some split => exact ⟨split.1, split.2, rfl⟩
  | none =>
    exfalso
    have hk : 0 < cycle.length := List.length_pos_of_ne_nil hc.ne_nil
    -- every entry leads to an exit of its run
    have hleads : ∀ j < cycle.length, ∀ entry ∈ r.entries
        (cycle.getD ((j + cycle.length - 1) % cycle.length) 0) (cycle.getD j 0),
        ∃ t ∈ r.downstream (cycle.getD j 0) entry,
          t ∈ r.exits (cycle.getD j 0) (cycle.getD ((j + 1) % cycle.length) 0) := by
      intro j hj entry hentry
      unfold findSplit at hsplit
      have h1 := List.findSome?_eq_none_iff.mp hsplit j (List.mem_range.mpr hj)
      have h2 := List.findSome?_eq_none_iff.mp h1 entry hentry
      by_contra hno
      rw [if_neg] at h2
      · exact absurd h2 (by simp)
      · intro hany
        obtain ⟨t, ht, hx⟩ := List.any_eq_true.mp hany
        exact hno ⟨t, ht, by simpa using hx⟩
    -- so no entry can be grounded
    have hnone : ∀ t, Digraph.Grounded r.forward t → ∀ j < cycle.length, t ∉ r.entries
        (cycle.getD ((j + cycle.length - 1) % cycle.length) 0) (cycle.getD j 0) := by
      intro t ht
      refine ht.induction (C := fun t => ∀ j < cycle.length, t ∉ r.entries
        (cycle.getD ((j + cycle.length - 1) % cycle.length) 0) (cycle.getD j 0)) ?_
      intro t ih j hj hentry
      obtain ⟨x, hx, hexit⟩ := hleads j hj t hentry
      have htask : t ∈ tasks := hv.tasks_eq ▸ (mem_entries.mp hentry).1
      have hwalk : Relation.ReflTransGen (Digraph.Leads r.forward) t x := by
        refine Relation.ReflTransGen.mono (fun a b hab => ?_) _ _
          ((mem_downstream hs hv htask).mp hx)
        obtain ⟨e, he, hl, -, hp, hcon⟩ := mem_within.mp hab
        exact mem_forward.mpr ⟨e, he, feedback_of_isLocal hl, hp, hcon⟩
      obtain ⟨e, he, hsep, hp, hq, rfl⟩ := mem_exits.mp hexit
      have hstep : Digraph.Leads r.forward e.producer e.consumer :=
        mem_forward.mpr ⟨e, he, feedback_of_separates hsep, rfl, rfl⟩
      refine ih e.consumer (Relation.TransGen.tail' hwalk hstep) ((j + 1) % cycle.length)
        (Nat.mod_lt _ hk) (mem_entries.mpr ⟨?_, e, he, hsep, ?_, hq, rfl⟩)
      · rw [hv.tasks_eq]
        exact (hs.ends_mem (hv.edges_eq ▸ he)).2
      · rw [mod_succ_pred hj]
        exact hp
    obtain ⟨-, -, e, he, hsep, hp, hq⟩ := mem_next.mp (hc.step (Nat.mod_lt (0 + cycle.length - 1) hk))
    rw [mod_pred_succ hk] at hq
    have hcon : e.consumer ∈ tasks := (hs.ends_mem (hv.edges_eq ▸ he)).2
    exact hnone e.consumer (hg _ hcon) 0 hk
      (mem_entries.mpr ⟨hv.tasks_eq ▸ hcon, e, he, hsep, hp, hq, rfl⟩)

/-! ## Splitting -/

/-- A proper part of a run: what one of its tasks leads to, but not all of the run. -/
structure Splittable (tasks : List TaskId) (r : Runs) (run : Nat) (part : List TaskId) : Prop where
  downstream : ∃ entry ∈ tasks, r.run entry = run ∧ part = r.downstream run entry
  rest : ∃ t ∈ tasks, r.run t = run ∧ t ∉ part

/-- What is found is a proper part of a run. -/
theorem findSplit_spec (hs : g.IsScope tasks) (hv : r.Valid g tasks) {cycle : List Nat}
    (hc : Digraph.IsCycle r.next cycle) {run : Nat} {part : List TaskId}
    (h : r.findSplit cycle = some (run, part)) : Splittable tasks r run part := by
  unfold findSplit at h
  obtain ⟨j, hj, hfound⟩ := List.exists_of_findSome?_eq_some h
  obtain ⟨entry, hentry, hpart⟩ := List.exists_of_findSome?_eq_some hfound
  dsimp only at hpart
  split at hpart
  · exact absurd hpart (by simp)
  · rename_i hany
    obtain ⟨rfl, rfl⟩ := Prod.mk.inj (Option.some.inj hpart)
    obtain ⟨htask, e, -, -, -, hrun, rfl⟩ := mem_entries.mp hentry
    refine ⟨⟨e.consumer, hv.tasks_eq ▸ htask, hrun, rfl⟩, ?_⟩
    -- the cycle goes on by an exit, which the part does not hold
    obtain ⟨-, -, x, hx, hsep, hprod, hcons⟩ := mem_next.mp (hc.step (List.mem_range.mp hj))
    refine ⟨x.producer, (hs.ends_mem (hv.edges_eq ▸ hx)).1, hprod, fun hmem => hany ?_⟩
    refine List.any_eq_true.mpr ⟨_, hmem, ?_⟩
    rw [List.contains_iff_mem]
    exact mem_exits.mpr ⟨x, hx, hsep, hprod, hcons, rfl⟩

theorem run_splitOff_of_lt {t : TaskId} (ht : t < r.labels.size) (run : Nat) (part : List TaskId) :
    (r.splitOff run part).run t = if t ∈ part then r.count else r.run t := by
  change (r.labels.mapIdx fun t l => if part.contains t then r.count else l).getD t 0 =
    if t ∈ part then r.count else r.labels.getD t 0
  simp only [Array.getD_eq_getD_getElem?, Array.getElem?_mapIdx, Array.getElem?_eq_getElem ht,
    Option.map_some, Option.getD_some, List.contains_iff_mem]

theorem Valid.lt_size (hv : r.Valid g tasks) (hs : g.IsScope tasks) {t : TaskId} (ht : t ∈ tasks) :
    t < r.labels.size := by
  rw [hv.size]
  exact hs.lt t ht

theorem run_splitOff (hv : r.Valid g tasks) (hs : g.IsScope tasks) {run : Nat} {part : List TaskId}
    {t : TaskId} (ht : t ∈ tasks) :
    (r.splitOff run part).run t = if t ∈ part then r.count else r.run t :=
  run_splitOff_of_lt (hv.lt_size hs ht) run part

/-- A part lies inside its run, and a local edge does not lead out of it. -/
theorem Splittable.inside (hs : g.IsScope tasks) (hv : r.Valid g tasks) {run : Nat}
    {part : List TaskId} (h : Splittable tasks r run part) :
    (∀ t ∈ part, r.run t = run) ∧ ∀ e ∈ r.edges, r.isLocal e = true → e.producer ∈ part →
      e.consumer ∈ part := by
  obtain ⟨entry, hentry, hrun, rfl⟩ := h.downstream
  have hin : ∀ t ∈ r.downstream run entry, r.run t = run := by
    intro t ht
    rcases Relation.ReflTransGen.cases_tail ((mem_downstream hs hv hentry).mp ht) with rfl | hlast
    · exact hrun
    · obtain ⟨u, -, hu⟩ := hlast
      obtain ⟨e, -, -, hr, -, rfl⟩ := mem_within.mp hu
      exact hr
  refine ⟨hin, fun e he hl hp => ?_⟩
  have heq := hv.run_eq e (hv.edges_eq ▸ he) hl
  refine (mem_downstream hs hv hentry).mpr (((mem_downstream hs hv hentry).mp hp).tail ?_)
  exact mem_within.mpr ⟨e, he, hl, heq.symm.trans (hin _ hp), rfl, rfl⟩

theorem isLocal_splitOff {run : Nat} {part : List TaskId} {e : Edge} (he : e ∈ r.edges)
    (h : (r.splitOff run part).isLocal e = true) : r.isLocal e = true ∧
      ¬ ((r.splitOff run part).run e.producer = run ∧
        (r.splitOff run part).run e.consumer = r.count) := by
  unfold isLocal at h
  simp only [Bool.and_eq_true, Bool.not_eq_true'] at h
  obtain ⟨hj, hb⟩ := h
  have hb' : e.channel ∉ r.barriers ++ ((r.edges.filter fun e => r.isLocal e &&
      (r.splitOff run part).run e.producer == run &&
        (r.splitOff run part).run e.consumer == r.count).map Edge.channel) := by
    rw [← List.contains_iff_mem]
    exact Bool.eq_false_iff.mp hb
  rw [List.mem_append, not_or] at hb'
  have hl : r.isLocal e = true := by
    unfold isLocal
    simp [hj, hb'.1]
  refine ⟨hl, fun hends => hb'.2 (List.mem_map_of_mem (List.mem_filter.mpr ⟨he, ?_⟩))⟩
  simp [hl, hends.1, hends.2]

/-- **Splitting off a proper part of a run keeps the invariant.** -/
theorem Valid.splitOff (hs : g.IsScope tasks) (hv : r.Valid g tasks) {run : Nat}
    {part : List TaskId} (h : Splittable tasks r run part) :
    (r.splitOff run part).Valid g tasks := by
  obtain ⟨hin, hdown⟩ := h.inside hs hv
  have hrun : ∀ t ∈ tasks, (r.splitOff run part).run t = if t ∈ part then r.count else r.run t :=
    fun t ht => run_splitOff hv hs ht
  refine ⟨hv.tasks_eq, hv.edges_eq, fun c hc => List.mem_append_left _ (hv.given c hc), ?_,
    fun t ht => ?_, fun k hk => ?_, fun e he hl => ?_, fun t ht u hu heq => ?_⟩
  · exact (Array.size_mapIdx).trans hv.size
  · have := hv.run_lt t ht
    change _ < r.count + 1
    rw [hrun t ht]
    split <;> omega
  · have hk' : k < r.count + 1 := hk
    by_cases hfresh : k = r.count
    · obtain ⟨entry, hentry, -, rfl⟩ := h.downstream
      refine ⟨entry, hentry, ?_⟩
      rw [hrun entry hentry, hfresh]
      exact if_pos ((mem_downstream hs hv hentry).mpr Relation.ReflTransGen.refl)
    · by_cases hk : k = run
      · obtain ⟨t, ht, hr, hnot⟩ := h.rest
        refine ⟨t, ht, ?_⟩
        rw [hrun t ht, if_neg hnot, hr, hk]
      · obtain ⟨t, ht, hr⟩ := hv.occupied k (by omega)
        refine ⟨t, ht, ?_⟩
        rw [hrun t ht, if_neg fun hp => hk (hr.symm.trans (hin t hp)), hr]
  · have hends := hs.ends_mem he
    have he' : e ∈ r.edges := hv.edges_eq ▸ he
    obtain ⟨hl, hcut⟩ := isLocal_splitOff he' hl
    have heq := hv.run_eq e he hl
    rw [hrun _ hends.1, hrun _ hends.2] at hcut ⊢
    by_cases hp : e.producer ∈ part
    · rw [if_pos hp, if_pos (hdown e he' hl hp)]
    · rw [if_neg hp] at hcut ⊢
      by_cases hc : e.consumer ∈ part
      · rw [if_pos hc] at hcut
        exact absurd ⟨heq.trans (hin _ hc), rfl⟩ hcut
      · rw [if_neg hc]
        exact heq
  · rw [hrun t ht, hrun u hu] at heq
    have htl := hv.run_lt t ht
    have hul := hv.run_lt u hu
    by_cases htp : t ∈ part <;> by_cases hup : u ∈ part
    · exact hv.joined t ht u hu ((hin t htp).trans (hin u hup).symm)
    · rw [if_pos htp, if_neg hup] at heq
      omega
    · rw [if_neg htp, if_pos hup] at heq
      omega
    · rw [if_neg htp, if_neg hup] at heq
      exact hv.joined t ht u hu heq

/-- There are no more runs than tasks. -/
theorem Valid.count_le (hv : r.Valid g tasks) : r.count ≤ tasks.length := by
  have h : ∀ k ∈ List.range r.count, k ∈ tasks.map r.run := fun k hk => by
    obtain ⟨t, ht, hr⟩ := hv.occupied k (List.mem_range.mp hk)
    exact List.mem_map.mpr ⟨t, ht, hr⟩
  simpa using Digraph.length_le_of_subset List.nodup_range h

/-! ## All splits -/

/-- One turn of the splitting. -/
def SplitsTo (r r' : Runs) : Prop :=
  ∃ cycle run part, r.findCycle = some cycle ∧ r.findSplit cycle = some (run, part) ∧
    r' = r.splitOff run part

theorem SplitsTo.valid (hs : g.IsScope tasks) {r' : Runs} (h : SplitsTo r r')
    (hv : r.Valid g tasks) : r'.Valid g tasks := by
  obtain ⟨cycle, run, part, hc, hf, rfl⟩ := h
  exact hv.splitOff hs (findSplit_spec hs hv (Digraph.findCycle_some r.isClosed_next hc) hf)

/-- The invariant holds throughout the splitting. -/
theorem valid_of_splits (hs : g.IsScope tasks) {r' : Runs}
    (h : Relation.ReflTransGen SplitsTo r r') (hv : r.Valid g tasks) : r'.Valid g tasks := by
  induction h with
  | refl => exact hv
  | tail _ hstep ih => exact hstep.valid hs ih

/-- As long as the runs form a cycle, there is a next split. -/
theorem exists_splitsTo (hs : g.IsScope tasks) (hv : r.Valid g tasks)
    (hg : ∀ t ∈ tasks, Digraph.Grounded (initial g tasks).forward t) {cycle : List Nat}
    (hc : r.findCycle = some cycle) : ∃ run part, r.findSplit cycle = some (run, part) ∧
      SplitsTo r (r.splitOff run part) := by
  have hg' : ∀ t ∈ tasks, Digraph.Grounded r.forward t := by
    unfold forward
    rw [hv.edges_eq]
    exact hg
  obtain ⟨run, part, hf⟩ :=
    exists_findSplit hs hv hg' (Digraph.findCycle_some r.isClosed_next hc)
  exact ⟨run, part, hf, cycle, run, part, hc, hf, rfl⟩

/-- With fuel for all tasks the splitting ends with runs that form no cycle. -/
theorem resolveWith_spec (hs : g.IsScope tasks)
    (hg : ∀ t ∈ tasks, Digraph.Grounded (initial g tasks).forward t) :
    ∀ (fuel : Nat) (r : Runs), r.Valid g tasks → tasks.length ≤ r.count + fuel →
      ∃ r', resolveWith fuel r = .ok r' ∧ Relation.ReflTransGen SplitsTo r r' ∧
        r'.findCycle = none := by
  intro fuel
  induction fuel with
  | zero =>
    intro r hv hf
    refine ⟨r, rfl, Relation.ReflTransGen.refl, ?_⟩
    cases hc : r.findCycle with
    | none => rfl
    | some cycle =>
      -- one split more would leave more runs than tasks
      obtain ⟨run, part, -, hstep⟩ := exists_splitsTo hs hv hg hc
      have hle := (hstep.valid hs hv).count_le
      change r.count + 1 ≤ _ at hle
      omega
  | succ fuel ih =>
    intro r hv hf
    unfold resolveWith
    cases hc : r.findCycle with
    | none => exact ⟨r, rfl, Relation.ReflTransGen.refl, hc⟩
    | some cycle =>
      obtain ⟨run, part, hsplit, hstep⟩ := exists_splitsTo hs hv hg hc
      obtain ⟨r', hr', hsteps, hnone⟩ := ih (r.splitOff run part) (hstep.valid hs hv) (by
        change _ ≤ r.count + 1 + fuel
        omega)
      dsimp only
      rw [hsplit]
      exact ⟨r', hr', Relation.ReflTransGen.head hstep hsteps, hnone⟩

/-- **The splitting ends with runs that form no cycle**, because the tasks form none. -/
theorem resolve_spec (hs : g.IsScope tasks)
    (hg : ∀ t ∈ tasks, Digraph.Grounded (initial g tasks).forward t) :
    ∃ r, (initial g tasks).resolve = .ok r ∧ Relation.ReflTransGen SplitsTo (initial g tasks) r ∧
      r.findCycle = none :=
  resolveWith_spec hs hg tasks.length (initial g tasks) (valid_initial hs) (Nat.le_add_left _ _)

/-- Runs form no cycle if some order of the tasks respects them and rises from one to the next. -/
theorem Valid.findCycle_eq_none (hs : g.IsScope tasks) (hv : r.Valid g tasks)
    {R : TaskId → TaskId → Prop} (htrans : ∀ t u v, R t u → R u v → R t v) (hirr : ∀ t, ¬ R t t)
    (hjoin : ∀ t u v, Joined g tasks u v → R t u → R t v)
    (hstep : ∀ e ∈ Edge.among g tasks, r.separates e = true → R e.producer e.consumer) :
    r.findCycle = none := by
  have hpath : ∀ x y, Relation.TransGen (Digraph.Leads r.next) x y →
      ∃ t ∈ tasks, ∃ u ∈ tasks, r.run t = x ∧ r.run u = y ∧ R t u := by
    intro x y hxy
    induction hxy with
    | single hab =>
      obtain ⟨-, -, e, he, hsep, rfl, rfl⟩ := mem_next.mp hab
      rw [hv.edges_eq] at he
      obtain ⟨hp, hc⟩ := hs.ends_mem he
      exact ⟨_, hp, _, hc, rfl, rfl, hstep e he hsep⟩
    | tail _ hab ih =>
      obtain ⟨t, ht, u, hu, hx, hy, hlt⟩ := ih
      obtain ⟨-, -, e, he, hsep, rfl, rfl⟩ := mem_next.mp hab
      rw [hv.edges_eq] at he
      obtain ⟨hp, hc⟩ := hs.ends_mem he
      refine ⟨t, ht, _, hc, hx, rfl, htrans _ _ _ (hjoin t u _ (hv.joined u hu _ hp hy) hlt) ?_⟩
      exact hstep e he hsep
  cases hcycle : r.findCycle with
  | none => rfl
  | some cycle =>
    rw [findCycle_eq] at hcycle
    obtain ⟨x, -, hx⟩ := (Digraph.findCycle_some (isClosed_next _) hcycle).trans
    obtain ⟨t, ht, u, hu, hrt, hru, hlt⟩ := hpath x x hx
    exact absurd (hjoin t u t (hv.joined u hu t ht (hru.trans hrt.symm)) hlt) (hirr t)

/-- Runs that form no cycle are left as they are. -/
theorem resolve_of_findCycle_none {r : Runs} (h : r.findCycle = none) : r.resolve = .ok r := by
  unfold resolve
  cases r.tasks.length with
  | zero => rfl
  | succ n =>
    unfold resolveWith
    rw [h]

end Runs

end Dataflow
