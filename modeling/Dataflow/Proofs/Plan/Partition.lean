import Dataflow.Proofs.Plan.Outcome

/-!
# The stages of a plan

The stages partition the needed tasks. Two tasks that an edge connects are in one stage iff nothing
keeps them apart: they run on one platform, neither is a loop head, and their channel is no barrier.
From left to right this holds because no run leads to itself; from right to left it is an invariant
of splitting.

What keeps two tasks apart is read off the finished plan, so the barriers that splitting has set count
like those that were given. The statement is about edges. Two tasks of a stage need not be connected
by one, but then a path of such edges joins them, forward or backward, and what all its edges have in
common, the platform, all its tasks have in common.

* `Joined.platform`, `Joined.eq_or`: what the tasks of a run have in common.
* `exists_plan_of_firstRuns`: plans without a split.
* **`assign_partitioned`**: the stages of every plan.

Edges into tasks that are not needed are left out of the statement, for planning does not look at
them. A channel into the body input of a loop head that no sink depends on keeps the flag it had
(`asideLoop_no_barrier`), although every such channel of a needed loop head becomes a barrier. The
exception of feedback is no accident either: a loop head may read its own iteration, and then the edge
lies inside its stage, barrier or not.
-/

namespace Dataflow

/-! ## Tasks of one run -/

theorem isJoinable_ofInput {g : TaskGraph} {t : TaskId} {i : Nat} {c : ChannelId} :
    (Edge.ofInput g t i c).isJoinable = true ↔ i ∉ (g.task t).operator.bodyInputs ∧
      (g.task (g.channel c).producer).operator.platform = (g.task t).operator.platform ∧
      (g.task (g.channel c).producer).isLoopHead = false ∧ (g.task t).isLoopHead = false := by
  unfold Edge.isJoinable Edge.ofInput
  simp only [Bool.and_eq_true, Bool.not_eq_true', Bool.or_eq_false_iff, and_assoc,
    bne_eq_false_iff_eq]
  rw [← Bool.not_eq_true, List.contains_iff_mem]
  refine and_congr_right fun _ => and_congr_right ?_
  intro _
  exact and_comm

namespace Runs

variable {g : TaskGraph} {tasks : List TaskId} {t u : TaskId}

theorem Joined.platform (h : Joined g tasks t u) :
    (g.task t).operator.platform = (g.task u).operator.platform := by
  induction h with
  | rel a b hab =>
    obtain ⟨e, he, heq⟩ := List.mem_map.mp hab
    obtain ⟨rfl, rfl⟩ := Prod.mk.inj heq
    obtain ⟨hamong, hj, -⟩ := mem_innerEdges.mp he
    obtain ⟨v, -, i, c, -, rfl⟩ := mem_among_iff.mp hamong
    exact (isJoinable_ofInput.mp hj).2.1
  | refl a => rfl
  | symm a b _ ih => exact ih.symm
  | trans a b c _ _ ih1 ih2 => exact ih1.trans ih2

/-- No loop head is joined with another task. -/
theorem Joined.eq_or (h : Joined g tasks t u) :
    t = u ∨ ((g.task t).isLoopHead = false ∧ (g.task u).isLoopHead = false) := by
  induction h with
  | rel a b hab =>
    obtain ⟨e, he, heq⟩ := List.mem_map.mp hab
    obtain ⟨rfl, rfl⟩ := Prod.mk.inj heq
    obtain ⟨hamong, hj, -⟩ := mem_innerEdges.mp he
    obtain ⟨v, -, i, c, -, rfl⟩ := mem_among_iff.mp hamong
    exact Or.inr (isJoinable_ofInput.mp hj).2.2
  | refl a => exact Or.inl rfl
  | symm a b _ ih => exact ih.imp Eq.symm And.symm
  | trans a b c _ _ ih1 ih2 =>
    rcases ih1 with rfl | h1
    · exact ih2
    · rcases ih2 with rfl | h2
      · exact Or.inr h1
      · exact Or.inr ⟨h1.1, h2.2⟩

end Runs

namespace PreliminaryPlan

/-! ## The partition -/

/-- What holds of the stages of a plan. -/
structure Partitioned (p : PreliminaryPlan) (plan : Plan) : Prop where
  /-- Planning changes no connection and no operator. -/
  wiring : p.graph.SameWiring plan.graph
  operator : ∀ t, (plan.graph.task t).operator = (p.graph.task t).operator
  nonempty : ∀ s < plan.stages.length, (plan.stage s).tasks ≠ []
  /-- A needed task is listed once, in one stage. -/
  unique : ∀ t, p.Needs t → ∃! s, s < plan.stages.length ∧ t ∈ (plan.stage s).tasks
  nodup : ∀ s < plan.stages.length, (plan.stage s).tasks.Nodup
  /-- No other tasks are listed. -/
  needed : ∀ s < plan.stages.length, ∀ t ∈ (plan.stage s).tasks, p.Needs t
  stage_eq : ∀ s < plan.stages.length, ∀ t ∈ (plan.stage s).tasks,
    (plan.graph.task t).stage = some s
  stage_none : ∀ t, ¬ p.Needs t → (plan.graph.task t).stage = none
  platform : ∀ s < plan.stages.length, ∀ t ∈ (plan.stage s).tasks,
    (plan.graph.task t).operator.platform = (plan.stage s).platform
  /-- A loop head is alone in its stage. -/
  alone : ∀ s < plan.stages.length, ∀ t ∈ (plan.stage s).tasks,
    (plan.graph.task t).isLoopHead = true → (plan.stage s).tasks = [t]
  /-- An edge that is no feedback lies inside a stage iff nothing keeps its ends apart. -/
  together : ∀ t i c, p.Needs t → (plan.graph.task t).inputChannel i = some c →
    i ∉ (plan.graph.task t).operator.bodyInputs →
    ((plan.graph.task (plan.graph.channel c).producer).stage = (plan.graph.task t).stage ↔
      (plan.graph.task (plan.graph.channel c).producer).operator.platform =
        (plan.graph.task t).operator.platform ∧
      (plan.graph.channel c).barrier = false ∧
      (plan.graph.task (plan.graph.channel c).producer).isLoopHead = false ∧
      (plan.graph.task t).isLoopHead = false)
  /-- Feedback is a barrier. -/
  feedback : ∀ t i c, p.Needs t → (plan.graph.task t).inputChannel i = some c →
    i ∈ (plan.graph.task t).operator.bodyInputs → (plan.graph.channel c).barrier = true

section Partition

variable {p : PreliminaryPlan} {r : Runs} {plan : Plan}

/-- The finished plan of every successful assignment. -/
theorem finished_of_assign (hg : p.graph.Built) (h : p.assign = .ok plan) :
    ∃ r, p.firstRuns.resolve = .ok r ∧ Finished p.graph p.plannedTasks r plan := by
  obtain ⟨hs, -, -, r, hr, hres, hm⟩ := assign_eq_ok hg h
  exact ⟨r, hr, finished_of_materialize (isScope_plannedTasks hg.wired hs) hres hm⟩

/-- A channel that one task reads is read in one stage. -/
theorem readOnce_of_reader (hg : p.graph.Built) (h : ∀ t t' i i' c,
    (p.graph.task t).inputChannel i = some c → (p.graph.task t').inputChannel i' = some c →
      t = t') : p.ReadOnce := by
  intro r _ c hc _ k hk k' hk' _ _
  have hin : ∀ k ∈ (p.graph.channel c).consumers,
      (p.graph.task k.task).inputChannel k.input = some c := fun k hk =>
    (hg.wired.input_iff _ _ c).mpr ⟨hc, hk⟩
  rw [h _ _ _ _ _ (hin k hk) (hin k' hk')]

/-- When the first runs form no cycle, they become the stages. -/
theorem exists_plan_of_firstRuns (hg : p.graph.Built) (hs : p.SinksKnown) (hf : p.InputsFed)
    (ha : p.Acyclic) (hr : p.ReadOnce) (hc : p.firstRuns.findCycle = none) :
    ∃ plan, p.assign = .ok plan ∧ Finished p.graph p.plannedTasks p.firstRuns plan := by
  have hok : ∃ plan, p.assign = .ok plan := by
    rcases assign_cases hg with ⟨hn, -⟩ | ⟨-, hn, -⟩ | ⟨-, hn, -⟩ | ⟨-, -, hn, -⟩ |
      ⟨-, -, -, ⟨-, hok⟩ | ⟨hn, -⟩⟩
    · exact absurd hn hs.1
    · exact absurd hs hn
    · exact absurd hf hn
    · exact absurd ha hn
    · exact hok
    · exact absurd hr hn
  obtain ⟨plan, hp⟩ := hok
  obtain ⟨r, hres, hfin⟩ := finished_of_assign hg hp
  obtain rfl : p.firstRuns = r :=
    Except.ok.inj ((Runs.resolve_of_findCycle_none hc).symm.trans hres)
  exact ⟨plan, hp, hfin⟩

namespace Finished

variable {g : TaskGraph} {tasks : List TaskId}

theorem isLoopHead (h : Finished g tasks r plan) (t : TaskId) :
    (plan.graph.task t).isLoopHead = (g.task t).isLoopHead := by
  unfold Task.isLoopHead
  rw [h.operator]

theorem stage_of_mem (h : Finished g tasks r plan) {t : TaskId} (ht : t ∈ tasks) :
    (plan.graph.task t).stage = some (r.place t) := by
  rw [h.task, if_pos ht]

/-- Two tasks of a stage are joined. -/
theorem joined (hs : g.IsScope tasks) (h : Finished g tasks r plan) {s : StageId} (hlt : s < r.count)
    {t u : TaskId} (ht : t ∈ (plan.stage s).tasks) (hu : u ∈ (plan.stage s).tasks) :
    Runs.Joined g tasks t u := by
  obtain ⟨ht, hts⟩ := (h.mem_tasks hlt).mp ht
  obtain ⟨hu, hus⟩ := (h.mem_tasks hlt).mp hu
  refine h.resolved.valid.joined t ht u hu ?_
  exact (h.resolved.place_eq_iff hs ht hu).mp (hts.trans hus.symm)

theorem nodup_tasks (hs : g.IsScope tasks) (h : Finished g tasks r plan) {s : StageId}
    (hlt : s < r.count) : (plan.stage s).tasks.Nodup := by
  obtain ⟨head, hst⟩ := h.stage hlt
  rw [hst]
  change (r.tasks.filter fun t => r.place t == s).Nodup
  rw [h.resolved.valid.tasks_eq]
  exact hs.nodup.filter _

theorem tasks_ne_nil (hs : g.IsScope tasks) (h : Finished g tasks r plan) {s : StageId}
    (hlt : s < r.count) : (plan.stage s).tasks ≠ [] := by
  obtain ⟨t, ht, hp⟩ := h.resolved.exists_place_eq hs hlt
  exact List.ne_nil_of_mem ((h.mem_tasks hlt).mpr ⟨ht, hp⟩)

/-- The platform of a stage is that of its first task, and so that of all of them. -/
theorem platform_eq (hs : g.IsScope tasks) (h : Finished g tasks r plan) {s : StageId}
    (hlt : s < r.count) {t : TaskId} (ht : t ∈ (plan.stage s).tasks) :
    (plan.graph.task t).operator.platform = (plan.stage s).platform := by
  have hplatform : (plan.stage s).platform =
      (g.task ((plan.stage s).tasks.headD 0)).operator.platform := by
    obtain ⟨head, hst⟩ := h.stage hlt
    rw [hst]
    rfl
  have hhead : (plan.stage s).tasks.headD 0 ∈ (plan.stage s).tasks := by
    cases hl : (plan.stage s).tasks with
    | nil =>
      rw [hl] at ht
      exact absurd ht List.not_mem_nil
    | cons u us => exact List.mem_cons_self
  rw [hplatform, h.operator]
  exact (h.joined hs hlt ht hhead).platform

theorem tasks_eq_singleton (hs : g.IsScope tasks) (h : Finished g tasks r plan) {s : StageId}
    (hlt : s < r.count) {t : TaskId} (ht : t ∈ (plan.stage s).tasks)
    (hhead : (plan.graph.task t).isLoopHead = true) : (plan.stage s).tasks = [t] := by
  have hall : ∀ u ∈ (plan.stage s).tasks, u = t := fun u hu => by
    rcases (h.joined hs hlt ht hu).eq_or with heq | ⟨hno, -⟩
    · exact heq.symm
    · rw [h.isLoopHead, hno] at hhead
      exact absurd hhead (by simp)
  have hnodup := h.nodup_tasks hs hlt
  rw [List.eq_replicate_of_mem hall] at hnodup ht ⊢
  generalize (plan.stage s).tasks.length = n at hnodup ht ⊢
  match n with
  | 0 => exact absurd ht List.not_mem_nil
  | 1 => rfl
  | n + 2 => exact absurd hnodup (by simp [List.replicate_succ])

theorem together (hs : g.IsScope tasks) (hw : g.Wired) (h : Finished g tasks r plan) {t : TaskId}
    {i : Nat} {c : ChannelId} (ht : t ∈ tasks) (hc : (g.task t).inputChannel i = some c)
    (hi : i ∉ (g.task t).operator.bodyInputs) :
    (plan.graph.task (g.channel c).producer).stage = (plan.graph.task t).stage ↔
      (g.task (g.channel c).producer).operator.platform = (g.task t).operator.platform ∧
      (plan.graph.channel c).barrier = false ∧
      (g.task (g.channel c).producer).isLoopHead = false ∧ (g.task t).isLoopHead = false := by
  have he : Edge.ofInput g t i c ∈ Edge.among g tasks := mem_among_iff.mpr ⟨t, ht, i, c, hc, rfl⟩
  have hprod : (g.channel c).producer ∈ tasks := (hs.ends_mem he).1
  have hf : (Edge.ofInput g t i c).feedback = false :=
    Bool.eq_false_iff.mpr fun hb => hi (List.contains_iff_mem.mp hb)
  have hbarrier := h.barrier_eq he ((hw.input_iff t i c).mp hc).1
  rw [h.stage_of_mem hprod, h.stage_of_mem ht, Option.some.injEq]
  refine (h.resolved.isLocal_iff hs he hf).symm.trans ?_
  change _ = r.barriers.contains c at hbarrier
  unfold Runs.isLocal
  rw [Bool.and_eq_true, isJoinable_ofInput, Bool.not_eq_true']
  change _ ∧ r.barriers.contains c = false ↔ _
  rw [← hbarrier]
  tauto

theorem feedback (hw : g.Wired) (h : Finished g tasks r plan) {t : TaskId} {i : Nat}
    {c : ChannelId} (ht : t ∈ tasks) (hc : (g.task t).inputChannel i = some c)
    (hi : i ∈ (g.task t).operator.bodyInputs) : (plan.graph.channel c).barrier = true := by
  have he : Edge.ofInput g t i c ∈ Edge.among g tasks := mem_among_iff.mpr ⟨t, ht, i, c, hc, rfl⟩
  have hf : (Edge.ofInput g t i c).feedback = true := List.contains_iff_mem.mpr hi
  refine (h.barrier_eq he ((hw.input_iff t i c).mp hc).1).trans (List.contains_iff_mem.mpr ?_)
  refine h.resolved.valid.given _ (List.mem_map_of_mem (List.mem_filter.mpr ⟨he, ?_⟩))
  rw [hf, Bool.true_or]

end Finished

/-- **The stages of a plan**: they are not empty and partition the needed tasks, each on one
platform and with its loop head alone, and an edge that is no feedback lies inside a stage iff
nothing keeps its ends apart. -/
theorem assign_partitioned (hg : p.graph.Built) (h : p.assign = .ok plan) : p.Partitioned plan := by
  obtain ⟨hs, -⟩ := assign_eq_ok hg h
  obtain ⟨r, -, hfin⟩ := finished_of_assign hg h
  have hscope := isScope_plannedTasks hg.wired hs
  have hneeds : ∀ t, t ∈ p.plannedTasks ↔ p.Needs t := fun t => mem_plannedTasks hg.wired hs
  have hw := hfin.sameWiring
  refine ⟨hw, hfin.operator, ?_, ?_, ?_, ?_, ?_, ?_, ?_, ?_, ?_, ?_⟩ <;>
    try rw [hfin.length_stages]
  · exact fun s hlt => hfin.tasks_ne_nil hscope hlt
  · intro t ht
    rw [← hneeds] at ht
    have hlt := hfin.resolved.place_lt_count hscope ht
    refine ⟨r.place t, ⟨hlt, (hfin.mem_tasks hlt).mpr ⟨ht, rfl⟩⟩, ?_⟩
    rintro s ⟨hlt, hmem⟩
    exact ((hfin.mem_tasks hlt).mp hmem).2.symm
  · exact fun s hlt => hfin.nodup_tasks hscope hlt
  · exact fun s hlt t ht => (hneeds t).mp ((hfin.mem_tasks hlt).mp ht).1
  · intro s hlt t ht
    obtain ⟨ht, hp⟩ := (hfin.mem_tasks hlt).mp ht
    rw [hfin.stage_of_mem ht, hp]
  · intro t hn
    rw [hfin.task, if_neg fun ht => hn ((hneeds t).mp ht)]
    exact hg.unplaced t
  · exact fun s hlt t ht => hfin.platform_eq hscope hlt ht
  · exact fun s hlt t ht => hfin.tasks_eq_singleton hscope hlt ht
  · intro t i c ht hc hi
    rw [hw.input] at hc
    rw [hfin.operator] at hi
    rw [hw.producer, hfin.operator, hfin.operator, hfin.isLoopHead, hfin.isLoopHead]
    exact hfin.together hscope hg.wired ((hneeds t).mpr ht) hc hi
  · intro t i c ht hc hi
    rw [hw.input] at hc
    rw [hfin.operator] at hi
    exact hfin.feedback hg.wired ((hneeds t).mpr ht) hc hi

/-- Reading and joining are in two stages, with sorting between them. -/
theorem interleaved_partitioned : (interleaved .collection).graph.Built ∧
    ∃ plan, (interleaved .collection).assign = .ok plan ∧ plan.stages.length = 3 ∧
      (interleaved .collection).Partitioned plan := by
  have hlen : ((interleaved .collection).assign.map fun plan => plan.stages.length) = .ok 3 := by
    decide +kernel
  refine ⟨built_interleaved _, ?_⟩
  cases h : (interleaved .collection).assign with
  | error e =>
    rw [h] at hlen
    exact absurd hlen (by simp [Except.map])
  | ok plan =>
    rw [h] at hlen
    exact ⟨plan, rfl, Except.ok.inj hlen, assign_partitioned (built_interleaved _) h⟩

/-- An operator, and a loop that repeats what the operator feeds but is not asked for. -/
def asideLoop : PreliminaryPlan where
  graph := ((TaskGraph.empty.addTask
    { object := 0, name := "read", platform := ⟨"a"⟩, inputs := [], outputs := [.any] }).addTask
    { object := 1, name := "loop", platform := ⟨"a"⟩, inputs := [.any, .any, .any, .any],
      outputs := [.any, .any, .any], loopRoles := some {} }).wire 0 0 1 2 .collection
  sinks := [0]

/-- Feedback into a loop head that is not needed is left as it is: no barrier. -/
theorem asideLoop_no_barrier : asideLoop.graph.Built ∧ ∃ plan, asideLoop.assign = .ok plan ∧
    (plan.graph.task 1).isLoopHead = true ∧ 2 ∈ (plan.graph.task 1).operator.bodyInputs ∧
    (plan.graph.task 1).inputChannel 2 = some 0 ∧ (plan.graph.channel 0).barrier = false := by
  have hcheck : (asideLoop.assign.map fun plan => ((plan.graph.task 1).isLoopHead,
      (plan.graph.task 1).operator.bodyInputs, (plan.graph.task 1).inputChannel 2,
      (plan.graph.channel 0).barrier)) = .ok (true, [2, 3], some 0, false) := by
    decide +kernel
  refine ⟨.wire (.addTask _ (.addTask _ .empty)) rfl, ?_⟩
  cases h : asideLoop.assign with
  | error e =>
    rw [h] at hcheck
    exact absurd hcheck (by simp [Except.map])
  | ok plan =>
    rw [h] at hcheck
    have heq := Except.ok.inj hcheck
    simp only [Prod.mk.injEq] at heq
    obtain ⟨hhead, hbody, hinput, hbarrier⟩ := heq
    exact ⟨plan, rfl, hhead, by rw [hbody]; decide, hinput, hbarrier⟩

end Partition

end PreliminaryPlan

end Dataflow
