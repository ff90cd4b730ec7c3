import Dataflow.Proofs.Execution.HeadRun
import Dataflow.Proofs.Loop.Shape
import Dataflow.Proofs.Plan.StageGraph

/-!
# The stages of a while loop

Planning a while loop needs no split: the source, the loop head, each segment of the body and the
sink become one stage each, in whatever order they are numbered.

The stages are numbered by the order in which runs become free, which depends on the numbers of the
tasks, so nothing is said of the numbers. A stage is known by the rank of its tasks.

* `findCycle_firstRuns`, **`exists_plan`**: there is a plan, made of the first runs.
* **`place_eq_iff`**: two tasks are in one stage iff they have the same rank.
* `exists_links_of_predecessor`, `mem_predecessors_of_links`: the stages that a stage waits for.
* `loopHead_eq`: the stage of the head.
-/

namespace Dataflow

namespace PreliminaryPlan.PlansWhile

variable {p : PreliminaryPlan} {w : WhileLoop}

/-! ## Runs -/

theorem scope (h : p.PlansWhile w) : p.graph.IsScope p.plannedTasks :=
  isScope_plannedTasks h.graph.built.wired h.known

/-- Tasks that are executed together have one rank. -/
theorem rank_eq_of_joined (h : p.PlansWhile w) {t u : TaskId}
    (hj : Runs.Joined p.graph p.plannedTasks t u) : w.rank p.graph t = w.rank p.graph u := by
  induction hj with
  | rel a b hab =>
    obtain ⟨e, he, heq⟩ := List.mem_map.mp hab
    obtain ⟨rfl, rfl⟩ := Prod.mk.inj heq
    obtain ⟨hamong, hjoin, -⟩ := Runs.mem_innerEdges.mp he
    obtain ⟨v, -, i, c, hc, rfl⟩ := mem_among_iff.mp hamong
    exact h.graph.rank_eq_of_joinable hc hjoin
  | refl a => rfl
  | symm a b _ ih => exact ih.symm
  | trans a b c _ _ ih1 ih2 => exact ih1.trans ih2

/-- Inside a segment nothing keeps neighbours apart. -/
theorem isLocal_of_rank_eq (h : p.PlansWhile w) {t : TaskId} {i : Nat} {c : ChannelId}
    (hc : (p.graph.task t).inputChannel i = some c)
    (hi : i ∉ (p.graph.task t).operator.bodyInputs)
    (heq : w.rank p.graph (p.graph.channel c).producer = w.rank p.graph t) :
    p.firstRuns.isLocal (Edge.ofInput p.graph t i c) = true := by
  rcases h.graph.rank_lt_or_joinable hc hi with hlt | ⟨-, hjoin, before, after, hb⟩
  · omega
  · refine Runs.isLocal_initial.mpr ⟨hjoin, fun hgiven => ?_⟩
    unfold Runs.givenBarriers at hgiven
    obtain ⟨e, he, hce⟩ := List.mem_map.mp hgiven
    obtain ⟨he, hflag⟩ := List.mem_filter.mp he
    obtain ⟨u, hu, j, d, hd, rfl⟩ := mem_among_iff.mp he
    obtain rfl : d = c := hce
    change ((Edge.ofInput p.graph u j d).feedback || (p.graph.channel d).barrier) = true at hflag
    rw [h.graph.unmarked, Bool.or_false] at hflag
    -- feedback is read by the head, what is read inside a segment is not
    obtain ⟨hhead, -⟩ := (h.graph.mem_bodyInputs (h.mem_planned.mp hu)).mp
      (List.contains_iff_mem.mp hflag)
    have htu := h.consumer_eq hc hd
    exact h.graph.distinct.head_notMem (hhead ▸ htu ▸ (WhileLoop.mem_of_step hb).2)

theorem valid_firstRuns (h : p.PlansWhile w) :
    p.firstRuns.Valid p.graph p.plannedTasks := Runs.valid_initial h.scope

/-- The runs form no cycle from the start: from run to run the rank rises. -/
theorem findCycle_firstRuns (h : p.PlansWhile w) : p.firstRuns.findCycle = none := by
  refine h.valid_firstRuns.findCycle_eq_none h.scope
    (R := fun t u => w.rank p.graph t < w.rank p.graph u) (fun _ _ _ => Nat.lt_trans)
    (fun _ => Nat.lt_irrefl _) (fun t u v hj => h.rank_eq_of_joined hj ▸ id) fun e he hsep => ?_
  obtain ⟨t, -, i, c, hch, rfl⟩ := mem_among_iff.mp he
  have hi := PreliminaryPlan.Finished.feedback_ofInput.mp (Runs.feedback_of_separates hsep)
  rcases h.graph.rank_lt_or_joinable hch hi with hlt | ⟨heq, -⟩
  · exact hlt
  · have hlocal := h.isLocal_of_rank_eq hch hi heq
    have hrun := h.valid_firstRuns.run_eq _ he hlocal
    unfold Runs.separates at hsep
    simp [hlocal, hrun] at hsep

theorem resolved (h : p.PlansWhile w) : p.firstRuns.Resolved p.graph p.plannedTasks :=
  ⟨h.valid_firstRuns, h.findCycle_firstRuns⟩

/-- **A while loop can be planned**, and its stages are its first runs. -/
theorem exists_plan (h : p.PlansWhile w) : ∃ plan, p.assign = .ok plan ∧
    Finished p.graph p.plannedTasks p.firstRuns plan :=
  exists_plan_of_firstRuns h.graph.built h.known h.inputsFed h.acyclic
    (readOnce_of_reader h.graph.built fun _ _ _ _ _ => h.consumer_eq) h.findCycle_firstRuns

/-! ## Places -/

/-- The stage of a task. -/
def place (p : PreliminaryPlan) (t : TaskId) : StageId := p.firstRuns.place t

/-- The tasks of a segment are executed together. -/
theorem run_eq_of_rank_eq (h : p.PlansWhile w) : ∀ {after before : List TaskId} {u v : TaskId},
    w.body = before ++ u :: after → v ∈ after → w.rank p.graph u = w.rank p.graph v →
      p.firstRuns.run u = p.firstRuns.run v
  | t :: after, before, u, v, hb, hv, heq => by
    have hb' : w.body = (before ++ [u]) ++ t :: after := by simpa using hb
    have hle : w.rank p.graph u ≤ w.rank p.graph t := h.graph.rank_mono hb List.mem_cons_self
    have hle' : w.rank p.graph t ≤ w.rank p.graph v := by
      rcases List.mem_cons.mp hv with rfl | hv
      · exact Nat.le_refl _
      · exact h.graph.rank_mono hb' hv
    obtain ⟨c, hc, -, -, hp, -⟩ := h.graph.exists_input (.step hb)
    have ht : t ∈ w.tasks := by simp [WhileLoop.tasks, hb]
    have hi : 0 ∉ (p.graph.task t).operator.bodyInputs := by
      rw [h.graph.mem_bodyInputs ht]
      simp
    have hrank : w.rank p.graph (p.graph.channel c).producer = w.rank p.graph t := by
      rw [hp]
      omega
    have hut : p.firstRuns.run u = p.firstRuns.run t := by
      have hrun := h.valid_firstRuns.run_eq _
        (Finished.edge_mem (h.mem_planned.mpr ht) hc) (h.isLocal_of_rank_eq hc hi hrank)
      rw [← hp]
      exact hrun
    rcases List.mem_cons.mp hv with rfl | hv
    · exact hut
    · exact hut.trans (h.run_eq_of_rank_eq hb' hv (by omega))

/-- **Two tasks are in one stage iff they have one rank.** -/
theorem place_eq_iff (h : p.PlansWhile w) {t u : TaskId} (ht : t ∈ w.tasks) (hu : u ∈ w.tasks) :
    place p t = place p u ↔ w.rank p.graph t = w.rank p.graph u := by
  have ht' := h.mem_planned.mpr ht
  have hu' := h.mem_planned.mpr hu
  unfold place
  rw [h.resolved.place_eq_iff h.scope ht' hu']
  refine ⟨fun hrun => h.rank_eq_of_joined (h.valid_firstRuns.joined t ht' u hu' hrun),
    fun heq => ?_⟩
  rcases h.graph.eq_or_mem_body ht hu heq with rfl | ⟨hbt, hbu⟩
  · rfl
  · obtain ⟨before, after, hb⟩ := List.append_of_mem hbt
    rw [hb, List.mem_append, List.mem_cons] at hbu
    rcases hbu with hbu | rfl | hbu
    · obtain ⟨before', after', rfl⟩ := List.append_of_mem hbu
      have hb' : w.body = before' ++ u :: (after' ++ t :: after) := by simpa using hb
      exact (h.run_eq_of_rank_eq hb' (by simp) heq.symm).symm
    · rfl
    · exact h.run_eq_of_rank_eq hb hbu heq

/-- Every stage is that of some task. -/
theorem exists_place (h : p.PlansWhile w) {s : StageId} (hs : s < p.firstRuns.count) :
    ∃ t ∈ w.tasks, place p t = s := by
  obtain ⟨t, ht, hp⟩ := h.resolved.exists_place_eq h.scope hs
  exact ⟨t, h.mem_planned.mp ht, hp⟩

theorem place_lt_count (h : p.PlansWhile w) {t : TaskId} (ht : t ∈ w.tasks) :
    place p t < p.firstRuns.count := h.resolved.place_lt_count h.scope (h.mem_planned.mpr ht)

/-! ## What is recorded of a stage -/

section Recorded

variable {plan : Plan}

theorem mem_stage (h : p.PlansWhile w) (hfin : Finished p.graph p.plannedTasks p.firstRuns plan)
    {t u : TaskId} (hu : u ∈ w.tasks) : t ∈ (plan.stage (place p u)).tasks ↔
      t ∈ w.tasks ∧ w.rank p.graph t = w.rank p.graph u := by
  rw [hfin.mem_tasks (h.place_lt_count hu), h.mem_planned]
  exact and_congr_right fun ht => h.place_eq_iff ht hu

/-- A stage waits for stages that feed it and come earlier. -/
theorem exists_links_of_predecessor (h : p.PlansWhile w)
    (hfin : Finished p.graph p.plannedTasks p.firstRuns plan) {u : TaskId} (hu : u ∈ w.tasks)
    {q : StageId} (hq : q ∈ (plan.stage (place p u)).predecessors) :
    ∃ v o t i, w.Links v o t i ∧ w.rank p.graph t = w.rank p.graph u ∧
      w.rank p.graph v < w.rank p.graph t ∧ q = place p v := by
  obtain ⟨-, e, he, hf, hplace, rfl, hne⟩ := (hfin.mem_predecessors (h.place_lt_count hu)).mp hq
  obtain ⟨t, ht, i, c, hc, rfl⟩ := mem_among_iff.mp he
  have hmem := h.mem_planned.mp ht
  have hlinks := h.graph.links_of_input hc
  have hi := Finished.feedback_ofInput.mp hf
  refine ⟨_, _, t, i, hlinks, (h.place_eq_iff hmem hu).mp hplace, ?_, rfl⟩
  rcases h.graph.rank_lt_or_joinable hc hi with hlt | ⟨heq, -⟩
  · exact hlt
  · exact absurd ((h.place_eq_iff (WhileLoop.mem_of_links hlinks).1 hmem).mpr heq) hne

theorem mem_predecessors_of_links (h : p.PlansWhile w)
    (hfin : Finished p.graph p.plannedTasks p.firstRuns plan) {v t : TaskId} {o i : Nat}
    (hl : w.Links v o t i) (hi : i < 2) (hlt : w.rank p.graph v < w.rank p.graph t) :
    place p v ∈ (plan.stage (place p t)).predecessors := by
  obtain ⟨hv, ht⟩ := WhileLoop.mem_of_links hl
  obtain ⟨c, hc, -, -, rfl, -⟩ := h.graph.exists_input hl
  have hi : i ∉ (p.graph.task t).operator.bodyInputs := by
    rw [h.graph.mem_bodyInputs ht]
    omega
  have hne : place p (p.graph.channel c).producer ≠ place p t := fun heq => by
    have := (h.place_eq_iff hv ht).mp heq
    omega
  exact (hfin.mem_predecessors (h.place_lt_count ht)).mpr ⟨h.place_lt_count hv, _,
    Finished.edge_mem (h.mem_planned.mpr ht) hc, Finished.feedback_ofInput.mpr hi, rfl, rfl, hne⟩

theorem tasks_head (h : p.PlansWhile w) (hfin : Finished p.graph p.plannedTasks p.firstRuns plan) :
    (plan.stage (place p w.head)).tasks = [w.head] := by
  have hmem : w.head ∈ w.tasks := by simp [WhileLoop.tasks]
  refine hfin.tasks_eq_singleton h.scope (h.place_lt_count hmem)
    ((h.mem_stage hfin hmem).mpr ⟨hmem, rfl⟩) ?_
  rw [hfin.isLoopHead]
  exact (h.graph.isLoopHead_iff hmem).mpr rfl

/-- The head is a loop head, and no other task. -/
theorem loopHead_eq (h : p.PlansWhile w)
    (hfin : Finished p.graph p.plannedTasks p.firstRuns plan) {u : TaskId} (hu : u ∈ w.tasks) :
    (plan.stage (place p u)).loopHead = if u = w.head then some w.head else none := by
  have hfirst : (plan.stage (place p u)).loopHead =
      if (p.graph.task ((plan.stage (place p u)).tasks.headD 0)).isLoopHead then
        some ((plan.stage (place p u)).tasks.headD 0) else none := by
    obtain ⟨head, hst⟩ := hfin.stage (h.place_lt_count hu)
    rw [hst]
    rfl
  rw [hfirst]
  by_cases hhead : u = w.head
  · rw [if_pos hhead, hhead, h.tasks_head hfin]
    exact if_pos ((h.graph.isLoopHead_iff (hhead ▸ hu)).mpr rfl)
  · rw [if_neg hhead]
    refine if_neg fun hloop => hhead ?_
    have hne := hfin.tasks_ne_nil h.scope (h.place_lt_count hu)
    have hmem : (plan.stage (place p u)).tasks.headD 0 ∈ (plan.stage (place p u)).tasks := by
      obtain ⟨t, ts, hts⟩ := List.exists_cons_of_ne_nil hne
      rw [hts]
      exact List.mem_cons_self
    obtain ⟨hmem, hrank⟩ := (h.mem_stage hfin hu).mp hmem
    rw [(h.graph.isLoopHead_iff hmem).mp hloop] at hrank
    have hw : w.head ∈ w.tasks := by simp [WhileLoop.tasks]
    rcases h.graph.eq_or_mem_body hu hw hrank.symm with he | ⟨-, hb⟩
    · exact he
    · exact absurd hb h.graph.distinct.head_notMem

end Recorded

end PreliminaryPlan.PlansWhile

end Dataflow
