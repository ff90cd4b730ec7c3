import Dataflow.Proofs.Loop.Body

/-!
# Plans that keep their tasks apart

Where every connection has a loop head at one of its ends, planning puts every task into a stage of
its own. The stages then wait for each other as the tasks feed each other, and all that is fed goes
through the execution state.

* `KeepsApart`: the condition on the preliminary plan.
* **`KeepsApart.exists_plan`**: there is a plan, made of the first runs.
* `place_inj`, `tasks_place`, `mem_predecessors`, `mem_successors`: the stages.
* **`KeepsApart.isAlone`**: each task is alone, as execution finds it.

Plans of this kind are the simplest with loops, as each stage execution is one evaluation. Nested
loops are studied in this form (`Dataflow.Proofs.Loop.Nested.Shape`).
-/

namespace Dataflow

namespace PreliminaryPlan

/-- Every connection between needed tasks has a loop head at one of its ends, and every channel is
read by one task. -/
structure KeepsApart (p : PreliminaryPlan) : Prop where
  built : p.graph.Built
  known : p.SinksKnown
  fed : p.InputsFed
  acyclic : p.Acyclic
  heads : ∀ t, p.Needs t → ∀ i c, (p.graph.task t).inputChannel i = some c →
    (p.graph.task (p.graph.channel c).producer).isLoopHead = true ∨
      (p.graph.task t).isLoopHead = true
  reader : ∀ t t' i i' c, (p.graph.task t).inputChannel i = some c →
    (p.graph.task t').inputChannel i' = some c → t = t'

namespace KeepsApart

variable {p : PreliminaryPlan} {plan : Plan} {t u : TaskId}

/-! ## Runs -/

theorem scope (h : p.KeepsApart) : p.graph.IsScope p.plannedTasks :=
  isScope_plannedTasks h.built.wired h.known

theorem mem_planned (h : p.KeepsApart) : t ∈ p.plannedTasks ↔ p.Needs t :=
  mem_plannedTasks h.built.wired h.known

theorem valid (h : p.KeepsApart) : p.firstRuns.Valid p.graph p.plannedTasks :=
  Runs.valid_initial h.scope

/-- No task is executed together with another one. -/
theorem eq_of_joined (h : p.KeepsApart) (hj : Runs.Joined p.graph p.plannedTasks t u) : t = u := by
  have hnone : Runs.innerEdges p.graph p.plannedTasks = [] := by
    refine List.eq_nil_iff_forall_not_mem.mpr fun e he => ?_
    obtain ⟨hamong, hjoin, -⟩ := Runs.mem_innerEdges.mp he
    obtain ⟨v, hv, i, c, hc, rfl⟩ := mem_among_iff.mp hamong
    obtain ⟨-, -, hproducer, hconsumer⟩ := isJoinable_ofInput.mp hjoin
    rcases h.heads v (h.mem_planned.mp hv) i c hc with hh | hh
    · exact absurd (hproducer.symm.trans hh) (by simp)
    · exact absurd (hconsumer.symm.trans hh) (by simp)
  unfold Runs.Joined at hj
  rw [hnone] at hj
  exact Digraph.eq_of_connected_nil hj

theorem run_inj (h : p.KeepsApart) (ht : p.Needs t) (hu : p.Needs u)
    (heq : p.firstRuns.run t = p.firstRuns.run u) : t = u :=
  h.eq_of_joined (h.valid.joined t (h.mem_planned.mpr ht) u (h.mem_planned.mpr hu) heq)

/-- The runs form no cycle from the start: from run to run one goes as from task to task. -/
theorem resolved (h : p.KeepsApart) : p.firstRuns.Resolved p.graph p.plannedTasks := by
  refine ⟨h.valid, h.valid.findCycle_eq_none h.scope (R := Relation.TransGen p.Forward)
    (fun _ _ _ => .trans) h.acyclic (fun t u v hj => h.eq_of_joined hj ▸ id) fun e he hsep => ?_⟩
  obtain ⟨u, hu, i, c, hc, rfl⟩ := mem_among_iff.mp he
  have hi := Finished.feedback_ofInput.mp (Runs.feedback_of_separates hsep)
  exact .single ⟨h.mem_planned.mp hu, i, c, hc, rfl, hi⟩

/-- **Tasks that are kept apart can be planned**, and the stages are the first runs. -/
theorem exists_plan (h : p.KeepsApart) : ∃ plan, p.assign = .ok plan ∧
    Finished p.graph p.plannedTasks p.firstRuns plan :=
  exists_plan_of_firstRuns h.built h.known h.fed h.acyclic (readOnce_of_reader h.built h.reader)
    h.resolved.acyclic

/-! ## Stages -/

/-- Every task has a stage of its own. -/
theorem place_inj (h : p.KeepsApart) (ht : p.Needs t) (hu : p.Needs u) :
    p.firstRuns.place t = p.firstRuns.place u ↔ t = u := by
  rw [h.resolved.place_eq_iff h.scope (h.mem_planned.mpr ht) (h.mem_planned.mpr hu)]
  exact ⟨h.run_inj ht hu, congrArg _⟩

theorem place_lt (h : p.KeepsApart) (ht : p.Needs t) :
    p.firstRuns.place t < p.firstRuns.count :=
  h.resolved.place_lt_count h.scope (h.mem_planned.mpr ht)

theorem exists_place (h : p.KeepsApart) {s : StageId} (hs : s < p.firstRuns.count) :
    ∃ t, p.Needs t ∧ p.firstRuns.place t = s := by
  obtain ⟨t, ht, hp⟩ := h.resolved.exists_place_eq h.scope hs
  exact ⟨t, h.mem_planned.mp ht, hp⟩

section Recorded

variable (h : p.KeepsApart) (hfin : Finished p.graph p.plannedTasks p.firstRuns plan)
include h hfin

theorem tasks_place (ht : p.Needs t) : (plan.stage (p.firstRuns.place t)).tasks = [t] := by
  have hlt := h.place_lt ht
  have hmem : ∀ u, u ∈ (plan.stage (p.firstRuns.place t)).tasks ↔ u = t := fun u => by
    rw [hfin.mem_tasks hlt, h.mem_planned]
    constructor
    · exact fun hu => (h.place_inj hu.1 ht).mp hu.2
    · rintro rfl
      exact ⟨ht, rfl⟩
  have hnodup := hfin.nodup_tasks h.scope hlt
  exact List.perm_singleton.mp ((List.perm_ext_iff_of_nodup hnodup (List.nodup_singleton t)).mpr
    fun u => by rw [hmem, List.mem_singleton])

/-- A stage is that of a loop head iff its task is one. -/
theorem loopHead_place (ht : p.Needs t) : (plan.stage (p.firstRuns.place t)).loopHead =
    if (p.graph.task t).isLoopHead = true then some t else none := by
  have htasks := h.tasks_place hfin ht
  obtain ⟨head, hst⟩ := hfin.stage (h.place_lt ht)
  have hfirst : (plan.stage (p.firstRuns.place t)).loopHead =
      if (p.graph.task ((plan.stage (p.firstRuns.place t)).tasks.headD 0)).isLoopHead then
        some ((plan.stage (p.firstRuns.place t)).tasks.headD 0) else none := by
    rw [hst]
    rfl
  rw [hfirst, htasks]
  rfl

/-- A stage waits for the stages of the tasks that feed its own, but for feedback. -/
theorem mem_predecessors (ht : p.Needs t) {q : StageId} :
    q ∈ (plan.stage (p.firstRuns.place t)).predecessors ↔
      ∃ u, p.Forward u t ∧ q = p.firstRuns.place u := by
  rw [hfin.mem_predecessors (h.place_lt ht)]
  constructor
  · rintro ⟨-, e, he, hf, hplace, rfl, -⟩
    obtain ⟨u, hu, i, c, hc, rfl⟩ := mem_among_iff.mp he
    obtain rfl : u = t := (h.place_inj (h.mem_planned.mp hu) ht).mp hplace
    exact ⟨_, ⟨ht, i, c, hc, rfl, Finished.feedback_ofInput.mp hf⟩, rfl⟩
  · rintro ⟨u, ⟨-, i, c, hc, rfl, hi⟩, rfl⟩
    have hu := ht.of_feeds ⟨i, c, hc, rfl⟩
    refine ⟨h.place_lt hu, _, Finished.edge_mem (h.mem_planned.mpr ht) hc,
      Finished.feedback_ofInput.mpr hi, rfl, rfl, fun heq => ?_⟩
    -- a task does not feed itself
    exact h.acyclic t (.single ⟨ht, i, c, hc, (h.place_inj hu ht).mp heq, hi⟩)

omit hfin in
/-- The stages after a stage are those of the tasks that its own feeds, but for feedback. -/
theorem mem_successors (ht : p.Needs t) {q : StageId} :
    q ∈ ((PlansWhile.builtStages p).getD (p.firstRuns.place t) default).successors ↔
      ∃ u, p.Forward t u ∧ q = p.firstRuns.place u := by
  rw [PlansWhile.getD_builtStages (h.place_lt ht), Finished.mem_successors h.valid]
  constructor
  · rintro ⟨-, e, he, hf, hplace, rfl, -⟩
    obtain ⟨u, hu, i, c, hc, rfl⟩ := mem_among_iff.mp he
    have hn := h.mem_planned.mp hu
    have hp := (h.place_inj (hn.of_feeds ⟨i, c, hc, rfl⟩) ht).mp hplace
    exact ⟨u, ⟨hn, i, c, hc, hp, Finished.feedback_ofInput.mp hf⟩, rfl⟩
  · rintro ⟨u, ⟨hn, i, c, hc, rfl, hi⟩, rfl⟩
    refine ⟨h.place_lt hn, _, Finished.edge_mem (h.mem_planned.mpr hn) hc,
      Finished.feedback_ofInput.mpr hi, rfl, rfl, fun heq => ?_⟩
    exact h.acyclic u (.single ⟨hn, i, c, hc, (h.place_inj ht hn).mp heq, hi⟩)

/-- All inputs are fed through the execution state. -/
theorem isFedExternally (ht : p.Needs t) {i : Nat} {c : ChannelId}
    (hc : (p.graph.task t).inputChannel i = some c) : plan.isFedExternally t i = true := by
  have hw := h.built.wired
  have hmem := h.mem_planned.mpr ht
  by_cases hi : i ∈ (p.graph.task t).operator.bodyInputs
  · rw [isFedExternally_eq ((hfin.sameWiring.input t i).trans hc), hfin.feedback hw hmem hc hi,
      Bool.true_or]
  · rw [hfin.isFedExternally_iff hw h.scope hmem hc hi]
    intro heq
    have hproducer := (h.place_inj (ht.of_feeds ⟨i, c, hc, rfl⟩) ht).mp heq
    exact h.acyclic t (.single ⟨ht, i, c, hc, hproducer, hi⟩)

/-- All channels that are read leave their stage. -/
theorem isOutward (ht : p.Needs t) {i : Nat} {c : ChannelId}
    (hc : (p.graph.task t).inputChannel i = some c) : plan.isOutward c = true :=
  hfin.isOutward_of_external h.built.wired h.scope (h.mem_planned.mpr ht) hc
    (h.isFedExternally hfin ht hc)

/-- Nothing is fed inside of a stage. -/
theorem innerConsumers_eq_nil (ht : p.Needs t) {c : ChannelId} (hlt : c < plan.graph.channels.length)
    (hp : (plan.graph.channel c).producer = t) :
    Workspace.innerConsumers plan (p.firstRuns.place t) c = [] := by
  refine List.eq_nil_iff_forall_not_mem.mpr fun k hk => ?_
  obtain ⟨hs, hc, hb⟩ :=
    (Workspace.mem_innerConsumers (h.built.wired.congr hfin.sameWiring) hlt).mp hk
  have hkt := (hfin.mem_stage_iff h.built.unplaced (h.place_lt ht)).mp hs
  rw [h.tasks_place hfin ht, List.mem_singleton] at hkt
  subst hkt
  -- the task would read from itself
  have hx := h.isFedExternally hfin ht ((hfin.sameWiring.input _ _).symm.trans hc)
  rw [isFedExternally_eq hc, hb, hp] at hx
  simp at hx

/-- **A task that is kept apart is alone in its stage.** -/
theorem isAlone (ht : p.Needs t) : plan.IsAlone (p.firstRuns.place t) t := by
  have hlt := h.place_lt ht
  have htasks := h.tasks_place hfin ht
  have hstart : t ∈ (plan.stage (p.firstRuns.place t)).startTasks := by
    refine (hfin.mem_startTasks hlt).mpr ⟨htasks ▸ List.mem_singleton_self _, fun i c hc hi => ?_⟩
    exact (hfin.isFedExternally_iff h.built.wired h.scope (h.mem_planned.mpr ht) hc hi).mp
      (h.isFedExternally hfin ht hc)
  refine ⟨h.built.wired.congr hfin.sameWiring, htasks, ?_, fun i c hc => ?_, fun c hlt hp =>
    h.innerConsumers_eq_nil hfin ht hlt hp⟩
  · rw [hfin.startTasks_eq hlt, htasks] at hstart ⊢
    exact List.filter_eq_self.mpr fun u hu =>
      List.mem_singleton.mp hu ▸ (List.mem_filter.mp hstart).2
  · exact h.isFedExternally hfin ht ((hfin.sameWiring.input _ _).symm.trans hc)

end Recorded

end KeepsApart

end PreliminaryPlan

end Dataflow
