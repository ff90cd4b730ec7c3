import Dataflow.Proofs.Execution.Drive
import Dataflow.Proofs.Loop.Body

/-!
# When the stages of a while loop are ready

The head is alone in its stage, and the other stages are plain. What a task reads from another
stage, and all feedback, comes through the execution state.

* `isAlone_head`, `isPlain`: the stages as execution finds them.
* `isFedExternally_iff`, `isOutward_of_links`: the connections that leave a stage.
* `inboundReady_of_published`, `not_inboundReady`: tasks that are ready and tasks that are not.
-/

namespace Dataflow

/-- A task that drives no loop is ready once what it reads from elsewhere is published. -/
theorem inboundReady_of_published {ω : Type} {p : Plan} {b : Behaviour ω} {memory : ω}
    {state : ExecutionState} {t : TaskId} (hroles : (p.graph.task t).operator.loopRoles = none)
    (h : ∀ i c, (p.graph.task t).inputChannel i = some c → p.isFedExternally t i = true →
      state.contains c = true) : p.inboundReady b memory state t = true := by
  unfold Plan.inboundReady readiness
  simp only [hroles]
  rw [if_pos]
  · rfl
  · refine List.all_eq_true.mpr ?_
    intro i _
    rw [Bool.or_eq_true, Bool.not_eq_true']
    cases hx : p.isFedExternally t i with
    | false => exact Or.inl rfl
    | true =>
      cases hc : (p.graph.task t).inputChannel i with
      | none =>
        unfold Plan.isFedExternally at hx
        simp only [hc] at hx
        exact absurd hx (by simp)
      | some c => exact Or.inr (h i c hc hx)

/-- A task that drives no loop is not ready while something it reads from elsewhere is missing. -/
theorem not_inboundReady {ω : Type} {p : Plan} {b : Behaviour ω} {memory : ω}
    {state : ExecutionState} {t : TaskId} (hroles : (p.graph.task t).operator.loopRoles = none)
    {i : Nat} {c : ChannelId} (hc : (p.graph.task t).inputChannel i = some c)
    (hx : p.isFedExternally t i = true) (hno : state.contains c = false) :
    p.inboundReady b memory state t = false := by
  unfold Plan.inboundReady readiness
  simp only [hroles]
  rw [if_neg]
  · rfl
  · intro hall
    have hi := List.all_eq_true.mp hall i (List.mem_range.mpr (lt_length_of_inputChannel hc))
    rw [hx, hc] at hi
    simp [hno] at hi

namespace PreliminaryPlan.PlansWhile

variable {p : PreliminaryPlan} {w : WhileLoop} {plan : Plan}

theorem roles_eq_none (h : p.PlansWhile w)
    (hfin : Finished p.graph p.plannedTasks p.firstRuns plan) {t : TaskId} (ht : t ∈ w.tasks)
    (hne : t ≠ w.head) : (plan.graph.task t).operator.loopRoles = none := by
  rw [hfin.operator]
  exact h.graph.plain t ht hne

/-- A connection goes through the execution state iff it is feedback or leaves its stage. -/
theorem isFedExternally_iff (h : p.PlansWhile w)
    (hfin : Finished p.graph p.plannedTasks p.firstRuns plan) {u t : TaskId} {o i : Nat}
    (hl : w.Links u o t i) : plan.isFedExternally t i = true ↔
      (t = w.head ∧ 2 ≤ i) ∨ w.rank p.graph u ≠ w.rank p.graph t := by
  obtain ⟨hu, ht⟩ := WhileLoop.mem_of_links hl
  obtain ⟨c, hc, -, -, rfl, -⟩ := h.graph.exists_input hl
  have hw := h.graph.built.wired
  have htp := h.mem_planned.mpr ht
  have hi : i ∈ (p.graph.task t).operator.bodyInputs ↔ t = w.head ∧ 2 ≤ i := by
    rw [h.graph.mem_bodyInputs ht]
    refine and_congr_right fun he => ⟨by omega, fun h2 => ?_⟩
    have hlt := lt_length_of_inputChannel hc
    rw [he, h.graph.head] at hlt
    omega
  by_cases hb : i ∈ (p.graph.task t).operator.bodyInputs
  · refine iff_of_true ?_ (Or.inl (hi.mp hb))
    rw [isFedExternally_eq ((hfin.sameWiring.input t i).trans hc), hfin.feedback hw htp hc hb,
      Bool.true_or]
  · rw [hfin.isFedExternally_iff hw h.scope htp hc hb, or_iff_right fun hx => hb (hi.mpr hx)]
    exact not_congr (h.place_eq_iff hu ht)

/-- What goes through the execution state is published. -/
theorem isOutward_of_links (h : p.PlansWhile w)
    (hfin : Finished p.graph p.plannedTasks p.firstRuns plan) {t : TaskId} {i : Nat} {c : ChannelId}
    (hc : (p.graph.task t).inputChannel i = some c) (hx : plan.isFedExternally t i = true) :
    plan.isOutward c = true :=
  hfin.isOutward_of_external h.graph.built.wired h.scope
    (h.mem_planned.mpr (h.graph.producer_mem hc).2) hc hx

/-- The head reads nothing from its own stage. -/
theorem isFedExternally_head (h : p.PlansWhile w)
    (hfin : Finished p.graph p.plannedTasks p.firstRuns plan) {i : Nat} {c : ChannelId}
    (hc : (p.graph.task w.head).inputChannel i = some c) :
    plan.isFedExternally w.head i = true := by
  have hl := h.graph.links_of_input hc
  rw [h.isFedExternally_iff hfin hl]
  rcases h.graph.rank_of_links hl with ⟨-, ⟨hs, -⟩ | ⟨h2, -⟩⟩ | ⟨-, he, -⟩ | ⟨hb, -⟩
  · rw [hs, w.rank_source, h.graph.rank_head]
    exact Or.inr Nat.zero_ne_one
  · exact Or.inl ⟨rfl, h2⟩
  · exact absurd he h.graph.distinct.head_ne_sink
  · exact absurd hb h.graph.distinct.head_notMem

/-- **The head is alone in its stage.** -/
theorem isAlone_head (h : p.PlansWhile w)
    (hfin : Finished p.graph p.plannedTasks p.firstRuns plan) :
    plan.IsAlone (place p w.head) w.head := by
  have hplace := h.place_lt_count (w.mem_head)
  have htasks := h.tasks_head hfin
  refine ⟨h.graph.built.wired.congr hfin.sameWiring, htasks, ?_, fun i c hc => ?_,
    fun c hlt hp => ?_⟩
  · have hstart : w.head ∈ (plan.stage (place p w.head)).startTasks := by
      refine (hfin.mem_startTasks hplace).mpr ⟨htasks ▸ List.mem_singleton_self _, ?_⟩
      intro i c hc hi
      have hw := h.graph.built.wired
      refine (hfin.isFedExternally_iff hw h.scope (h.mem_planned.mpr (w.mem_head)) hc hi).mp ?_
      exact h.isFedExternally_head hfin hc
    rw [hfin.startTasks_eq hplace, htasks] at hstart ⊢
    exact List.filter_eq_self.mpr fun t ht =>
      List.mem_singleton.mp ht ▸ (List.mem_filter.mp hstart).2
  · exact h.isFedExternally_head hfin ((hfin.sameWiring.input _ _).symm.trans hc)
  · unfold Workspace.innerConsumers
    simp only
    split
    · rfl
    · refine List.filter_eq_nil_iff.mpr ?_
      intro k hk
      rw [hfin.sameWiring.consumers] at hk
      rw [hfin.sameWiring.length] at hlt
      rw [hfin.sameWiring.producer] at hp
      have hc := (h.graph.built.wired.input_iff k.task k.input c).mpr ⟨hlt, hk⟩
      have hl := h.graph.links_of_input hc
      rw [hp] at hl
      have hk := (WhileLoop.mem_of_links hl).2
      rw [hfin.stage_of_mem (h.mem_planned.mpr hk), beq_iff_eq, Option.some.injEq]
      change place p k.task ≠ place p w.head
      rw [Ne, h.place_eq_iff hk (w.mem_head), h.graph.rank_head]
      rcases h.graph.rank_of_links hl with ⟨-, ⟨hs, -⟩ | ⟨-, hr⟩⟩ | ⟨-, he, -⟩ | ⟨hb, -⟩
      · exact absurd hs.symm h.graph.distinct.source_ne_head
      · rw [h.graph.rank_head] at hr
        have := h.graph.segments_pos
        omega
      · rw [he, h.graph.rank_sink]
        omega
      · have := h.graph.rank_bounds hb
        omega

/-- **The other stages are plain.** -/
theorem isPlain (h : p.PlansWhile w) (hfin : Finished p.graph p.plannedTasks p.firstRuns plan)
    {u : TaskId} (hu : u ∈ w.tasks) (hne : w.rank p.graph u ≠ 1) :
    plan.IsPlain (place p u) := by
  have hw := h.graph.built.wired
  refine hfin.isPlain hw h.graph.built.unplaced h.scope
    ((acyclic_iff_grounded hw h.known).mp h.acyclic)
    (fun t ht => h.inputsFed t (h.needs_iff.mpr (h.mem_planned.mp ht)))
    (h.place_lt_count hu) fun t ht => ?_
  obtain ⟨ht, hr⟩ := (h.mem_stage hfin hu).mp ht
  refine Bool.eq_false_iff.mpr fun hloop => hne ?_
  rw [← hr, (h.graph.isLoopHead_iff ht).mp hloop, h.graph.rank_head]

end PreliminaryPlan.PlansWhile

end Dataflow
