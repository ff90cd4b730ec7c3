import Dataflow.Proofs.Plan.Bodies

/-!
# Where a loop goes on and where it is left

The stages are the components of the needed tasks along channels that can lie inside a stage, and
that a task reads an iteration of a loop or its result does not count. So a reader of an iteration
and a reader of the result get into one stage when such channels join them, from a common source for
instance, and only then. A stage with both kinds of readers is outside of the body of the loop.

A reader of an iteration can read those of several loops. Its stage is then in the body of each of
them, and the plan records the innermost one, which is the only one that will execute the stage again
while it runs.

* `Finished.stage_eq_of_joined`: what the channels of the finished plan join is in one stage.
* `Finished.inBody_of_readsIn`, `Finished.loopHeadStage_of_readsIn`: the stage of a reader of an iteration.
* **`assign_iteration_result`**: readers of an iteration and of the result.
* `sharedSource_merged`: two of them in one stage.

To be in the body of a loop and to be recorded for it are two things. The body of a loop is read off
the graph: the stages that what the head emits in an iteration can reach without leaving the loop. For
each stage a plan records one loop at most, the one with the smallest body of those whose body it is
in, and of several with the smallest body that with the latest head. What follows for the execution of
a plan is in `Dataflow.Proofs.Execution.Rearm`.

A stage that reads an iteration and the result of a loop is not executed again by that loop, whatever
the reader of the iteration would need. Nothing in the graph forbids such a plan, and nothing reports
it.
-/

namespace Dataflow

namespace PreliminaryPlan

variable {p : PreliminaryPlan} {plan : Plan}

/-- What the channels of the finished plan join is in one stage. -/
theorem Finished.stage_eq_of_joined {g : TaskGraph} {tasks : List TaskId} {r : Runs}
    (hs : g.IsScope tasks) (hw : g.Wired) (h : Finished g tasks r plan) {t u : TaskId}
    (hj : Runs.Joined plan.graph tasks t u) :
    (plan.graph.task t).stage = (plan.graph.task u).stage := by
  induction hj with
  | rel a b hab =>
    obtain ⟨e, he, heq⟩ := List.mem_map.mp hab
    obtain ⟨rfl, rfl⟩ := Prod.mk.inj heq
    obtain ⟨hamong, hjoin, hfree⟩ := Runs.mem_innerEdges.mp he
    obtain ⟨v, hv, i, c, hc, rfl⟩ := mem_among_iff.mp hamong
    obtain ⟨hi, hplatform, hprod, hcons⟩ := isJoinable_ofInput.mp hjoin
    have hbarrier : (plan.graph.channel c).barrier = false := by
      by_contra hb
      refine hfree (List.mem_map_of_mem (List.mem_filter.mpr ⟨hamong, ?_⟩))
      exact Bool.or_eq_true_iff.mpr (Or.inr (Bool.not_eq_false _ ▸ hb))
    rw [h.sameWiring.input] at hc
    rw [h.operator] at hi
    rw [h.sameWiring.producer, h.operator, h.operator] at hplatform
    rw [h.sameWiring.producer, h.isLoopHead] at hprod
    rw [h.isLoopHead] at hcons
    change (plan.graph.task (plan.graph.channel c).producer).stage = _
    rw [h.sameWiring.producer]
    exact (h.together hs hw hv hc hi).mpr ⟨hplatform, hbarrier, hprod, hcons⟩
  | refl a => rfl
  | symm a b _ ih => exact ih.symm
  | trans a b c _ _ ih1 ih2 => exact ih1.trans ih2

/-- The stage of a reader of an iteration is where the body starts, unless the loop is left there. -/
theorem Finished.inBody_of_readsIn {r : Runs} (hs : p.graph.IsScope p.plannedTasks)
    (h : Finished p.graph p.plannedTasks r plan) {head : TaskId} {roles : LoopRoles} {s z : StageId}
    (hroles : (p.graph.task head).operator.loopRoles = some roles)
    (hz : head ∈ (plan.stage z).tasks) (hreads : p.ReadsIn plan head roles.bodyOutputs s) :
    p.InBody plan z s ↔ s ≠ z ∧ ¬ p.ReadsIn plan head roles.exitOutputs s := by
  have hhead : (p.graph.task head).isLoopHead = true := Option.isSome_iff_exists.mpr ⟨_, hroles⟩
  have heq := (h.loopHead_eq_some hs).mpr ⟨hz, hhead⟩
  constructor
  · intro hin
    obtain ⟨v, roles', hv, hroles', hpass⟩ := hin.passable
    obtain rfl := Option.some.inj (heq.symm.trans hv)
    obtain rfl := Option.some.inj (hroles.symm.trans hroles')
    exact hpass
  · intro hpass
    exact ⟨head, roles, heq, hroles, s, hreads, hpass, .refl⟩

/-- The loop is recorded for that stage if it is the innermost one besides. -/
theorem Finished.loopHeadStage_of_readsIn {r : Runs} (hg : p.graph.Built) (hsinks : p.SinksKnown)
    (h : Finished p.graph p.plannedTasks r plan) {head : TaskId} {roles : LoopRoles} {s z : StageId}
    (hroles : (p.graph.task head).operator.loopRoles = some roles)
    (hz : head ∈ (plan.stage z).tasks) (hreads : p.ReadsIn plan head roles.bodyOutputs s) :
    (plan.stage s).loopHeadStage = some z ↔ s ≠ z ∧ ¬ p.ReadsIn plan head roles.exitOutputs s ∧
      ∀ y, y ≠ z → p.InBody plan y s → p.bodySize plan z < p.bodySize plan y ∨
        p.bodySize plan z = p.bodySize plan y ∧ y < z := by
  have hscope := isScope_plannedTasks hg.wired hsinks
  have hbody := h.inBody_of_readsIn hscope hroles hz hreads
  rw [h.loopHeadStage_eq_some_iff hg hsinks]
  constructor
  · rintro ⟨hin, hsmallest⟩
    obtain ⟨hne, hleft⟩ := hbody.mp hin
    exact ⟨hne, hleft, hsmallest⟩
  · rintro ⟨hne, hleft, hsmallest⟩
    exact ⟨hbody.mpr ⟨hne, hleft⟩, hsmallest⟩

/-- **Readers of an iteration and readers of the result**: two of them are in one stage only if the
graph joins them by channels that can lie inside a stage, so that they run on one platform and
neither is a loop head, and they are in one stage as long as the channels of the finished plan join
them. The stage of a reader of an iteration is in the body of the loop unless it is that of the head
itself or has a reader of the result. The loop is what the plan records for it exactly if besides no
other loop whose body contains the stage has a smaller body, nor an equally large one and a later
head. -/
theorem assign_iteration_result (hg : p.graph.Built) (h : p.assign = .ok plan) {head t : TaskId}
    {roles : LoopRoles} {o : Nat} (hroles : (p.graph.task head).operator.loopRoles = some roles)
    (ht : p.Needs t) (ho : o ∈ roles.bodyOutputs) (hto : p.graph.Reads t head o) :
    (∀ u, p.Needs u → u ≠ t → ∀ o' ∈ roles.finalOutputs, p.graph.Reads u head o' →
      ((∃ s, t ∈ (plan.stage s).tasks ∧ u ∈ (plan.stage s).tasks) →
        Runs.Joined p.graph p.plannedTasks t u ∧
        (p.graph.task t).operator.platform = (p.graph.task u).operator.platform ∧
        (p.graph.task t).isLoopHead = false ∧ (p.graph.task u).isLoopHead = false) ∧
      (Runs.Joined plan.graph p.plannedTasks t u →
        ∃ s, t ∈ (plan.stage s).tasks ∧ u ∈ (plan.stage s).tasks)) ∧
    (∀ s z, t ∈ (plan.stage s).tasks → head ∈ (plan.stage z).tasks →
      (p.InBody plan z s ↔ s ≠ z ∧ ¬ p.ReadsIn plan head roles.exitOutputs s) ∧
      ((plan.stage s).loopHeadStage = some z ↔ s ≠ z ∧ ¬ p.ReadsIn plan head roles.exitOutputs s ∧
        ∀ y, y ≠ z → p.InBody plan y s → p.bodySize plan z < p.bodySize plan y ∨
          p.bodySize plan z = p.bodySize plan y ∧ y < z)) := by
  obtain ⟨hs, -⟩ := assign_eq_ok hg h
  obtain ⟨r, -, hfin⟩ := finished_of_assign hg h
  have hscope := isScope_plannedTasks hg.wired hs
  have htp := (mem_plannedTasks hg.wired hs).mpr ht
  refine ⟨fun u hu hne o' ho' huo => ⟨?_, ?_⟩, fun s z hts hz => ?_⟩
  · rintro ⟨s, hts, hus⟩
    obtain ⟨-, rfl⟩ := (hfin.mem_stage hscope).mp hts
    have hjoined := hfin.joined hscope (hfin.resolved.place_lt_count hscope htp) hts hus
    obtain ⟨htno, huno⟩ := hjoined.eq_or.resolve_left hne.symm
    exact ⟨hjoined, hjoined.platform, htno, huno⟩
  · intro hjoined
    have hup := (mem_plannedTasks hg.wired hs).mpr hu
    have heq := hfin.stage_eq_of_joined hscope hg.wired hjoined
    rw [hfin.stage_of_mem htp, hfin.stage_of_mem hup, Option.some.injEq] at heq
    exact ⟨_, (hfin.mem_stage hscope).mpr ⟨htp, rfl⟩, (hfin.mem_stage hscope).mpr ⟨hup, heq.symm⟩⟩
  · have hreads : p.ReadsIn plan head roles.bodyOutputs s := ⟨t, hts, o, ho, hto⟩
    exact ⟨hfin.inBody_of_readsIn hscope hroles hz hreads,
      hfin.loopHeadStage_of_readsIn hg hs hroles hz hreads⟩

/-- A loop, and a source that feeds both the task of its body and the reader of its result. -/
def sharedSource : PreliminaryPlan := .ofGraph
  (((((((((((((TaskGraph.empty.addTask
    { object := 0, name := "read", platform := ⟨"a"⟩, inputs := [], outputs := [.any] }).addTask
    { object := 1, name := "loop", platform := ⟨"a"⟩, inputs := [.any, .any, .any, .any],
      outputs := [.any, .any, .any], loopRoles := some {} }).addTask
    { object := 2, name := "side", platform := ⟨"a"⟩, inputs := [], outputs := [.any] }).addTask
    { object := 3, name := "step", platform := ⟨"a"⟩, inputs := [.any, .any],
      outputs := [.any] }).addTask
    { object := 4, name := "show", platform := ⟨"a"⟩, inputs := [.any, .any], outputs := [] }).wire
      0 0 1 0 .collection).wire 0 0 1 1 .collection).wire 1 0 3 0 .collection).wire
      2 0 3 1 .collection).wire 3 0 1 2 .collection).wire 3 0 1 3 .collection).wire
      1 2 4 0 .collection).wire 2 0 4 1 .collection)

theorem built_sharedSource : sharedSource.graph.Built :=
  .wire (.wire (.wire (.wire (.wire (.wire (.wire (.wire (.addTask _ (.addTask _ (.addTask _
    (.addTask _ (.addTask _ .empty))))) rfl) rfl) rfl) rfl) rfl) rfl) rfl) rfl

/-- The task of the body and the reader of the result are in one stage, with their source. -/
theorem sharedSource_merged : sharedSource.graph.Built ∧ ∃ plan, sharedSource.assign = .ok plan ∧
    (sharedSource.graph.task 1).operator.loopRoles = some {} ∧ (plan.stage 1).loopHead = some 1 ∧
    sharedSource.graph.Reads 3 1 0 ∧ sharedSource.graph.Reads 4 1 2 ∧
    3 ∈ (plan.stage 2).tasks ∧ 4 ∈ (plan.stage 2).tasks := by
  obtain ⟨plan, h, hhead, htasks⟩ : ∃ plan, sharedSource.assign = .ok plan ∧
      (plan.stage 1).loopHead = some 1 ∧ (plan.stage 2).tasks = [2, 3, 4] :=
    exists_assign_of_decide (by decide +kernel)
  refine ⟨built_sharedSource, plan, h, by decide +kernel, hhead, ⟨0, 1, by decide +kernel,
    by decide +kernel, by decide +kernel⟩, ⟨0, 4, by decide +kernel, by decide +kernel,
    by decide +kernel⟩, ?_, ?_⟩
  · rw [htasks]
    decide
  · rw [htasks]
    decide

/-- What joins the two is their source, and the loop has no body. -/
theorem sharedSource_joined : ∃ plan, sharedSource.assign = .ok plan ∧
    Runs.Joined sharedSource.graph sharedSource.plannedTasks 3 4 ∧
    ¬ sharedSource.InBody plan 1 2 ∧ (plan.stage 2).loopHeadStage ≠ some 1 := by
  obtain ⟨plan, h, hhead, htasks⟩ : ∃ plan, sharedSource.assign = .ok plan ∧
      (plan.stage 1).tasks = [1] ∧ (plan.stage 2).tasks = [2, 3, 4] :=
    exists_assign_of_decide (by decide +kernel)
  have hstep : 3 ∈ (plan.stage 2).tasks := by rw [htasks]; decide
  have hshow : 4 ∈ (plan.stage 2).tasks := by rw [htasks]; decide
  have hneeds : ∀ t ∈ (plan.stage 2).tasks, sharedSource.Needs t := fun t ht =>
    needs_of_mem_stage built_sharedSource h ht
  have hroles : (sharedSource.graph.task 1).operator.loopRoles = some {} := by decide +kernel
  have hiterates : 0 ∈ ({} : LoopRoles).bodyOutputs := by decide
  obtain ⟨hpairs, hbody⟩ := assign_iteration_result built_sharedSource h hroles (hneeds 3 hstep)
    hiterates ⟨0, 1, by decide +kernel, by decide +kernel, by decide +kernel⟩
  have hread : sharedSource.graph.Reads 4 1 2 :=
    ⟨0, 4, by decide +kernel, by decide +kernel, by decide +kernel⟩
  have hjoined := ((hpairs 4 (hneeds 4 hshow) (by decide) 2 (by decide) hread).1 ⟨2, hstep, hshow⟩).1
  obtain ⟨hinBody, hrecorded⟩ := hbody 2 1 hstep (by rw [hhead]; decide)
  have hleft : sharedSource.ReadsIn plan 1 ({} : LoopRoles).exitOutputs 2 :=
    ⟨4, hshow, 2, by decide, hread⟩
  exact ⟨plan, h, hjoined, fun hin => (hinBody.mp hin).2 hleft,
    fun hin => (hrecorded.mp hin).2.1 hleft⟩

end PreliminaryPlan

end Dataflow
