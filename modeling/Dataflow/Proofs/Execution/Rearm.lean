import Dataflow.Proofs.Execution.History
import Dataflow.Proofs.Execution.Latest
import Dataflow.Proofs.Loop.Cells
import Dataflow.Proofs.Plan.Bodies

/-!
# A loop that runs goes on

As long as a loop head is running, something of its loop is pending: the stage of the head itself or
a stage of the body. The driver knows the body of a loop by what the plan records for each stage, the
innermost loop whose body contains it, and makes a head pending again only after a stage was executed
that is recorded for it. So this holds of loops for which a stage is recorded, the direct body stages,
and with one exception: a loop head that is itself recorded for another loop is set aside when that
loop finishes, whether it is running or not.

A loop for which no stage is recorded is stuck once it runs. It has no body at all, as when its body
inputs are fed from outside, or every stage of its body is in the body of another loop too and
recorded for that one, as when two heads share the only task of their bodies.

All this is about operators that take no loop head back and start one when it is told to
(`Behaviour.Onward`); a loop head that they start at another time is not made pending.

* `done_of_rearm`, `skipped_of_rearm`, `isPending_rearm_keep`, `isPending_rearm_body_head`: what a
  stage execution does to the agenda.
* `Armed.step`: one stage execution keeps what is known in between.
* **`PreliminaryPlan.running_armed`**: any number of them, and how the execution can end.
* `onward_withLoops`: loop operators are never taken back.
* `running_unarmed`: loops of each kind that rest while they run: without a body, with a body that is
  shared, overtaken by the loop around them, taken back, and started late.
-/

namespace Dataflow

namespace Plan

/-- Some stage is recorded for the loop whose head makes up stage `s`: it has a direct body stage. -/
def HasBody (p : Plan) (s : StageId) : Prop := ∃ y < p.stages.length, p.isInBodyOf s y = true

instance (p : Plan) (s : StageId) : Decidable (p.HasBody s) :=
  inferInstanceAs (Decidable (∃ y < p.stages.length, p.isInBodyOf s y = true))

/-- Stage `s` is recorded for a loop that has finished. -/
def IsLeft {ω : Type} (p : Plan) (b : Behaviour ω) (memory : ω) (s : StageId) : Prop :=
  ∃ outer u, (p.stage s).loopHeadStage = some outer ∧ (p.stage outer).loopHead = some u ∧
    p.loopState b memory u = .finished

variable {ω : Type} {p : Plan} {b : Behaviour ω} {a : Agenda} {memory memory' : ω} {s x : StageId}

/-! ## What a stage execution does to the agenda -/

/-- Making a head pending leaves all other stages alone. -/
theorem get_rearm : (p.rearm b memory s a).get x = .pending ∨ (p.rearm b memory s a).get x =
    (p.rearmBody b memory s (a.setWhere (· == s) .done)).get x := by
  unfold rearm
  simp only
  split
  · unfold rearmHead
    simp only
    split
    · rw [Agenda.get_setWhere]
      split
      · exact Or.inl rfl
      · exact Or.inr rfl
    · exact Or.inr rfl
  · exact Or.inr rfl

theorem isPending_rearm_of_rearmBody
    (h : (p.rearmBody b memory s (a.setWhere (· == s) .done)).isPending x = true) :
    (p.rearm b memory s a).isPending x = true := by
  unfold Agenda.isPending at h ⊢
  rcases (get_rearm : (p.rearm b memory s a).get x = .pending ∨ _) with hx | hx
  · rw [hx]
    rfl
  · rw [hx]
    exact h

/-- A stage is done when it was executed, or was done before. -/
theorem done_of_rearm (h : (p.rearm b memory s a).get x = .done) : x = s ∨ a.get x = .done := by
  have hbody := get_rearm.resolve_left fun hx => absurd (hx.symm.trans h) nofun
  rw [h] at hbody
  have hfirst : (a.setWhere (· == s) .done).get x = .done := by
    unfold rearmBody at hbody
    split at hbody
    · exact (Agenda.get_of_setWhere hbody.symm).resolve_left fun hx => absurd hx.2 nofun
    · exact (Agenda.get_of_setWhere hbody.symm).resolve_left fun hx => absurd hx.2 nofun
    · exact hbody.symm
  exact (Agenda.get_of_setWhere hfirst).imp_left fun hx => beq_iff_eq.mp hx.1

/-- A stage is skipped when its loop has finished, or was skipped before. -/
theorem skipped_of_rearm (h : (p.rearm b memory s a).get x = .skipped) :
    (p.isInBodyOf s x = true ∧ p.headState b memory s = some .finished) ∨ a.get x = .skipped := by
  have hbody := get_rearm.resolve_left fun hx => absurd (hx.symm.trans h) nofun
  rw [h] at hbody
  have hold : (a.setWhere (· == s) .done).get x = .skipped → a.get x = .skipped := fun hfirst =>
    (Agenda.get_of_setWhere hfirst).resolve_left fun hx => absurd hx.2 nofun
  unfold rearmBody at hbody
  split at hbody
  · refine Or.inr (hold ((Agenda.get_of_setWhere hbody.symm).resolve_left fun hx => ?_))
    exact absurd hx.2 nofun
  · rename_i hstate
    exact (Agenda.get_of_setWhere hbody.symm).imp (fun hx =>
      ⟨(Bool.and_eq_true_iff.mp hx.1).1, hstate⟩) hold
  · exact Or.inr (hold hbody.symm)

/-- A pending stage stays pending while another one is executed that is not the head of its loop. -/
theorem isPending_rearm_keep (h : a.isPending x = true) (hne : x ≠ s)
    (hout : p.isInBodyOf s x = false) : (p.rearm b memory s a).isPending x = true := by
  have hfirst : (a.setWhere (· == s) .done).isPending x = true := isPending_done.mpr ⟨h, hne⟩
  refine isPending_rearm_of_rearmBody ?_
  unfold rearmBody
  split <;> simp [Agenda.isPending_setWhere, hout, hfirst]

/-- When a stage of a body has been executed and the loop is running, the head is pending or
something of the body is. -/
theorem isPending_rearm_body_head {head : StageId} (hl : (p.stage s).loopHeadStage = some head)
    (hs : p.headState b memory head = some .running) (hlt : head < a.length) :
    (p.rearm b memory s a).isPending head = true ∨
      ∃ y, p.isInBodyOf head y = true ∧ (p.rearm b memory s a).isPending y = true := by
  by_cases hleft : ∃ y, p.isInBodyOf head y = true ∧
      (p.rearmBody b memory s (a.setWhere (· == s) .done)).isPending y = true
  · obtain ⟨y, hin, hy⟩ := hleft
    exact Or.inr ⟨y, hin, isPending_rearm_of_rearmBody hy⟩
  · refine Or.inl ?_
    have hdone : (p.stageIds.all fun y => !(p.isInBodyOf head y &&
        (p.rearmBody b memory s (a.setWhere (· == s) .done)).isPending y)) = true := by
      refine List.all_eq_true.mpr fun y _ => ?_
      by_contra hy
      exact hleft ⟨y, by simpa using hy⟩
    unfold rearm rearmHead
    simp only [hl, hdone, hs, BEq.rfl, Bool.and_self, if_true]
    have hlen : head < (p.rearmBody b memory s (a.setWhere (· == s) .done)).length := by
      unfold rearmBody
      split <;> simpa using hlt
    exact Agenda.isPending_setWhere_on.mpr (Or.inl ⟨hlen, BEq.rfl⟩)

/-! ## What is known between stage executions -/

/-- The heads of loops that are running are pending or wait for the body, unless there is none or
they were set aside with the body of another loop. -/
structure Armed (p : Plan) (b : Behaviour ω) (a : Agenda) (memory : ω) : Prop where
  length : a.length = p.stages.length
  started : ∀ s < p.stages.length, ∀ t, (p.stage s).loopHead = some t → a.get s = .done →
    .running ≤ p.loopState b memory t
  skipped : ∀ s, a.get s = .skipped → p.IsLeft b memory s
  running : ∀ s < p.stages.length, ∀ t, (p.stage s).loopHead = some t →
    p.loopState b memory t = .running → p.HasBody s → a.get s = .done →
      ∃ y, p.isInBodyOf s y = true ∧ a.isPending y = true

theorem Armed.start : p.Armed b (.allPending p.stages.length) memory := by
  have hnone : ∀ s < p.stages.length, (Agenda.allPending p.stages.length).get s ≠ .done :=
    fun s hs hdone => by
      rw [Agenda.get_allPending, if_pos hs] at hdone
      exact absurd hdone nofun
  refine ⟨List.length_replicate, fun s hs t _ hdone => absurd hdone (hnone s hs),
    fun s hskipped => ?_, fun s hs t _ _ _ hdone => absurd hdone (hnone s hs)⟩
  rw [Agenda.get_allPending] at hskipped
  split at hskipped <;> exact absurd hskipped nofun

theorem IsLeft.mono (hheads : ∀ s t, (p.stage s).loopHead = some t →
      (p.graph.task t).isLoopHead = true) (h : p.IsLeft b memory s)
    (hon : b.Advances p.graph memory memory') : p.IsLeft b memory' s := by
  obtain ⟨outer, u, hs, hu, hfinished⟩ := h
  have hle := hon u (hheads outer u hu)
  change p.loopState b memory u ≤ p.loopState b memory' u at hle
  rw [hfinished] at hle
  exact ⟨outer, u, hs, hu, LoopState.le_antisymm (LoopState.le_finished _) hle⟩

/-- **One stage execution.** -/
theorem Armed.step (hheads : ∀ s t, (p.stage s).loopHead = some t →
      t ∈ (p.stage s).tasks ∧ (p.graph.task t).isLoopHead = true)
    (h : p.Armed b a memory) (hon : b.Advances p.graph memory memory')
    (hstarted : ∀ t ∈ (p.stage x).tasks, (p.graph.task t).isLoopHead = true →
      .running ≤ p.loopState b memory' t) : p.Armed b (p.rearm b memory' x a) memory' := by
  refine ⟨length_rearm.trans h.length, fun s hs t ht hdone => ?_, fun s hskipped => ?_,
    fun s hs t ht hrunning hbody hdone => ?_⟩
  · obtain ⟨hmem, hhead⟩ := hheads s t ht
    rcases done_of_rearm hdone with rfl | hdone
    · exact hstarted t hmem hhead
    · exact LoopState.le_trans (h.started s hs t ht hdone) (hon t hhead)
  · rcases skipped_of_rearm hskipped with ⟨hin, hfinished⟩ | hold
    · obtain ⟨u, hu, hstate⟩ := Option.map_eq_some_iff.mp hfinished
      exact ⟨x, u, beq_iff_eq.mp hin, hu, hstate⟩
    · exact (h.skipped s hold).mono (fun s t ht => (hheads s t ht).2) hon
  · have hstate : p.headState b memory' s = some .running := by
      unfold headState
      rw [ht, Option.map_some, hrunning]
    by_cases hx : s = x
    · -- the head itself was executed: its body is next
      subst hx
      obtain ⟨y, hy, hin⟩ := hbody
      refine ⟨y, hin, isPending_rearm_of_rearmBody ?_⟩
      exact (isPending_rearmBody_running hstate).mpr (Or.inl ⟨h.length.symm ▸ hy, hin⟩)
    · have hold := (done_of_rearm hdone).resolve_left hx
      have hbefore : p.loopState b memory t = .running := by
        have hle := hon t (hheads s t ht).2
        change p.loopState b memory t ≤ p.loopState b memory' t at hle
        rw [hrunning] at hle
        exact LoopState.le_antisymm hle (h.started s hs t ht hold)
      obtain ⟨y, hin, hy⟩ := h.running s hs t ht hbefore hbody hold
      by_cases hyx : y = x
      · -- a stage of the body was executed
        subst hyx
        refine (isPending_rearm_body_head (beq_iff_eq.mp hin) hstate (h.length.symm ▸ hs)).resolve_left
          fun hpending => ?_
        unfold Agenda.isPending at hpending
        rw [hdone] at hpending
        exact absurd hpending nofun
      · refine ⟨y, hin, isPending_rearm_keep hy hyx (Bool.eq_false_iff.mpr fun hother => hx ?_)⟩
        exact Option.some.inj ((beq_iff_eq.mp hin).symm.trans (beq_iff_eq.mp hother))

/-! ## Whole plans -/

variable {config : ExecutorConfig} {m m' : Machine ω} {t : TaskId}

/-- Any number of stage executions. -/
theorem midway_armed (horderly : ∀ s < p.stages.length, p.IsOrderly s)
    (hheads : ∀ s t, (p.stage s).loopHead = some t →
      t ∈ (p.stage s).tasks ∧ (p.graph.task t).isLoopHead = true)
    (hb : b.Onward p.graph) : ∀ {n : Nat} {here : Midway ω}, p.midway b config m n = some here →
      p.Armed b here.agenda here.machine.memory
  | 0, here, h => by
    obtain rfl := Option.some.inj h
    exact Armed.start
  | n + 1, there, h => by
    obtain ⟨here, s, report, hhere, hnext, hrun, ha, -⟩ := midway_succ h
    obtain ⟨hon, hstarted⟩ := executeStage_onward (horderly s (nextExecutable_lt hnext)) hb hrun
    rw [ha]
    exact (midway_armed horderly hheads hb hhere).step hheads hon hstarted

/-- An execution that ends with a loop unfinished comes to rest where nothing is pending. -/
theorem exists_midway_of_unfinishedLoop (horderly : ∀ s < p.stages.length, p.IsOrderly s)
    {state : LoopState}
    (h : p.execute b config m = (.error (.unfinishedLoop t state), m')) :
    ∃ n here s, p.midway b config m n = some here ∧ (∀ y, here.agenda.isPending y = false) ∧
      (p.stage s).loopHead = some t ∧ p.loopState b m'.memory t = state ∧
      m'.memory = here.machine.memory := by
  obtain ⟨n, here, hhere, -, hunfinished, rfl⟩ := exists_rest_of_error horderly h nofun id
  obtain ⟨hrest, s, hs, hstate⟩ := isPending_of_conclude_eq_unfinishedLoop hunfinished
  exact ⟨n, here, s, hhere, hrest, hs, hstate, rfl⟩

end Plan

namespace PreliminaryPlan

variable {ω : Type} {p : PreliminaryPlan} {plan : Plan} {b : Behaviour ω}
  {config : ExecutorConfig} {m : Machine ω}

/-- A loop for which no stage is recorded shares each stage of its body with another loop. -/
theorem Finished.exists_other_of_not_hasBody {r : Runs} {s y : StageId} (hg : p.graph.Built)
    (hsinks : p.SinksKnown) (h : Finished p.graph p.plannedTasks r plan) (hnone : ¬ plan.HasBody s)
    (hy : p.InBody plan s y) :
    ∃ z, z ≠ s ∧ plan.isInBodyOf z y = true ∧ p.InBody plan z y := by
  have hlt := h.lt_of_inBody hg hsinks hy
  cases hz : (plan.stage y).loopHeadStage with
  | none => exact absurd hy ((h.loopHeadStage_eq_none_iff hg hsinks hlt).mp hz s)
  | some z =>
    refine ⟨z, ?_, beq_iff_eq.mpr hz, (h.isInnermost_of_loopHeadStage hg hsinks hz).inBody⟩
    rintro rfl
    exact hnone ⟨y, h.length_stages.symm ▸ hlt, beq_iff_eq.mpr hz⟩

/-- **A loop that runs goes on**: between any two stage executions the stage of a loop head that is
running is pending, or a stage that is recorded for it is, unless no stage is or the head was set
aside and is recorded for a loop that has finished. So only such a loop can be the one that runs when
an execution ends with a loop unfinished. A loop for which no stage is recorded has no body, or shares
it with loops for which its stages are recorded. -/
theorem running_armed (hg : p.graph.Built) (h : p.assign = .ok plan) (hb : b.Onward p.graph) :
    (∀ n here, plan.midway b config m n = some here → ∀ s t, (plan.stage s).loopHead = some t →
      plan.loopState b here.machine.memory t = .running → plan.HasBody s →
        here.agenda.isPending s = true ∨
        (∃ y, plan.isInBodyOf s y = true ∧ here.agenda.isPending y = true) ∨
        (here.agenda.get s = .skipped ∧ plan.IsLeft b here.machine.memory s)) ∧
    (∀ t m', plan.execute b config m = (.error (.unfinishedLoop t .running), m') →
      ∃ s, (plan.stage s).loopHead = some t ∧ (¬ plan.HasBody s ∨ plan.IsLeft b m'.memory s)) ∧
    (∀ s, ¬ plan.HasBody s → ∀ y, p.InBody plan s y →
      ∃ z, z ≠ s ∧ plan.isInBodyOf z y = true ∧ p.InBody plan z y) := by
  obtain ⟨hs, -⟩ := assign_eq_ok hg h
  obtain ⟨r, -, hfin⟩ := finished_of_assign hg h
  have hscope := isScope_plannedTasks hg.wired hs
  have horderly : ∀ s < plan.stages.length, plan.IsOrderly s := fun s hs =>
    (isOrderly_of_assign hg h hs).1
  have hplan : b.Onward plan.graph := hb.congr hfin.operator
  have hheads : ∀ s t, (plan.stage s).loopHead = some t →
      t ∈ (plan.stage s).tasks ∧ (plan.graph.task t).isLoopHead = true := fun s t ht => by
    obtain ⟨hmem, hhead⟩ := (hfin.loopHead_eq_some hscope).mp ht
    exact ⟨hmem, (hfin.isLoopHead t).trans hhead⟩
  have harmed : ∀ n here, plan.midway b config m n = some here → ∀ s t,
      (plan.stage s).loopHead = some t → plan.loopState b here.machine.memory t = .running →
      plan.HasBody s → here.agenda.isPending s = true ∨
        (∃ y, plan.isInBodyOf s y = true ∧ here.agenda.isPending y = true) ∨
        (here.agenda.get s = .skipped ∧ plan.IsLeft b here.machine.memory s) := by
    intro n here hhere s t ht hrunning hbody
    have hnow := Plan.midway_armed horderly hheads hplan hhere
    cases hstatus : here.agenda.get s with
    | pending => exact Or.inl (beq_iff_eq.mpr hstatus)
    | done =>
      exact Or.inr (Or.inl
        (hnow.running s (Plan.lt_length_of_loopHead ht) t ht hrunning hbody hstatus))
    | skipped => exact Or.inr (Or.inr ⟨rfl, hnow.skipped s hstatus⟩)
  refine ⟨harmed, fun t m' hrun => ?_,
    fun s hnone y hy => hfin.exists_other_of_not_hasBody hg hs hnone hy⟩
  obtain ⟨n, here, s, hhere, hrest, ht, hstate, hmemory⟩ :=
    Plan.exists_midway_of_unfinishedLoop horderly hrun
  refine ⟨s, ht, or_iff_not_imp_left.mpr fun hbody => ?_⟩
  rcases harmed n here hhere s t ht (hmemory ▸ hstate) (not_not.mp hbody) with hs | ⟨y, -, hy⟩ | hs
  · exact absurd hs (by simp [hrest s])
  · exact absurd hy (by simp [hrest y])
  · exact hmemory ▸ hs.2

end PreliminaryPlan

/-! ## Loops that are stuck -/

/-- Loop operators beside operators without memory only move on. -/
theorem onward_withLoops (b : Behaviour Unit) (os : List ObjectId) (g : TaskGraph) :
    (b.withLoops os).Onward g := by
  refine Behaviour.onward_of_tellsCell (tellsCell_withLoops b os) fun t ls ls' old _ h => ?_
  unfold Behaviour.withLoops at h
  simp only at h
  split at h
  · rename_i hmove
    obtain ⟨-, rfl⟩ := LoopState.advance_eq_ok_iff.mp hmove
    obtain ⟨-, rfl⟩ := Prod.mk.inj h
    change .running ≤ (Function.update ls _ _ (g.task t).operator.object).state
    rw [Function.update_self]
    exact LoopState.le_refl _
  · exact absurd (Prod.mk.inj h).1 nofun

/-- An execution with fresh loop heads comes to rest after `n` stage executions while the loop of
stage `s` is running, although all that its head reads from the body is published. -/
def Plan.RestsRunning {ω : Type} (p : Plan) (b : Behaviour ω) (memory : ω) (s : StageId) (t : TaskId)
    (n : Nat) : Prop :=
  (∀ stage ∈ p.stages, ∀ u ∈ stage.loopHead, p.loopState b memory u = .notStarted) ∧
  (p.stage s).loopHead = some t ∧
  (∃ here ∈ p.midway b {} { memory := memory } n,
    p.loopState b here.machine.memory t = .running ∧ here.agenda.pending = [] ∧
    ∀ i ∈ (p.graph.task t).operator.bodyInputs,
      ((p.graph.task t).inputChannel i).any here.machine.state.contains = true) ∧
  (p.execute b {} { memory := memory }).1 = .error (.unfinishedLoop t .running)

instance {ω : Type} (p : Plan) (b : Behaviour ω) (memory : ω) (s : StageId) (t : TaskId) (n : Nat) :
    Decidable (p.RestsRunning b memory s t n) := by
  delta Plan.RestsRunning
  infer_instance

/-- A loop whose head feeds itself from what feeds it at the start, so that it has no body. -/
def bodiless : PreliminaryPlan := .ofGraph
  ((((((TaskGraph.empty.addTask
    { object := 0, name := "read", platform := ⟨"a"⟩, inputs := [], outputs := [.any] }).addTask
    (untilFour.declaration 1)).wire
      0 0 1 0 .collection).wire 0 0 1 1 .collection).wire 0 0 1 2 .collection).wire
      0 0 1 3 .collection)

/-- Two loops whose bodies are the same task, which reads an iteration of both and feeds both. -/
def sharedBody : PreliminaryPlan := .ofGraph
  ((((((((((((((((TaskGraph.empty.addTask
    { object := 0, name := "read", platform := ⟨"a"⟩, inputs := [], outputs := [.any] }).addTask
    (untilFour.declaration 1)).addTask
    (untilFour.declaration 2)).addTask
    { object := 3, name := "step", platform := ⟨"a"⟩, inputs := [.any, .any],
      outputs := [.any] }).addTask
    { object := 4, name := "show", platform := ⟨"a"⟩, inputs := [.any], outputs := [] }).wire
      0 0 1 0 .collection).wire 0 0 1 1 .collection).wire 0 0 2 0 .collection).wire
      0 0 2 1 .collection).wire 1 0 3 0 .collection).wire 2 0 3 1 .collection).wire
      3 0 1 2 .collection).wire 3 0 1 3 .collection).wire 3 0 2 2 .collection).wire
      3 0 2 3 .collection).wire 2 2 4 0 .collection)

theorem built_sharedBody : sharedBody.graph.Built :=
  .wire (.wire (.wire (.wire (.wire (.wire (.wire (.wire (.wire (.wire (.wire (.addTask _ (.addTask _
    (.addTask _ (.addTask _ (.addTask _ .empty))))) rfl) rfl) rfl) rfl) rfl) rfl) rfl) rfl) rfl) rfl)
    rfl

/-- The task of both bodies is in the body of the loop it is not recorded for. -/
theorem inBody_sharedBody {plan : Plan} (hhead : (plan.stage 1).loopHead = some 1)
    (htasks : (plan.stage 3).tasks = [3]) : sharedBody.InBody plan 1 3 := by
  have hunread : ∀ c < sharedBody.graph.channels.length, (sharedBody.graph.channel c).producer = 1 →
      (sharedBody.graph.channel c).output ∉ ({} : LoopRoles).exitOutputs := by decide +kernel
  refine ⟨1, {}, hhead, by decide +kernel, 3, ?_, ⟨by decide, ?_⟩, .refl⟩
  · refine ⟨3, by rw [htasks]; decide, 0, by decide, 0, 1, ?_⟩
    decide +kernel
  · rintro ⟨u, -, o, ho, i, c, hc, hp, rfl⟩
    exact hunread c ((built_sharedBody.wired.input_iff u i c).mp hc).1 hp ho

/-- A loop in the body of another one that does not wait for its result. -/
def overtaken : PreliminaryPlan := .ofGraph
  (((((((((((((((((TaskGraph.empty.addTask
    { object := 0, name := "read", platform := ⟨"a"⟩, inputs := [], outputs := [.any] }).addTask
    (untilFour.declaration 1)).addTask
    (untilFour.declaration 2)).addTask
    { object := 3, name := "step", platform := ⟨"a"⟩, inputs := [.any], outputs := [.any] }).addTask
    { object := 4, name := "add", platform := ⟨"a"⟩, inputs := [.any], outputs := [.any] }).addTask
    { object := 5, name := "show", platform := ⟨"a"⟩, inputs := [.any], outputs := [] }).wire
      0 0 1 0 .collection).wire 0 0 1 1 .collection).wire 1 0 2 0 .collection).wire
      1 0 2 1 .collection).wire 1 0 3 0 .collection).wire 3 0 1 2 .collection).wire
      2 0 4 0 .collection).wire 4 0 2 2 .collection).wire 4 0 2 3 .collection).wire
      4 0 1 3 .collection).wire 1 2 5 0 .collection)

/-- The outer loop ends after one iteration. -/
def overtakenMemory (k : ObjectId) : LoopOperator :=
  if k = 1 then { untilFour with maxIterations := some 1 } else untilFour

theorem built_overtaken : overtaken.graph.Built :=
  .wire (.wire (.wire (.wire (.wire (.wire (.wire (.wire (.wire (.wire (.wire (.addTask _ (.addTask _
    (.addTask _ (.addTask _ (.addTask _ (.addTask _ .empty)))))) rfl) rfl) rfl) rfl) rfl) rfl) rfl)
    rfl) rfl) rfl) rfl

/-- Beside an operator that takes the loop head back. -/
def Behaviour.restarting (b : Behaviour LoopOperator) (o : ObjectId) : Behaviour LoopOperator :=
  { b with
    evaluate := fun k ctx l =>
      let r := b.evaluate k ctx l
      if k = o then { r with memory := { r.memory with state := .running } } else r }

/-- Beside a loop head that does not start when it is told to, but when another task is executed. -/
def Behaviour.startingLate (b : Behaviour Unit) (o : ObjectId) : Behaviour LoopState where
  prepare k ctx l :=
    let r := b.prepare k ctx ()
    { result := r.result, emissions := r.emissions, touches := r.touches, memory := l }
  evaluate k ctx l :=
    let r := b.evaluate k ctx ()
    { result := r.result, emissions := r.emissions, touches := r.touches
      memory := if k = o then .running else l }
  loopState _ l := l
  advance _ _ l := (.ok l, l)

/-- A loop without a body is stuck, and so is one that shares its body with the loop for which it is
recorded; one whose enclosing loop has finished is set aside; and one that is taken back, or started
by a task behind it, is not executed again. -/
theorem running_unarmed :
    (∃ plan, bodiless.assign = .ok plan ∧
      plan.RestsRunning (adding.withLoops [1]) (fun _ => untilFour) 1 1 2) ∧
    (∃ plan, sharedBody.assign = .ok plan ∧ sharedBody.InBody plan 1 3 ∧
      plan.RestsRunning (adding.withLoops [1, 2]) (fun _ => twice) 1 1 8) ∧
    (∃ plan, overtaken.assign = .ok plan ∧ plan.HasBody 2 ∧
      plan.RestsRunning (adding.withLoops [1, 2]) overtakenMemory 2 2 7) ∧
    (∃ plan, shortLoop.assign = .ok plan ∧ plan.HasBody 1 ∧
      plan.RestsRunning ((adding.withLoop 1).restarting 3) twice 1 1 7) ∧
    (∃ plan, shortLoop.assign = .ok plan ∧ plan.HasBody 1 ∧
      plan.RestsRunning (adding.startingLate 3) .notStarted 1 1 4) := by
  obtain ⟨plan, hplan, hhead, htasks, hrests⟩ : ∃ plan, sharedBody.assign = .ok plan ∧
      (plan.stage 1).loopHead = some 1 ∧ (plan.stage 3).tasks = [3] ∧
      plan.RestsRunning (adding.withLoops [1, 2]) (fun _ => twice) 1 1 8 :=
    PreliminaryPlan.exists_assign_of_decide (by decide +kernel)
  exact ⟨PreliminaryPlan.exists_assign_of_decide (by decide +kernel),
    ⟨plan, hplan, inBody_sharedBody hhead htasks, hrests⟩,
    PreliminaryPlan.exists_assign_of_decide (by decide +kernel),
    PreliminaryPlan.exists_assign_of_decide (by decide +kernel),
    PreliminaryPlan.exists_assign_of_decide (by decide +kernel)⟩

/-- The inner loop of two first waits for its body, and is left behind when the outer loop has
finished. -/
theorem overtaken_armed : ∃ plan here m', overtaken.assign = .ok plan ∧
    plan.midway (adding.withLoops [1, 2]) {} { memory := overtakenMemory } 3 = some here ∧
    (∃ y, plan.isInBodyOf 2 y = true ∧ here.agenda.isPending y = true) ∧
    plan.execute (adding.withLoops [1, 2]) {} { memory := overtakenMemory } =
      (.error (.unfinishedLoop 2 .running), m') ∧
    plan.IsLeft (adding.withLoops [1, 2]) m'.memory 2 := by
  obtain ⟨plan, hplan, hhead, honly, hbody, hmidway, hend⟩ :
      ∃ plan, overtaken.assign = .ok plan ∧ (plan.stage 2).loopHead = some 2 ∧
        (∀ s < plan.stages.length, (plan.stage s).loopHead = some 2 → s = 2) ∧ plan.HasBody 2 ∧
        (∃ here ∈ plan.midway (adding.withLoops [1, 2]) {} { memory := overtakenMemory } 3,
          plan.loopState (adding.withLoops [1, 2]) here.machine.memory 2 = .running ∧
            here.agenda.get 2 = .done) ∧
        (plan.execute (adding.withLoops [1, 2]) {} { memory := overtakenMemory }).1 =
          .error (.unfinishedLoop 2 .running) :=
    PreliminaryPlan.exists_assign_of_decide (by decide +kernel)
  obtain ⟨here, hhere, hrunning, hdone⟩ := hmidway
  have hexecute : plan.execute (adding.withLoops [1, 2]) {} { memory := overtakenMemory } =
      (.error (.unfinishedLoop 2 .running), _) := Prod.ext hend rfl
  obtain ⟨harmed, hleft, -⟩ := PreliminaryPlan.running_armed built_overtaken hplan
    (onward_withLoops adding [1, 2] overtaken.graph)
  refine ⟨plan, here, _, hplan, hhere, ?_, hexecute, ?_⟩
  · rcases harmed 3 here hhere 2 2 hhead hrunning hbody with h | h | ⟨h, -⟩
    · exact absurd (hdone.symm.trans (beq_iff_eq.mp h)) nofun
    · exact h
    · exact absurd (hdone.symm.trans h) nofun
  · obtain ⟨s, hs, hno⟩ := hleft 2 _ hexecute
    obtain rfl := honly s (Plan.lt_length_of_loopHead hs) hs
    exact hno.resolve_left (not_not_intro hbody)

end Dataflow
