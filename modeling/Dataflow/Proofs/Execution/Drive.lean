import Dataflow.Execution.Plan
import Mathlib.Logic.Function.Iterate

/-!
# Driving a plan

What the agenda says after a stage was executed, and how far the driver gets with a plan whose
stage executions follow a known course.

* `isPending_rearm_apart`, `isPending_rearm_running`, `isPending_rearm_finished`,
  `isPending_rearm_body`: what is pending after a stage outside of loops, a loop head that is
  running, a loop head that has finished, and a stage of a loop body.
* `rearm_of_left`: the head of a loop waits until nothing of the body is left.
* `isExecutable_eq_true_iff`, `nextExecutable_eq_some`, `nextExecutable_eq_none`,
  `isExecutable_of_nextExecutable`: the choice of a stage.
* `Conclusion`, `conclude_conclusion`: what an execution comes to that has come to rest.
* `Plan.midway`: a plan execution between two stage executions; `midway_keeps`, `drive_of_midway`,
  `drive_ending`.
* **`Follows.drive_ends`**, **`Follows.drive_limit`**: the driver on a course that ends in time, and
  on one that does not.
* `execute_of_drive`, `execute_cases`, `exists_midway_of_execute`: from the driver to the execution
  of the plan.
-/

namespace Dataflow

/-! ## Agendas -/

namespace Agenda

variable {a : Agenda} {condition : StageId → Bool} {status : StageStatus} {x : StageId}

@[simp] theorem length_setWhere : (a.setWhere condition status).length = a.length :=
  List.length_mapIdx

theorem get_of_le (h : a.length ≤ x) : a.get x = .done := by
  unfold get
  rw [List.getD_eq_getElem?_getD, List.getElem?_eq_none h]
  rfl

theorem isPending_of_le (h : a.length ≤ x) : a.isPending x = false := by
  unfold isPending
  rw [get_of_le h]
  rfl

theorem lt_length_of_isPending (h : a.isPending x = true) : x < a.length := by
  by_contra hlt
  rw [isPending_of_le (Nat.le_of_not_lt hlt)] at h
  exact absurd h (by simp)

theorem get_setWhere : (a.setWhere condition status).get x =
    if x < a.length ∧ condition x = true then status else a.get x := by
  by_cases hx : x < a.length
  · unfold get setWhere
    rw [List.getD_eq_getElem?_getD, List.getD_eq_getElem?_getD, List.getElem?_mapIdx,
      List.getElem?_eq_getElem hx]
    cases hc : condition x <;> simp [hx]
  · rw [if_neg fun h => hx h.1, get_of_le (Nat.le_of_not_lt hx), get_of_le]
    rw [length_setWhere]
    exact Nat.le_of_not_lt hx

theorem get_of_setWhere {status' : StageStatus} (h : (a.setWhere condition status).get x = status') :
    (condition x = true ∧ status = status') ∨ a.get x = status' := by
  rw [get_setWhere] at h
  split at h
  · rename_i hx
    exact Or.inl ⟨hx.2, h⟩
  · exact Or.inr h

theorem isPending_setWhere : (a.setWhere condition status).isPending x =
    if x < a.length ∧ condition x = true then status == .pending else a.isPending x := by
  unfold isPending
  rw [get_setWhere]
  split <;> rfl

theorem get_allPending {n : Nat} : (allPending n).get x = if x < n then .pending else .done := by
  unfold get allPending
  rw [List.getD_eq_getElem?_getD, List.getElem?_replicate]
  split <;> rfl

theorem isPending_allPending {n : Nat} : (allPending n).isPending x = true ↔ x < n := by
  unfold isPending
  rw [get_allPending]
  by_cases h : x < n <;> simp [h]

/-- Setting stages done or aside. -/
theorem isPending_setWhere_off (h : (status == .pending) = false) :
    (a.setWhere condition status).isPending x = true ↔
      a.isPending x = true ∧ condition x = false := by
  rw [isPending_setWhere, h]
  constructor
  · intro hx
    split at hx
    · exact absurd hx (by simp)
    · rename_i hnot
      exact ⟨hx, Bool.eq_false_iff.mpr fun hc => hnot ⟨lt_length_of_isPending hx, hc⟩⟩
  · rintro ⟨hx, hc⟩
    rw [if_neg fun h => by simp [hc] at h]
    exact hx

theorem isPending_setWhere_on : (a.setWhere condition .pending).isPending x = true ↔
    (x < a.length ∧ condition x = true) ∨ a.isPending x = true := by
  rw [isPending_setWhere]
  by_cases h : x < a.length ∧ condition x = true
  · simp [h]
  · simp only [h, if_false, false_or]

theorem pending_eq_nil : a.pending = [] ↔ ∀ x, a.isPending x = false := by
  refine List.filter_eq_nil_iff.trans ⟨fun h x => ?_, fun h x _ => by simp [h x]⟩
  by_contra hx
  have hpending := Bool.not_eq_false _ ▸ hx
  exact h x (List.mem_range.mpr (lt_length_of_isPending hpending)) hpending

end Agenda

namespace Plan

variable {ω : Type} {p : Plan} {b : Behaviour ω} {a : Agenda} {memory : ω} {s x : StageId}

/-! ## What is pending after a stage -/

@[simp] theorem length_rearm : (p.rearm b memory s a).length = a.length := by
  have hbody : ∀ a : Agenda, (p.rearmBody b memory s a).length = a.length := fun a => by
    unfold rearmBody
    split <;> simp
  have hhead : ∀ (h : StageId) (a : Agenda), (p.rearmHead b memory h a).length = a.length :=
    fun h a => by
      unfold rearmHead
      simp only
      split <;> simp
  unfold rearm
  simp only
  split <;> simp [hbody, hhead]

theorem isPending_done : (a.setWhere (· == s) .done).isPending x = true ↔
    a.isPending x = true ∧ x ≠ s := by
  rw [Agenda.isPending_setWhere_off rfl, beq_eq_false_iff_ne]

/-- After a stage outside of loops. -/
theorem isPending_rearm_apart (hh : (p.stage s).loopHead = none)
    (hl : (p.stage s).loopHeadStage = none) : (p.rearm b memory s a).isPending x = true ↔
      a.isPending x = true ∧ x ≠ s := by
  have hstate : p.headState b memory s = none := by
    unfold headState
    rw [hh]
    rfl
  unfold rearm rearmBody
  simp only [hl, hstate]
  exact isPending_done

/-- A stage of no body makes no head pending. -/
theorem rearm_of_none (hl : (p.stage s).loopHeadStage = none) :
    p.rearm b memory s a = p.rearmBody b memory s (a.setWhere (· == s) .done) := by
  unfold rearm
  simp only [hl]

/-- A stage of a body of which something is left makes no head pending. -/
theorem rearm_of_left {head y : StageId} (hl : (p.stage s).loopHeadStage = some head)
    (hy : y < p.stages.length) (hin : p.isInBodyOf head y = true)
    (hleft : (p.rearmBody b memory s (a.setWhere (· == s) .done)).isPending y = true) :
    p.rearm b memory s a = p.rearmBody b memory s (a.setWhere (· == s) .done) := by
  unfold rearm rearmHead
  simp only [hl]
  refine if_neg fun h => ?_
  have hall := List.all_eq_true.mp (Bool.and_eq_true_iff.mp h).1 y (List.mem_range.mpr hy)
  simp [hin, hleft] at hall

/-- The body of a loop that goes on. -/
theorem isPending_rearmBody_running (hs : p.headState b memory s = some .running) :
    (p.rearmBody b memory s (a.setWhere (· == s) .done)).isPending x = true ↔
      (x < a.length ∧ p.isInBodyOf s x = true) ∨ (a.isPending x = true ∧ x ≠ s) := by
  unfold rearmBody
  simp only [hs]
  rw [Agenda.isPending_setWhere_on, isPending_done, Agenda.length_setWhere]

/-- The body of a loop that has ended. -/
theorem isPending_rearmBody_finished (hs : p.headState b memory s = some .finished) :
    (p.rearmBody b memory s (a.setWhere (· == s) .done)).isPending x = true ↔
      (a.isPending x = true ∧ x ≠ s) ∧ p.isInBodyOf s x = false := by
  unfold rearmBody
  simp only [hs]
  rw [Agenda.isPending_setWhere_off rfl, isPending_done, Bool.and_eq_false_iff]
  refine and_congr_right fun hx => or_iff_left fun hno => ?_
  exact absurd (isPending_done.mpr hx) (by simp [hno])

/-- After the head of a loop that goes on. -/
theorem isPending_rearm_running (hs : p.headState b memory s = some .running)
    (hl : (p.stage s).loopHeadStage = none) : (p.rearm b memory s a).isPending x = true ↔
      (x < a.length ∧ p.isInBodyOf s x = true) ∨ (a.isPending x = true ∧ x ≠ s) := by
  rw [rearm_of_none hl, isPending_rearmBody_running hs]

/-- After the head of a loop that has ended. -/
theorem isPending_rearm_finished (hs : p.headState b memory s = some .finished)
    (hl : (p.stage s).loopHeadStage = none) : (p.rearm b memory s a).isPending x = true ↔
      (a.isPending x = true ∧ x ≠ s) ∧ p.isInBodyOf s x = false := by
  rw [rearm_of_none hl, isPending_rearmBody_finished hs]

/-- After a stage of the body of a loop that is running: its head is next when nothing of the body
is left. -/
theorem isPending_rearm_body {head : StageId} (hh : (p.stage s).loopHead = none)
    (hl : (p.stage s).loopHeadStage = some head) (hs : p.headState b memory head = some .running) :
    (p.rearm b memory s a).isPending x = true ↔
      (x < a.length ∧ x = head ∧ ∀ y < p.stages.length, p.isInBodyOf head y = true →
        a.isPending y = true → y = s) ∨ (a.isPending x = true ∧ x ≠ s) := by
  have hstate : p.headState b memory s = none := by
    unfold headState
    rw [hh]
    rfl
  have hall : (p.stageIds.all fun t =>
      !(p.isInBodyOf head t && (a.setWhere (· == s) .done).isPending t)) = true ↔
      ∀ y < p.stages.length, p.isInBodyOf head y = true → a.isPending y = true → y = s := by
    unfold stageIds
    rw [List.all_eq_true]
    refine forall_congr' fun y => imp_congr List.mem_range ?_
    rw [Bool.not_eq_true', Bool.and_eq_false_imp]
    refine imp_congr_right ?_
    intro _
    rw [Bool.eq_false_iff, Ne, isPending_done, not_and, not_not]
  unfold rearm rearmBody rearmHead
  simp only [hl, hstate, hs, BEq.rfl, Bool.and_true]
  by_cases hb : ∀ y < p.stages.length, p.isInBodyOf head y = true → a.isPending y = true → y = s
  · rw [if_pos (hall.mpr hb), Agenda.isPending_setWhere_on, isPending_done, Agenda.length_setWhere,
      beq_iff_eq]
    refine or_congr_left (and_congr_right fun _ => ?_)
    exact ⟨fun hx => ⟨hx, hb⟩, And.left⟩
  · rw [if_neg fun h => hb (hall.mp h), isPending_done]
    exact (or_iff_right fun h => hb h.2.2).symm

/-! ## The choice of a stage -/

variable {m : Machine ω}

theorem isExecutable_eq_true_iff : p.isExecutable b a m s = true ↔ a.isPending s = true ∧
    (∀ q ∈ (p.stage s).predecessors, a.isPending q = false) ∧
    ∀ t ∈ (p.stage s).tasks, p.inboundReady b m.memory m.state t = true := by
  unfold isExecutable
  simp only [Bool.and_eq_true, List.all_eq_true, Bool.not_eq_true', and_assoc]

theorem nextExecutable_eq_some (hs : s < p.stages.length)
    (hx : ∀ y < p.stages.length, p.isExecutable b a m y = true ↔ y = s) :
    p.nextExecutable b a m = some s := by
  unfold nextExecutable
  cases h : p.stageIds.find? (p.isExecutable b a m) with
  | none =>
    rw [List.find?_eq_none] at h
    exact absurd ((hx s hs).mpr rfl) (h s (List.mem_range.mpr hs))
  | some y =>
    have hy := List.mem_range.mp (List.mem_of_find?_eq_some h)
    rw [(hx y hy).mp (List.find?_some h)]

theorem nextExecutable_eq_none (h : ∀ x, a.isPending x = false) :
    p.nextExecutable b a m = none := by
  unfold nextExecutable
  refine List.find?_eq_none.mpr fun y _ hy => ?_
  exact absurd (isExecutable_eq_true_iff.mp hy).1 (by rw [h y]; nofun)

/-! ## The end -/

theorem exists_stage_of_mem {stage : Stage} (h : stage ∈ p.stages) :
    ∃ s < p.stages.length, p.stage s = stage := by
  obtain ⟨s, hs, rfl⟩ := List.getElem_of_mem h
  refine ⟨s, hs, ?_⟩
  unfold Plan.stage
  rw [List.getD_eq_getElem?_getD, List.getElem?_eq_getElem hs]
  rfl

theorem lt_length_of_loopHead {t : TaskId} (h : (p.stage s).loopHead = some t) :
    s < p.stages.length := by
  by_contra hle
  unfold stage at h
  rw [List.getD_eq_getElem?_getD, List.getElem?_eq_none (Nat.le_of_not_lt hle)] at h
  exact absurd h nofun

theorem stage_mem (hs : s < p.stages.length) : p.stage s ∈ p.stages := by
  unfold stage
  rw [List.getD_eq_getElem?_getD, List.getElem?_eq_getElem hs]
  exact List.getElem_mem hs

/-- No loop is left unfinished if every stage of a loop head has its loop finished. -/
theorem unfinishedLoop_eq_none (h : ∀ s < p.stages.length, ∀ t, (p.stage s).loopHead = some t →
    p.loopState b memory t = .finished) : p.unfinishedLoop b memory = none := by
  unfold unfinishedLoop
  refine List.findSome?_eq_none_iff.mpr fun stage hstage => ?_
  obtain ⟨s, hs, rfl⟩ := exists_stage_of_mem hstage
  cases hhead : (p.stage s).loopHead with
  | none => rfl
  | some t => simp [h s hs t hhead]

/-- A loop that is left unfinished has a stage, and is where it is said to be. -/
theorem exists_of_unfinishedLoop {t : TaskId} {state : LoopState}
    (h : p.unfinishedLoop b memory = some (t, state)) :
    ∃ s, (p.stage s).loopHead = some t ∧ p.loopState b memory t = state := by
  obtain ⟨stage, hmem, h⟩ := List.exists_of_findSome?_eq_some h
  obtain ⟨s, -, rfl⟩ := exists_stage_of_mem hmem
  obtain ⟨u, hu, h⟩ := Option.bind_eq_some_iff.mp h
  simp only at h
  split at h
  · exact absurd h nofun
  · obtain ⟨rfl, rfl⟩ := Prod.mk.inj (Option.some.inj h)
    exact ⟨s, hu, rfl⟩

/-- Where no loop is left unfinished every loop head has finished. -/
theorem loopState_of_unfinishedLoop_eq_none (h : p.unfinishedLoop b memory = none) {t : TaskId}
    (ht : (p.stage s).loopHead = some t) : p.loopState b memory t = .finished := by
  have hstage := List.findSome?_eq_none_iff.mp h _ (stage_mem (lt_length_of_loopHead ht))
  rw [ht] at hstage
  by_contra hno
  simp [hno] at hstage

/-- What an execution comes to that has come to rest. -/
inductive Conclusion (p : Plan) (b : Behaviour ω) (config : ExecutorConfig) (a : Agenda)
    (memory : ω) : Except ExecutionError Unit → Prop
  | stalls (ha : a.pending ≠ []) : Conclusion p b config a memory (.error (.stalled a.pending))
  | unfinished {t : TaskId} {state : LoopState} (ha : a.pending = [])
      (hconfig : config.requireFinishedLoops = true)
      (hloop : p.unfinishedLoop b memory = some (t, state)) :
      Conclusion p b config a memory (.error (.unfinishedLoop t state))
  | succeeds (ha : a.pending = [])
      (hloops : config.requireFinishedLoops = true → p.unfinishedLoop b memory = none) :
      Conclusion p b config a memory (.ok ())

theorem conclude_conclusion (p : Plan) (b : Behaviour ω) (config : ExecutorConfig) (a : Agenda)
    (memory : ω) : p.Conclusion b config a memory (p.conclude b config a memory) := by
  unfold conclude
  split
  · rename_i ha
    exact .stalls ha
  · rename_i ha
    split
    · rename_i hconfig
      split
      · rename_i hloop
        exact .unfinished (not_not.mp ha) hconfig hloop
      · rename_i hnone
        exact .succeeds (not_not.mp ha) fun _ => hnone
    · rename_i hconfig
      exact .succeeds (not_not.mp ha) fun h => absurd h hconfig

/-- An execution stalls that leaves something pending. -/
theorem conclude_eq_stalled (config : ExecutorConfig) (h : a.pending ≠ []) :
    p.conclude b config a memory = .error (.stalled a.pending) := if_pos h

/-- An execution succeeds that leaves nothing pending and no loop unfinished. -/
theorem conclude_eq_ok (config : ExecutorConfig) (ha : ∀ y, a.isPending y = false)
    (h : ∀ s < p.stages.length, ∀ t, (p.stage s).loopHead = some t →
      p.loopState b memory t = .finished) : p.conclude b config a memory = .ok () := by
  unfold conclude
  rw [if_neg (not_not_intro (Agenda.pending_eq_nil.mpr ha)), unfinishedLoop_eq_none h]
  simp

/-- An execution that succeeds leaves nothing pending, and no loop unfinished if it must not. -/
theorem of_conclude_eq_ok {config : ExecutorConfig} (h : p.conclude b config a memory = .ok ()) :
    (∀ y, a.isPending y = false) ∧ (config.requireFinishedLoops = true → ∀ s t,
      (p.stage s).loopHead = some t → p.loopState b memory t = .finished) := by
  have hconclusion := p.conclude_conclusion b config a memory
  rw [h] at hconclusion
  cases hconclusion with
  | succeeds ha hloops =>
    exact ⟨Agenda.pending_eq_nil.mp ha,
      fun hconfig s t ht => loopState_of_unfinishedLoop_eq_none (hloops hconfig) ht⟩

/-- An execution that ends with a loop unfinished leaves nothing pending either. -/
theorem isPending_of_conclude_eq_unfinishedLoop {config : ExecutorConfig} {t : TaskId}
    {state : LoopState} (h : p.conclude b config a memory = .error (.unfinishedLoop t state)) :
    (∀ y, a.isPending y = false) ∧
      ∃ s, (p.stage s).loopHead = some t ∧ p.loopState b memory t = state := by
  have hconclusion := p.conclude_conclusion b config a memory
  rw [h] at hconclusion
  cases hconclusion with
  | unfinished ha _ hloop => exact ⟨Agenda.pending_eq_nil.mp ha, exists_of_unfinishedLoop hloop⟩

/-- An execution that stalls names what is pending. -/
theorem pending_of_conclude {config : ExecutorConfig} {xs : List StageId}
    (h : p.conclude b config a memory = .error (.stalled xs)) : xs = a.pending ∧ xs ≠ [] := by
  have hconclusion := p.conclude_conclusion b config a memory
  rw [h] at hconclusion
  cases hconclusion with
  | stalls ha => exact ⟨rfl, ha⟩

/-! ## Between stage executions -/

/-- A plan execution between two stage executions. -/
structure Midway (ω : Type) where
  agenda : Agenda
  /-- The stage executions so far, in order. -/
  reports : List StageReport
  machine : Machine ω

/-- Where a plan execution is after `n` stage executions, if it gets that far and unless their number
is limited. -/
def midway (p : Plan) (b : Behaviour ω) (config : ExecutorConfig) (m : Machine ω) :
    Nat → Option (Midway ω)
  | 0 =>
    let n := p.stages.length
    some ⟨.allPending n, [], { m with events := m.events.push (.planStarted n) }⟩
  | n + 1 =>
    (p.midway b config m n).bind fun here =>
      (p.nextExecutable b here.agenda here.machine).bind fun s =>
        match p.executeStage b config s here.machine with
        | (.error _, _) => none
        | (.ok report, m') =>
          some ⟨p.rearm b m'.memory s here.agenda, here.reports ++ [report], m'⟩

section Midway

variable {config : ExecutorConfig}

theorem midway_succ {n : Nat} {there : Midway ω} (h : p.midway b config m (n + 1) = some there) :
    ∃ here s report, p.midway b config m n = some here ∧
      p.nextExecutable b here.agenda here.machine = some s ∧
      p.executeStage b config s here.machine = (.ok report, there.machine) ∧
      there.agenda = p.rearm b there.machine.memory s here.agenda ∧
      there.reports = here.reports ++ [report] := by
  unfold midway at h
  obtain ⟨here, hhere, h⟩ := Option.bind_eq_some_iff.mp h
  obtain ⟨s, hs, h⟩ := Option.bind_eq_some_iff.mp h
  rcases hrun : p.executeStage b config s here.machine with ⟨_ | report, m'⟩
  · rw [hrun] at h
    exact absurd h (by simp)
  · rw [hrun] at h
    obtain rfl := Option.some.inj h
    exact ⟨here, s, report, hhere, hs, hrun, rfl, rfl⟩

/-- A plan execution goes no further than to where no stage can be executed. -/
theorem midway_succ_of_none {n : Nat} {here : Midway ω} (hhere : p.midway b config m n = some here)
    (hnext : p.nextExecutable b here.agenda here.machine = none) :
    p.midway b config m (n + 1) = none := by
  unfold midway
  rw [hhere, Option.bind_some, hnext, Option.bind_none]

/-- Nor does it go further than to where the next stage execution fails. -/
theorem midway_succ_of_error {n : Nat} {here : Midway ω} {s : StageId} {e : ExecutionError}
    {m' : Machine ω} (hhere : p.midway b config m n = some here)
    (hnext : p.nextExecutable b here.agenda here.machine = some s)
    (hrun : p.executeStage b config s here.machine = (.error e, m')) :
    p.midway b config m (n + 1) = none := by
  unfold midway
  rw [hhere, Option.bind_some, hnext, Option.bind_some, hrun]

/-- A plan execution comes through all the points before one of them. -/
theorem exists_midway_of_le {k : Nat} : ∀ {n : Nat} {there : Midway ω}, k ≤ n →
    p.midway b config m n = some there →
      ∃ here, p.midway b config m k = some here ∧ here.reports <+: there.reports
  | 0, there, hk, h => ⟨there, Nat.le_zero.mp hk ▸ h, List.prefix_rfl⟩
  | n + 1, there, hk, h => by
    rcases Nat.le_succ_iff.mp hk with hk | rfl
    · obtain ⟨between, _, _, hbetween, -, -, -, hreports⟩ := midway_succ h
      obtain ⟨here, hhere, hpast⟩ := exists_midway_of_le hk hbetween
      exact ⟨here, hhere, hpast.trans (hreports ▸ List.prefix_append _ _)⟩
    · exact ⟨there, h, List.prefix_rfl⟩

/-- What each stage execution keeps is kept from one point of an execution to all later ones. -/
theorem midway_keeps {I : Midway ω → Prop} {k : Nat} {here : Midway ω}
    (hhere : p.midway b config m k = some here) (h : I here)
    (hstep : ∀ {n : Nat} {between there : Midway ω} {s : StageId} {report : StageReport},
      p.midway b config m n = some between →
      p.nextExecutable b between.agenda between.machine = some s →
      p.executeStage b config s between.machine = (.ok report, there.machine) → I between →
      I there) : ∀ {n : Nat} {there : Midway ω}, k ≤ n → p.midway b config m n = some there → I there
  | 0, there, hk, hthere => by
    obtain rfl := Nat.le_zero.mp hk
    obtain rfl := Option.some.inj (hhere.symm.trans hthere)
    exact h
  | n + 1, there, hk, hthere => by
    rcases Nat.le_succ_iff.mp hk with hk | rfl
    · obtain ⟨between, s, report, hbetween, hnext, hrun, -, -⟩ := midway_succ hthere
      exact hstep hbetween hnext hrun (midway_keeps hhere h hstep hk hbetween)
    · obtain rfl := Option.some.inj (hhere.symm.trans hthere)
      exact h

theorem length_reports : ∀ {n : Nat} {here : Midway ω}, p.midway b config m n = some here →
    here.reports.length = n
  | 0, here, h => by
    obtain rfl := Option.some.inj h
    rfl
  | n + 1, there, h => by
    obtain ⟨here, s, report, hhere, -, -, -, hreports⟩ := midway_succ h
    rw [hreports, List.length_append, length_reports hhere]
    rfl

/-- The driver comes through every one of these points. -/
theorem drive_of_midway {allowed : Nat} : ∀ {n : Nat} {here : Midway ω}, n ≤ allowed →
    p.midway b config m n = some here →
    p.drive b config allowed (.allPending p.stages.length) #[]
      { m with events := m.events.push (.planStarted p.stages.length) } =
      p.drive b config (allowed - n) here.agenda here.reports.toArray here.machine
  | 0, here, _, h => by
    obtain rfl := Option.some.inj h
    rfl
  | n + 1, there, hn, h => by
    obtain ⟨here, s, report, hhere, hs, hrun, ha, hr⟩ := midway_succ h
    rw [drive_of_midway (Nat.le_of_succ_le hn) hhere, ha, hr]
    obtain ⟨k, hk⟩ : ∃ k, allowed - n = k + 1 := ⟨allowed - n - 1, by omega⟩
    have hk' : allowed - (n + 1) = k := by omega
    rw [hk, hk', drive]
    simp only [hs, hrun, List.push_toArray]

theorem nextExecutable_lt {a : Agenda} {s : StageId} (h : p.nextExecutable b a m = some s) :
    s < p.stages.length := List.mem_range.mp (List.mem_of_find?_eq_some h)

theorem isExecutable_of_nextExecutable {a : Agenda} {s : StageId}
    (h : p.nextExecutable b a m = some s) : p.isExecutable b a m s = true := List.find?_some h

theorem isPending_of_nextExecutable {a : Agenda} {s : StageId}
    (h : p.nextExecutable b a m = some s) : a.isPending s = true :=
  (isExecutable_eq_true_iff.mp (isExecutable_of_nextExecutable h)).1

theorem inboundReady_of_nextExecutable {a : Agenda} {s : StageId}
    (h : p.nextExecutable b a m = some s) :
    ∀ t ∈ (p.stage s).tasks, p.inboundReady b m.memory m.state t = true :=
  (isExecutable_eq_true_iff.mp (isExecutable_of_nextExecutable h)).2.2

theorem not_isExecutable_of_lt {a : Agenda} {s x : StageId}
    (h : p.nextExecutable b a m = some s) (hlt : x < s) : p.isExecutable b a m x = false := by
  unfold nextExecutable stageIds at h
  exact Bool.not_eq_true' _ ▸ (List.find?_range_eq_some.mp h).2.2 x hlt

/-- How the driver ends that may take `limit` stage executions: where no stage can be executed, where
none is allowed any more, or with a stage execution that fails. -/
inductive DriveEnding (p : Plan) (b : Behaviour ω) (config : ExecutorConfig) (m : Machine ω)
    (limit : Nat) : Except ExecutionError Unit × Array StageReport × Machine ω → Prop
  | rests {n : Nat} {here : Midway ω} (hn : n ≤ limit) (hhere : p.midway b config m n = some here)
      (hnext : p.nextExecutable b here.agenda here.machine = none) :
      DriveEnding p b config m limit (p.conclude b config here.agenda here.machine.memory,
        here.reports.toArray, here.machine)
  | exceeds {here : Midway ω} {s : StageId} (hhere : p.midway b config m limit = some here)
      (hnext : p.nextExecutable b here.agenda here.machine = some s) :
      DriveEnding p b config m limit (.error (.iterationLimit config.maxStageExecutions.toNat),
        here.reports.toArray, here.machine)
  | fails {n : Nat} {here : Midway ω} {s : StageId} {e : ExecutionError} {m' : Machine ω}
      (hn : n < limit) (hhere : p.midway b config m n = some here)
      (hnext : p.nextExecutable b here.agenda here.machine = some s)
      (hrun : p.executeStage b config s here.machine = (.error e, m')) :
      DriveEnding p b config m limit (.error e, here.reports.toArray, m')

/-- Wherever the driver goes on from, it ends in one of these ways. -/
theorem drive_ending : ∀ {allowed n : Nat} {here : Midway ω}, p.midway b config m n = some here →
    p.DriveEnding b config m (n + allowed)
      (p.drive b config allowed here.agenda here.reports.toArray here.machine)
  | 0, n, here, hhere => by
    unfold drive
    split
    · rename_i hnext
      exact .rests (Nat.le_refl _) hhere hnext
    · rename_i s hnext
      exact .exceeds hhere hnext
  | allowed + 1, n, here, hhere => by
    unfold drive
    split
    · rename_i hnext
      exact .rests (Nat.le_add_right _ _) hhere hnext
    · rename_i s hnext
      split
      · rename_i e m' hrun
        exact .fails (Nat.lt_add_of_pos_right (Nat.succ_pos _)) hhere hnext hrun
      · rename_i report m' hrun
        have hthere : p.midway b config m (n + 1) = some
            ⟨p.rearm b m'.memory s here.agenda, here.reports ++ [report], m'⟩ := by
          unfold midway
          rw [hhere, Option.bind_some, hnext, Option.bind_some, hrun]
        rw [List.push_toArray, Nat.add_comm allowed, ← Nat.add_assoc]
        exact drive_ending hthere

end Midway

/-! ## The driver -/

/-- The stage executions of a plan follow a course: `I` says what holds at each of its points, and
after each point that is not the end the next one is reached by one stage execution. -/
structure Follows {τ : Type} (p : Plan) (b : Behaviour ω) (config : ExecutorConfig)
    (next : τ → τ) (isEnd : τ → Prop)
    (I : τ → Agenda → Array StageReport → Machine ω → Prop) : Prop where
  step : ∀ t a reports m, I t a reports m → ¬ isEnd t → ∃ s report m',
    p.nextExecutable b a m = some s ∧ p.executeStage b config s m = (.ok report, m') ∧
      I (next t) (p.rearm b m'.memory s a) (reports.push report) m'
  stop : ∀ t a reports m, I t a reports m → isEnd t → p.nextExecutable b a m = none

section Course

variable {τ : Type} {config : ExecutorConfig} {next : τ → τ} {isEnd : τ → Prop}
  {I : τ → Agenda → Array StageReport → Machine ω → Prop}

/-- **A course that ends in time is followed to its end.** -/
theorem Follows.drive_ends (h : Follows p b config next isEnd I) : ∀ {k allowed : Nat} {t : τ}
    {a : Agenda} {reports : Array StageReport} {m : Machine ω}, I t a reports m →
      (∀ j < k, ¬ isEnd (next^[j] t)) → isEnd (next^[k] t) → k ≤ allowed →
      ∃ a' reports' m', p.drive b config allowed a reports m =
        (p.conclude b config a' m'.memory, reports', m') ∧
        I (next^[k] t) a' reports' m' ∧ reports'.size = reports.size + k := by
  intro k
  induction k with
  | zero =>
    intro allowed t a reports m hI _ hend _
    refine ⟨a, reports, m, ?_, hI, rfl⟩
    cases allowed <;> simp only [drive, h.stop t a reports m hI hend]
  | succ k ih =>
    intro allowed t a reports m hI hgo hend hle
    obtain ⟨allowed, rfl⟩ : ∃ n, allowed = n + 1 := ⟨allowed - 1, by omega⟩
    obtain ⟨s, report, m₁, hnext, hrun, hI₁⟩ := h.step t a reports m hI (hgo 0 (by omega))
    obtain ⟨a', reports', m', hdrive, hI', hsize⟩ := ih hI₁
      (fun j hj => hgo (j + 1) (by omega)) hend (Nat.le_of_succ_le_succ hle)
    refine ⟨a', reports', m', ?_, hI', ?_⟩
    · simp only [drive, hnext, hrun]
      exact hdrive
    · rw [hsize, Array.size_push]
      omega

/-- **A course that does not end in time is given up.** -/
theorem Follows.drive_limit (h : Follows p b config next isEnd I) : ∀ {allowed : Nat} {t : τ}
    {a : Agenda} {reports : Array StageReport} {m : Machine ω}, I t a reports m →
      (∀ j ≤ allowed, ¬ isEnd (next^[j] t)) → (p.drive b config allowed a reports m).1 =
        .error (.iterationLimit config.maxStageExecutions.toNat) := by
  intro allowed
  induction allowed with
  | zero =>
    intro t a reports m hI hgo
    obtain ⟨s, report, m₁, hnext, -⟩ := h.step t a reports m hI (hgo 0 (by omega))
    simp only [drive, hnext]
  | succ allowed ih =>
    intro t a reports m hI hgo
    obtain ⟨s, report, m₁, hnext, hrun, hI₁⟩ := h.step t a reports m hI (hgo 0 (by omega))
    simp only [drive, hnext, hrun]
    exact ih hI₁ fun j hj => hgo (j + 1) (by omega)

end Course

/-- The execution of a plan ends as the driver does. -/
theorem execute_of_drive {config : ExecutorConfig} {m m' : Machine ω}
    {result : Except ExecutionError Unit} {reports : Array StageReport}
    (h : p.drive b config config.maxStageExecutions.toNat (.allPending p.stages.length) #[]
      { m with events := m.events.push (.planStarted p.stages.length) } = (result, reports, m')) :
    p.execute b config m = (result.map fun _ => ⟨reports.toList, m'.state.cardinalities.toList⟩,
      { m' with events := m'.events.push (.planCompleted result.isOk reports.size) }) := by
  unfold execute
  simp only
  rw [h]
  cases result <;> rfl

/-- How the execution of a plan ends, and after how many stage executions: it comes to rest where no
stage can be executed, the last stage execution fails, or more of them were needed than are
allowed. -/
inductive Ending (p : Plan) (b : Behaviour ω) (config : ExecutorConfig) (m : Machine ω) :
    Nat → Except ExecutionError PlanReport × Machine ω → Prop
  | rests {n : Nat} {here : Midway ω} {result : Except ExecutionError Unit}
      (hhere : p.midway b config m n = some here)
      (hnext : p.nextExecutable b here.agenda here.machine = none)
      (hresult : p.conclude b config here.agenda here.machine.memory = result) :
      Ending p b config m n (result.map fun _ =>
          ⟨here.reports, here.machine.state.cardinalities.toList⟩,
        { here.machine with
          events := here.machine.events.push (.planCompleted result.isOk here.reports.length) })
  | fails {n : Nat} {here : Midway ω} {s : StageId} {e : ExecutionError} {m' : Machine ω}
      (hhere : p.midway b config m n = some here)
      (hnext : p.nextExecutable b here.agenda here.machine = some s)
      (hrun : p.executeStage b config s here.machine = (.error e, m')) :
      Ending p b config m (n + 1) (.error e,
        { m' with events := m'.events.push (.planCompleted false here.reports.length) })
  | exceeds {here : Midway ω} {s : StageId}
      (hhere : p.midway b config m config.maxStageExecutions.toNat = some here)
      (hnext : p.nextExecutable b here.agenda here.machine = some s) :
      Ending p b config m config.maxStageExecutions.toNat
        (.error (.iterationLimit config.maxStageExecutions.toNat),
          { here.machine with
            events := here.machine.events.push (.planCompleted false here.reports.length) })

/-- **The execution of a plan ends** after no more stage executions than are allowed. -/
theorem execute_ending (p : Plan) (b : Behaviour ω) (config : ExecutorConfig) (m : Machine ω) :
    ∃ n ≤ config.maxStageExecutions.toNat, p.Ending b config m n (p.execute b config m) := by
  have hending : p.DriveEnding b config m (0 + config.maxStageExecutions.toNat) _ :=
    drive_ending (rfl : p.midway b config m 0 = some _)
  rw [Nat.zero_add] at hending
  generalize hdrive : p.drive b config _ _ _ _ = ending at hending
  rw [execute_of_drive hdrive]
  cases hending with
  | rests hn hhere hnext => exact ⟨_, hn, .rests hhere hnext rfl⟩
  | exceeds hhere hnext => exact ⟨_, Nat.le_refl _, .exceeds hhere hnext⟩
  | fails hn hhere hnext hrun => exact ⟨_, hn, .fails hhere hnext hrun⟩

/-- The execution of a plan comes to rest where no stage can be executed, or the stage executions
exceed what is allowed, or one of them fails. -/
theorem execute_cases {config : ExecutorConfig} {m m' : Machine ω}
    {result : Except ExecutionError PlanReport} (h : p.execute b config m = (result, m')) :
    (∃ n here, p.midway b config m n = some here ∧
      p.nextExecutable b here.agenda here.machine = none ∧
      result = (p.conclude b config here.agenda here.machine.memory).map
        (fun _ => ⟨here.reports, here.machine.state.cardinalities.toList⟩) ∧
      m' = { here.machine with
        events := here.machine.events.push (.planCompleted result.isOk here.reports.length) }) ∨
    result = .error (.iterationLimit config.maxStageExecutions.toNat) ∨
    ∃ n here s e m'', p.midway b config m n = some here ∧
      p.nextExecutable b here.agenda here.machine = some s ∧
      p.executeStage b config s here.machine = (.error e, m'') ∧ result = .error e := by
  obtain ⟨n, -, hending⟩ := p.execute_ending b config m
  rw [h] at hending
  cases hending with
  | @rests n here outcome hhere hnext hresult =>
    refine Or.inl ⟨n, here, hhere, hnext, hresult ▸ rfl, ?_⟩
    cases outcome <;> rfl
  | exceeds => exact Or.inr (Or.inl rfl)
  | fails hhere hnext hrun => exact Or.inr (Or.inr ⟨_, _, _, _, _, hhere, hnext, hrun, rfl⟩)

/-- An execution that comes to rest in time ends there. -/
theorem execute_of_rest {config : ExecutorConfig} {m : Machine ω} {n : Nat} {here : Midway ω}
    (hhere : p.midway b config m n = some here)
    (hnext : p.nextExecutable b here.agenda here.machine = none)
    (hn : n ≤ config.maxStageExecutions.toNat) {result : Except ExecutionError Unit}
    (hresult : p.conclude b config here.agenda here.machine.memory = result) :
    p.execute b config m = (result.map fun _ =>
        ⟨here.reports, here.machine.state.cardinalities.toList⟩,
      { here.machine with events :=
          here.machine.events.push (.planCompleted result.isOk here.reports.length) }) := by
  have hdrive := drive_of_midway hn hhere
  have hrest : p.drive b config (config.maxStageExecutions.toNat - n) here.agenda
      here.reports.toArray here.machine = (result, here.reports.toArray, here.machine) := by
    unfold drive
    split <;> simp only [hnext, hresult]
  exact execute_of_drive (hdrive.trans hrest)

/-- An execution that could go on where it may not is given up. -/
theorem execute_of_excess {config : ExecutorConfig} {m : Machine ω} {here : Midway ω} {s : StageId}
    (hhere : p.midway b config m config.maxStageExecutions.toNat = some here)
    (hnext : p.nextExecutable b here.agenda here.machine = some s) :
    p.execute b config m = (.error (.iterationLimit config.maxStageExecutions.toNat),
      { here.machine with events :=
          here.machine.events.push (.planCompleted false here.reports.length) }) := by
  have hdrive := drive_of_midway (Nat.le_refl _) hhere
  have hexcess : p.drive b config 0 here.agenda here.reports.toArray here.machine =
      (.error (.iterationLimit config.maxStageExecutions.toNat), here.reports.toArray,
        here.machine) := by
    unfold drive
    simp only [hnext]
  rw [Nat.sub_self] at hdrive
  exact execute_of_drive (hdrive.trans hexcess)

/-- An execution that succeeds has come to rest. -/
theorem exists_rest_of_ok {config : ExecutorConfig} {m m' : Machine ω} {report : PlanReport}
    (h : p.execute b config m = (.ok report, m')) : ∃ n here, p.midway b config m n = some here ∧
      p.conclude b config here.agenda here.machine.memory = .ok () ∧
      report.stages = here.reports ∧ m'.memory = here.machine.memory := by
  rcases execute_cases h with ⟨n, here, hhere, -, hresult, rfl⟩ | hlimit | ⟨_, _, _, _, _, _, _, _, he⟩
  · cases hc : p.conclude b config here.agenda here.machine.memory with
    | error e =>
      rw [hc] at hresult
      exact absurd hresult nofun
    | ok _ =>
      rw [hc] at hresult
      exact ⟨n, here, hhere, hc, by rw [Except.ok.inj hresult], rfl⟩
  · exact absurd hlimit nofun
  · exact absurd he nofun

/-- Where it has, nothing is pending. -/
theorem exists_midway_of_execute {config : ExecutorConfig} {m m' : Machine ω} {report : PlanReport}
    (h : p.execute b config m = (.ok report, m')) : ∃ n here, p.midway b config m n = some here ∧
      report.stages = here.reports ∧ ∀ x, here.agenda.isPending x = false := by
  obtain ⟨n, here, hhere, hok, hreports, -⟩ := exists_rest_of_ok h
  exact ⟨n, here, hhere, hreports, (of_conclude_eq_ok hok).1⟩

theorem execute_eq_error {config : ExecutorConfig} {m : Machine ω} {e : ExecutionError}
    (h : (p.drive b config config.maxStageExecutions.toNat (.allPending p.stages.length) #[]
      { m with events := m.events.push (.planStarted p.stages.length) }).1 = .error e) :
    (p.execute b config m).1 = .error e := by
  rw [execute_of_drive rfl, h]
  rfl

end Plan

end Dataflow
