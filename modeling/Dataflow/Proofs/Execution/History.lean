import Dataflow.Proofs.Execution.Onward
import Dataflow.Proofs.Loop.Nested.Outcome
import Dataflow.Proofs.Plan.Quotient

/-!
# The history of a plan execution

What an agenda means, said through what has happened to the stages. At first every stage is armed. A
stage that is executed is so no longer; if it is a loop head that is running then its body is armed
again, if it is one that has finished then what is left of its body is skipped, and when nothing is
left of the body of a loop that is running then its head is armed. A stage is pending if and only if
it has been neither executed nor skipped since it was last armed.

A history has three kinds of entries, and `isSettled` asks for the last one about a stage. That the
agenda says the same is an invariant of single steps: the execution of a stage changes the agenda in
three ways, and each has its kind of entry.

* `History.isSettled`: a stage was executed or skipped since it was last armed.
* `Plan.history`: the history of a plan execution up to any of its stage executions.
* `Reflects.rearm`, **`reflects_history`**: the agenda says what the history says.
* **`PreliminaryPlan.execute_settles`**: what is known when an execution succeeds, when it stalls, and
  when a stage is executed.

Nothing is assumed of the operators. In particular a loop head may come to a state by itself, be taken
back or finish without having run; the statements speak of the state in which the driver found the
head when it looked. Only where a skipped stage is told to have a loop head that is still finished in
the end do loop heads have to move on (`Behaviour.Onward`).
-/

namespace Dataflow

/-- What happens to a stage. -/
inductive Deed where
  | armed (s : StageId)
  | executed (s : StageId)
  | skipped (s : StageId)
  deriving DecidableEq, Repr

/-- What has happened to the stages of a plan, the latest first. -/
abbrev History := List Deed

namespace History

/-- Whether a stage has been executed or skipped since it was last armed. -/
def isSettled : History → StageId → Bool
  | [], _ => false
  | .armed x :: h, s => x != s && isSettled h s
  | .executed x :: h, s => x == s || isSettled h s
  | .skipped x :: h, s => x == s || isSettled h s

variable {h : History} {x : StageId}

theorem isSettled_executed {s : StageId} :
    isSettled (.executed s :: h) x = false ↔ s ≠ x ∧ h.isSettled x = false := by
  rw [isSettled, Bool.or_eq_false_iff, beq_eq_false_iff_ne]

theorem isSettled_armed : ∀ {xs : List StageId}, isSettled (xs.map .armed ++ h) x = false ↔
    x ∈ xs ∨ h.isSettled x = false
  | [] => by simp
  | y :: xs => by
    rw [List.map_cons, List.cons_append, isSettled, Bool.and_eq_false_iff, isSettled_armed,
      bne_eq_false_iff_eq, List.mem_cons, or_assoc, eq_comm]

theorem isSettled_skipped : ∀ {xs : List StageId}, isSettled (xs.map .skipped ++ h) x = false ↔
    x ∉ xs ∧ h.isSettled x = false
  | [] => by simp
  | y :: xs => by
    rw [List.map_cons, List.cons_append, isSettled, Bool.or_eq_false_iff, isSettled_skipped,
      beq_eq_false_iff_ne, List.mem_cons, not_or, and_assoc, ne_comm]

/-- A stage that is settled was executed or skipped. -/
theorem mem_of_isSettled : ∀ {h : History}, h.isSettled x = true → .executed x ∈ h ∨ .skipped x ∈ h
  | [], hx => absurd hx nofun
  | .armed _ :: _, hx => (mem_of_isSettled (Bool.and_eq_true_iff.mp hx).2).imp
      (List.mem_cons_of_mem _) (List.mem_cons_of_mem _)
  | .executed _ :: _, hx => (Bool.or_eq_true_iff.mp hx).elim
      (fun hy => Or.inl (beq_iff_eq.mp hy ▸ List.mem_cons_self))
      fun hx => (mem_of_isSettled hx).imp (List.mem_cons_of_mem _) (List.mem_cons_of_mem _)
  | .skipped _ :: _, hx => (Bool.or_eq_true_iff.mp hx).elim
      (fun hy => Or.inr (beq_iff_eq.mp hy ▸ List.mem_cons_self))
      fun hx => (mem_of_isSettled hx).imp (List.mem_cons_of_mem _) (List.mem_cons_of_mem _)

end History

namespace Plan

variable {ω : Type} {p : Plan} {b : Behaviour ω} {memory : ω} {s x : StageId}

/-! ## The rules -/

/-- What the execution of a loop head leads to: a running loop starts an iteration, a finished one
drops what is left of its body. -/
def tellBody (p : Plan) (b : Behaviour ω) (memory : ω) (s : StageId) (h : History) : History :=
  let body := p.stageIds.filter (p.isInBodyOf s)
  match p.headState b memory s with
  | some .running => body.map .armed ++ h
  | some .finished => (body.filter fun x => !h.isSettled x).map .skipped ++ h
  | _ => h

/-- What the execution of a stage of the body of `head` leads to: if nothing of the body is left, a
running loop head is next. -/
def tellHead (p : Plan) (b : Behaviour ω) (memory : ω) (head : StageId) (h : History) : History :=
  if (∀ x ∈ p.stageIds, p.isInBodyOf head x = true → h.isSettled x = true) ∧
      p.headState b memory head = some .running then .armed head :: h
  else h

/-- The history after a stage was executed. -/
def tell (p : Plan) (b : Behaviour ω) (memory : ω) (s : StageId) (h : History) : History :=
  let h := p.tellBody b memory s (.executed s :: h)
  match (p.stage s).loopHeadStage with
  | some head => p.tellHead b memory head h
  | none => h

/-- What has happened to the stages in the first `n` stage executions of a plan. -/
def history (p : Plan) (b : Behaviour ω) (config : ExecutorConfig) (m : Machine ω) : Nat → History
  | 0 => p.stageIds.map .armed
  | n + 1 =>
    let past := p.history b config m n
    match (p.midway b config m (n + 1)).bind fun there =>
      there.reports.getLast?.map fun report => (report.stage, there.machine.memory) with
    | some (s, memory) => p.tell b memory s past
    | none => past

/-! ## Agendas and histories -/

/-- The stages that are pending are those that are not settled. -/
def Reflects (a : Agenda) (h : History) : Prop :=
  ∀ x < a.length, a.isPending x = true ↔ h.isSettled x = false

variable {a : Agenda} {h : History}

theorem Reflects.executed (hr : Reflects a h) :
    Reflects (a.setWhere (· == s) .done) (.executed s :: h) := fun x hx => by
  rw [Agenda.length_setWhere] at hx
  rw [isPending_done, hr x hx, History.isSettled_executed, and_comm, ne_comm]

theorem mem_body : x ∈ p.stageIds.filter (p.isInBodyOf s) ↔
    x < p.stages.length ∧ p.isInBodyOf s x = true := by
  rw [List.mem_filter]
  exact and_congr_left fun _ => List.mem_range

theorem Reflects.rearmBody (hr : Reflects a h) (hlen : a.length = p.stages.length) :
    Reflects (p.rearmBody b memory s a) (p.tellBody b memory s h) := by
  unfold Plan.rearmBody tellBody
  cases p.headState b memory s with
  | none => exact hr
  | some state =>
    cases state with
    | notStarted => exact hr
    | running =>
      intro x hx
      rw [Agenda.length_setWhere] at hx
      refine (Agenda.isPending_setWhere_on.trans ?_).trans History.isSettled_armed.symm
      rw [hr x hx, mem_body, ← hlen]
    | finished =>
      intro x hx
      rw [Agenda.length_setWhere] at hx
      refine ((Agenda.isPending_setWhere_off rfl).trans ?_).trans History.isSettled_skipped.symm
      rw [hr x hx, and_comm]
      refine and_congr_left fun hnot => ?_
      rw [(hr x hx).mpr hnot, List.mem_filter, mem_body, ← hlen, hnot]
      simp [hx]

theorem Reflects.rearmHead {head : StageId} (hr : Reflects a h) (hlen : a.length = p.stages.length) :
    Reflects (p.rearmHead b memory head a) (p.tellHead b memory head h) := by
  have hdone : (p.stageIds.all fun x => !(p.isInBodyOf head x && a.isPending x)) = true ↔
      ∀ x ∈ p.stageIds, p.isInBodyOf head x = true → h.isSettled x = true := by
    rw [List.all_eq_true]
    refine forall₂_congr fun x hx => ?_
    rw [Bool.not_eq_true', Bool.and_eq_false_imp]
    refine imp_congr_right fun _ => ?_
    rw [← Bool.not_eq_true, hr x (hlen.symm ▸ List.mem_range.mp hx), Bool.not_eq_false]
  unfold Plan.rearmHead tellHead
  simp only [Bool.and_eq_true, hdone, beq_iff_eq]
  split
  · intro x hx
    rw [Agenda.length_setWhere] at hx
    rw [Agenda.isPending_setWhere_on, hr x hx, beq_iff_eq, History.isSettled, Bool.and_eq_false_iff,
      bne_eq_false_iff_eq, eq_comm (a := x)]
    exact or_congr_left (and_iff_right hx)
  · exact hr

/-- **The rules keep to each other.** -/
theorem Reflects.rearm (hr : Reflects a h) (hlen : a.length = p.stages.length) :
    Reflects (p.rearm b memory s a) (p.tell b memory s h) := by
  have hbody : Reflects (p.rearmBody b memory s (a.setWhere (· == s) .done))
      (p.tellBody b memory s (.executed s :: h)) :=
    hr.executed.rearmBody (Agenda.length_setWhere.trans hlen)
  unfold Plan.rearm tell
  cases (p.stage s).loopHeadStage with
  | none => exact hbody
  | some head =>
    refine hbody.rearmHead ?_
    unfold Plan.rearmBody
    split <;> simp [hlen]

/-! ## Along an execution -/

variable {config : ExecutorConfig} {m : Machine ω}

theorem history_succ {n : Nat} {here there : Midway ω} {report : StageReport}
    (hthere : p.midway b config m (n + 1) = some there)
    (hreports : there.reports = here.reports ++ [report]) :
    p.history b config m (n + 1) =
      p.tell b there.machine.memory report.stage (p.history b config m n) := by
  rw [history, hthere]
  simp [hreports]

/-- The history of the first stage executions is what it was. -/
theorem midway_history_succ {n : Nat} {there : Midway ω}
    (h : p.midway b config m (n + 1) = some there) : ∃ here s report,
      p.midway b config m n = some here ∧ p.nextExecutable b here.agenda here.machine = some s ∧
      there.agenda = p.rearm b there.machine.memory s here.agenda ∧
      there.reports = here.reports ++ [report] ∧ report.stage = s ∧
      p.history b config m (n + 1) = p.tell b there.machine.memory s (p.history b config m n) := by
  obtain ⟨here, s, report, hhere, hnext, hrun, ha, hreports⟩ := midway_succ h
  have hstage := stage_of_executeStage hrun
  exact ⟨here, s, report, hhere, hnext, ha, hreports, hstage, hstage ▸ history_succ h hreports⟩

/-- **Between stage executions the agenda says what the history says.** -/
theorem reflects_history : ∀ {n : Nat} {here : Midway ω}, p.midway b config m n = some here →
    here.agenda.length = p.stages.length ∧ Reflects here.agenda (p.history b config m n)
  | 0, here, h => by
    obtain rfl := Option.some.inj h
    refine ⟨List.length_replicate, fun x hx => ?_⟩
    have hmem : x ∈ p.stageIds := List.mem_range.mpr (List.length_replicate (n := p.stages.length) ▸ hx)
    have harmed := (History.isSettled_armed (h := [])).mpr (Or.inl hmem)
    rw [List.append_nil] at harmed
    exact iff_of_true (Agenda.isPending_allPending.mpr (List.mem_range.mp hmem)) harmed
  | n + 1, there, h => by
    obtain ⟨here, s, report, hhere, -, ha, -, -, hhistory⟩ := midway_history_succ h
    obtain ⟨hlen, hr⟩ := reflects_history hhere
    rw [ha, hhistory]
    exact ⟨length_rearm.trans hlen, hr.rearm hlen⟩

/-- A stage was skipped in the first `n` stage executions: one of them was that of the head of its
loop, and the loop head had finished then. -/
def Skips (p : Plan) (b : Behaviour ω) (config : ExecutorConfig) (m : Machine ω) (n : Nat)
    (x : StageId) : Prop :=
  ∃ k ≤ n, ∃ there report head t, p.midway b config m k = some there ∧
    there.reports.getLast? = some report ∧ report.stage = head ∧
    (p.stage x).loopHeadStage = some head ∧ (p.stage head).loopHead = some t ∧
    p.loopState b there.machine.memory t = .finished

/-- What the rules add to a history. -/
theorem mem_tell_executed (hx : .executed x ∈ p.tell b memory s h) : x = s ∨ .executed x ∈ h := by
  have hbody : ∀ {h : History}, .executed x ∈ p.tellBody b memory s h → .executed x ∈ h := by
    intro h hx
    unfold tellBody at hx
    simp only at hx
    split at hx
    · exact (List.mem_append.mp hx).resolve_left fun hx => by simp at hx
    · exact (List.mem_append.mp hx).resolve_left fun hx => by simp at hx
    · exact hx
  have hcons : .executed x ∈ (.executed s :: h : History) → x = s ∨ .executed x ∈ h := fun hx =>
    (List.mem_cons.mp hx).imp_left fun heq => Deed.executed.inj heq
  unfold tell tellHead at hx
  simp only at hx
  split at hx
  · split at hx
    · exact hcons (hbody ((List.mem_cons.mp hx).resolve_left nofun))
    · exact hcons (hbody hx)
  · exact hcons (hbody hx)

theorem mem_tell_skipped (hx : .skipped x ∈ p.tell b memory s h) :
    (p.isInBodyOf s x = true ∧ p.headState b memory s = some .finished) ∨ .skipped x ∈ h := by
  have hbody : ∀ {h : History}, .skipped x ∈ p.tellBody b memory s h →
      (p.isInBodyOf s x = true ∧ p.headState b memory s = some .finished) ∨ .skipped x ∈ h := by
    intro h hx
    unfold tellBody at hx
    simp only at hx
    split at hx
    · exact Or.inr ((List.mem_append.mp hx).resolve_left fun hx => by simp at hx)
    · rename_i hstate
      refine (List.mem_append.mp hx).imp_left fun hx => ⟨?_, hstate⟩
      obtain ⟨y, hy, heq⟩ := List.mem_map.mp hx
      obtain rfl := Deed.skipped.inj heq
      exact (mem_body.mp (List.mem_filter.mp hy).1).2
    · exact Or.inr hx
  have hcons : .skipped x ∈ (.executed s :: h : History) → .skipped x ∈ h := fun hx =>
    (List.mem_cons.mp hx).resolve_left nofun
  unfold tell tellHead at hx
  simp only at hx
  split at hx
  · split at hx
    · exact (hbody ((List.mem_cons.mp hx).resolve_left nofun)).imp_right hcons
    · exact (hbody hx).imp_right hcons
  · exact (hbody hx).imp_right hcons

/-- What was executed was reported. -/
theorem exists_report_of_executed : ∀ {n : Nat} {here : Midway ω},
    p.midway b config m n = some here → .executed x ∈ p.history b config m n →
      ∃ report ∈ here.reports, report.stage = x
  | 0, _, _, hx => by simp [history] at hx
  | n + 1, there, h, hx => by
    obtain ⟨here, s, report, hhere, -, -, hreports, hstage, hhistory⟩ := midway_history_succ h
    rw [hhistory] at hx
    rw [hreports]
    rcases mem_tell_executed hx with rfl | hx
    · exact ⟨report, List.mem_append_right _ List.mem_cons_self, hstage⟩
    · obtain ⟨r, hr, hx⟩ := exists_report_of_executed hhere hx
      exact ⟨r, List.mem_append_left _ hr, hx⟩

/-- What was skipped was in the body of a loop that had finished. -/
theorem skips_of_skipped : ∀ {n : Nat} {here : Midway ω}, p.midway b config m n = some here →
    .skipped x ∈ p.history b config m n → p.Skips b config m n x
  | 0, _, _, hx => by simp [history] at hx
  | n + 1, there, h, hx => by
    obtain ⟨here, s, report, hhere, -, -, hreports, hstage, hhistory⟩ := midway_history_succ h
    rw [hhistory] at hx
    rcases mem_tell_skipped hx with ⟨hin, hstate⟩ | hx
    · obtain ⟨t, ht, hfinished⟩ := Option.map_eq_some_iff.mp hstate
      refine ⟨n + 1, Nat.le_refl _, there, report, s, t, h, ?_, hstage, beq_iff_eq.mp hin, ht,
        hfinished⟩
      rw [hreports, List.getLast?_concat]
    · obtain ⟨k, hk, hrest⟩ := skips_of_skipped hhere hx
      exact ⟨k, Nat.le_succ_of_le hk, hrest⟩

/-- What is pending has been neither executed nor skipped since it was last armed. -/
theorem mem_pending_iff {n : Nat} {here : Midway ω} (h : p.midway b config m n = some here) :
    x ∈ here.agenda.pending ↔ x < p.stages.length ∧
      (p.history b config m n).isSettled x = false := by
  obtain ⟨hlen, hr⟩ := reflects_history h
  unfold Agenda.pending
  rw [List.mem_filter, List.mem_range, hlen]
  exact and_congr_right fun hlt => hr x (hlen.symm ▸ hlt)

/-- Where nothing is pending, each stage was executed or skipped. -/
theorem executed_or_skips {n : Nat} {here : Midway ω} (h : p.midway b config m n = some here)
    (hnone : here.agenda.isPending x = false) (hx : x < p.stages.length) :
    (∃ report ∈ here.reports, report.stage = x) ∨ p.Skips b config m n x := by
  obtain ⟨hlen, hr⟩ := reflects_history h
  have hsettled : (p.history b config m n).isSettled x = true := by
    refine Bool.not_eq_false _ ▸ fun hno => ?_
    rw [(hr x (hlen.symm ▸ hx)).mpr hno] at hnone
    exact absurd hnone nofun
  exact (History.mem_of_isSettled hsettled).imp (exists_report_of_executed h) (skips_of_skipped h)

/-- A stage can be executed, going by what has happened: its predecessors are settled, and what it
reads from other stages is published. -/
def Permits (p : Plan) (b : Behaviour ω) (h : History) (m : Machine ω) (s : StageId) : Prop :=
  (∀ q ∈ (p.stage s).predecessors, h.isSettled q = true) ∧
    ∀ t ∈ (p.stage s).tasks, p.inboundReady b m.memory m.state t = true

/-- A pending stage can be executed if and only if the history permits it. -/
theorem isExecutable_iff {n : Nat} {here : Midway ω}
    (hpreds : ∀ q ∈ (p.stage s).predecessors, q < p.stages.length)
    (h : p.midway b config m n = some here) (hs : here.agenda.isPending s = true) :
    p.isExecutable b here.agenda here.machine s = true ↔
      p.Permits b (p.history b config m n) here.machine s := by
  obtain ⟨hlen, hr⟩ := reflects_history h
  rw [isExecutable_eq_true_iff, hs]
  unfold Permits
  refine (and_iff_right rfl).trans (and_congr_left fun _ => forall₂_congr fun q hq => ?_)
  rw [← Bool.not_eq_true, hr q (hlen.symm ▸ hpreds q hq), Bool.not_eq_false]

/-- Where no stage can be executed, what is pending is not permitted. -/
theorem not_permits_of_rest {n : Nat} {here : Midway ω}
    (hpreds : ∀ q ∈ (p.stage s).predecessors, q < p.stages.length)
    (h : p.midway b config m n = some here)
    (hnext : p.nextExecutable b here.agenda here.machine = none)
    (hs : s ∈ here.agenda.pending) : ¬ p.Permits b (p.history b config m n) here.machine s := by
  intro hpermits
  have hpending : here.agenda.isPending s = true := (List.mem_filter.mp hs).2
  exact List.find?_eq_none.mp hnext s (List.mem_range.mpr ((mem_pending_iff h).mp hs).1)
    ((isExecutable_iff hpreds h hpending).mpr hpermits)

/-- From one point of an execution to a later one, loop heads that only move on have moved on. -/
theorem midway_advances (horderly : ∀ s < p.stages.length, p.IsOrderly s) (hb : b.Onward p.graph)
    {k n : Nat} {here there : Midway ω} (hhere : p.midway b config m k = some here) (hk : k ≤ n)
    (hthere : p.midway b config m n = some there) :
    b.Advances p.graph here.machine.memory there.machine.memory :=
  midway_keeps (I := fun there => b.Advances p.graph here.machine.memory there.machine.memory) hhere
    Behaviour.Advances.refl (fun _ hnext hrun h =>
      h.trans (executeStage_onward (horderly _ (nextExecutable_lt hnext)) hb hrun).1) hk hthere

/-- The loop head because of which a stage was skipped has finished for good, if loop heads only move
on. -/
theorem Skips.finished (horderly : ∀ s < p.stages.length, p.IsOrderly s) (hb : b.Onward p.graph)
    (hheads : ∀ s t, (p.stage s).loopHead = some t → (p.graph.task t).isLoopHead = true) {n : Nat}
    {here : Midway ω} (hhere : p.midway b config m n = some here) (h : p.Skips b config m n x) :
    ∃ head t, (p.stage x).loopHeadStage = some head ∧ (p.stage head).loopHead = some t ∧
      p.loopState b here.machine.memory t = .finished := by
  obtain ⟨k, hk, there, -, head, t, hthere, -, -, hin, ht, hfinished⟩ := h
  have hle := midway_advances horderly hb hthere hk hhere t (hheads head t ht)
  change p.loopState b there.machine.memory t ≤ p.loopState b here.machine.memory t at hle
  rw [hfinished] at hle
  exact ⟨head, t, hin, ht, LoopState.le_antisymm (LoopState.le_finished _) hle⟩

/-- An execution that fails, but neither in a stage execution nor by the limit, has come to rest. -/
theorem exists_rest_of_error (horderly : ∀ s < p.stages.length, p.IsOrderly s) {e : ExecutionError}
    {m' : Machine ω} (h : p.execute b config m = (.error e, m'))
    (hlimit : ∀ n, e ≠ .iterationLimit n) (hstage : ¬ e.IsOfStage) : ∃ n here,
      p.midway b config m n = some here ∧
      p.nextExecutable b here.agenda here.machine = none ∧
      p.conclude b config here.agenda here.machine.memory = .error e ∧
      m' = { here.machine with
        events := here.machine.events.push (.planCompleted false n) } := by
  rcases execute_cases h with ⟨n, here, hhere, hnext, hresult, rfl⟩ | he |
    ⟨n, here, s, e, m'', -, hnext, hrun, he⟩
  · refine ⟨n, here, hhere, hnext, ?_, by rw [length_reports hhere]; rfl⟩
    cases hc : p.conclude b config here.agenda here.machine.memory with
    | error e =>
      rw [hc] at hresult
      exact congrArg Except.error (Except.error.inj hresult).symm
    | ok _ =>
      rw [hc] at hresult
      exact absurd hresult nofun
  · exact absurd (Except.error.inj he) (hlimit _)
  · obtain rfl := Except.error.inj he
    exact absurd (executeStage_fails (horderly s (nextExecutable_lt hnext)) hrun) hstage

end Plan

namespace PreliminaryPlan

variable {ω : Type} {p : PreliminaryPlan} {plan : Plan}

/-- **The outcome of an execution is sound.** When it succeeds, each stage was executed, or it was
skipped because the loop head of its loop had finished, and so it has at the end if loop heads only
move on; if the loops have to finish then all of them have. When it stalls, the stages that are named
are those that were neither executed nor skipped since they were last armed, there are such stages,
and none of them can be executed. Whenever a stage is executed, its predecessors have been executed or
skipped since they were last armed. -/
theorem execute_settles (hg : p.graph.Built) (h : p.assign = .ok plan) (b : Behaviour ω)
    (config : ExecutorConfig) (m : Machine ω) :
    (∀ report m', plan.execute b config m = (.ok report, m') →
      (∀ s < plan.stages.length, (∃ r ∈ report.stages, r.stage = s) ∨
        plan.Skips b config m report.stages.length s ∧ (b.Onward p.graph →
          ∃ head t, (plan.stage s).loopHeadStage = some head ∧ (plan.stage head).loopHead = some t ∧
            plan.loopState b m'.memory t = .finished)) ∧
      (config.requireFinishedLoops = true → ∀ t, p.Needs t → (p.graph.task t).isLoopHead = true →
        plan.loopState b m'.memory t = .finished)) ∧
    (∀ pending m', plan.execute b config m = (.error (.stalled pending), m') →
      ∃ n here, plan.midway b config m n = some here ∧ m' = { here.machine with
          events := here.machine.events.push (.planCompleted false n) } ∧
        pending ≠ [] ∧ pending.Pairwise (· < ·) ∧
        (∀ s, s ∈ pending ↔ s < plan.stages.length ∧
          (plan.history b config m n).isSettled s = false) ∧
        ∀ s ∈ pending, ¬ plan.Permits b (plan.history b config m n) m' s) ∧
    ∀ n here s, plan.midway b config m n = some here →
      plan.nextExecutable b here.agenda here.machine = some s →
      ∀ q ∈ (plan.stage s).predecessors, (plan.history b config m n).isSettled q = true := by
  obtain ⟨hs, -⟩ := assign_eq_ok hg h
  obtain ⟨r, -, hfin⟩ := finished_of_assign hg h
  have hscope := isScope_plannedTasks hg.wired hs
  have horderly : ∀ s < plan.stages.length, plan.IsOrderly s := fun s hs =>
    (isOrderly_of_assign hg h hs).1
  have hpreds : ∀ s, ∀ q ∈ (plan.stage s).predecessors, q < plan.stages.length := fun s q hq =>
    (lt_of_mem_predecessors hg h hq).1.trans (lt_of_mem_predecessors hg h hq).2
  have hheads : ∀ s t, (plan.stage s).loopHead = some t → (plan.graph.task t).isLoopHead = true :=
    fun s t ht => (hfin.isLoopHead t).trans ((hfin.loopHead_eq_some hscope).mp ht).2
  refine ⟨fun report m' hrun => ?_, fun pending m' hrun => ?_, fun n here s hhere hnext => ?_⟩
  · obtain ⟨n, here, hhere, hok, hreport, hmemory⟩ := Plan.exists_rest_of_ok hrun
    rw [hmemory, hreport, Plan.length_reports hhere]
    refine ⟨fun s hlt => ?_, fun hconfig t ht hhead => ?_⟩
    · refine (Plan.executed_or_skips hhere ((Plan.of_conclude_eq_ok hok).1 s) hlt).imp_right
        fun hskips => ⟨hskips, fun hb => ?_⟩
      exact hskips.finished horderly (hb.congr hfin.operator) hheads hhere
    · have hmem := (hfin.mem_stage hscope).mpr ⟨(mem_plannedTasks hg.wired hs).mpr ht, rfl⟩
      exact (Plan.of_conclude_eq_ok hok).2 hconfig _ t
        ((hfin.loopHead_eq_some hscope).mpr ⟨hmem, hhead⟩)
  · obtain ⟨n, here, hhere, hnext, hstalled, rfl⟩ := Plan.exists_rest_of_error horderly hrun nofun id
    obtain ⟨rfl, hne⟩ := Plan.pending_of_conclude hstalled
    exact ⟨n, here, hhere, rfl, hne, List.pairwise_lt_range.filter _,
      fun s => Plan.mem_pending_iff hhere,
      fun s hs => Plan.not_permits_of_rest (hpreds s) hhere hnext hs⟩
  · exact ((Plan.isExecutable_iff (hpreds s) hhere (Plan.isPending_of_nextExecutable hnext)).mp
      (Plan.isExecutable_of_nextExecutable hnext)).1

/-- The body of a loop that has converged before its first iteration is skipped, and a loop inside of
a loop stalls when it is to start a second time. -/
theorem counting_settles :
    (∃ plan report m', counting.assign = .ok plan ∧ plan.execute (adding.withLoop 2) {}
        { memory := { untilFour with maxIterations := some 0 } } = (.ok report, m') ∧
      report.stages.map StageReport.stage = [0, 1, 2] ∧ ∀ s ∈ [3, 4],
        plan.Skips (adding.withLoop 2) {} { memory := { untilFour with maxIterations := some 0 } } 3
          s) ∧
    ∃ plan m' n, nesting.assign = .ok plan ∧ plan.execute (adding.withLoops [2, 5]) {}
        { memory := nestingLoops 6 } = (.error (.stalled [2, 3, 5]), m') ∧
      ∀ s, s ∈ [2, 3, 5] ↔ s < plan.stages.length ∧ (plan.history (adding.withLoops [2, 5]) {}
        { memory := nestingLoops 6 } n).isSettled s = false := by
  refine ⟨?_, ?_⟩
  · obtain ⟨plan, hplan, hlen, hreports⟩ : ∃ plan, counting.assign = .ok plan ∧
        plan.stages.length = 5 ∧ (plan.execute (adding.withLoop 2) {}
          { memory := { untilFour with maxIterations := some 0 } }).1.map
            (fun report => report.stages.map StageReport.stage) = .ok [0, 1, 2] :=
      exists_assign_of_decide (by decide +kernel)
    rcases hrun : plan.execute (adding.withLoop 2) {}
      { memory := { untilFour with maxIterations := some 0 } } with ⟨_ | report, m'⟩
    · rw [hrun] at hreports
      exact absurd hreports nofun
    rw [hrun] at hreports
    have hstages : report.stages.map StageReport.stage = [0, 1, 2] := Except.ok.inj hreports
    have hcount : report.stages.length = 3 := by
      rw [← List.length_map StageReport.stage, hstages]
      rfl
    refine ⟨plan, report, m', hplan, hrun, hstages, fun s hs => ?_⟩
    have hsettles := ((execute_settles built_counting hplan (adding.withLoop 2) {} _).1 report m'
      hrun).1 s (by rw [hlen]; revert s; decide)
    rw [hcount] at hsettles
    refine (hsettles.resolve_left ?_).1
    rintro ⟨r, hr, rfl⟩
    have hmem := hstages ▸ List.mem_map_of_mem hr
    revert hs hmem
    generalize r.stage = s
    revert s
    decide
  · obtain ⟨plan, hplan, hresult⟩ : ∃ plan, nesting.assign = .ok plan ∧
        (plan.execute (adding.withLoops [2, 5]) {} { memory := nestingLoops 6 }).1 =
          .error (.stalled [2, 3, 5]) :=
      exists_assign_of_decide (by decide +kernel)
    obtain ⟨n, -, -, -, -, -, hpending, -⟩ := (execute_settles built_nesting hplan
      (adding.withLoops [2, 5]) {} { memory := nestingLoops 6 }).2.1 _ _ (Prod.ext hresult rfl)
    exact ⟨plan, _, n, hplan, Prod.ext hresult rfl, hpending⟩

end PreliminaryPlan

end Dataflow
