import Dataflow.Proofs.Execution.Accounts
import Dataflow.Proofs.Execution.Schedule
import Dataflow.Proofs.Loop.Outcome

/-!
# References over whole executions

Whatever stages of a plan are executed, in whatever order and with whatever outcome: between two
stage executions every instance has one reference if the state publishes it and none otherwise, as
long as no operator obtains or releases references by itself. So nothing leaks, nothing is released
twice, and when the state is released in the end every instance has been disposed of, once.

The accounts are an equation for each instance: its references are one if the state publishes it, plus
those that the stage execution in progress holds. Each step of a push keeps it by taking and giving as
many references as it notes down. Between stage executions nothing is held, and the equation is the
statement. A failure gives back what is held, and that is why failures are among the cases: the
releases that it makes are not refused, as the accounts are right.

* `executeStage_accounted`: one stage execution.
* `Store.releaseAll_accounted`: the release of the state.
* **`PreliminaryPlan.reaches_keepsAccounts`**: all stage executions.

Both conditions on the operators are needed. An operator that obtains a reference keeps an instance
alive for good, and a loop head that refuses to start leaves the references on its inputs with nobody
(`Dataflow.Proofs.Execution.GivenBack` says what is left of the accounts then). The sequence of stage
executions is arbitrary: no order, no readiness and no success is asked for, and a plan execution is
one such sequence.
-/

namespace Dataflow

/-! ## One stage execution -/

section Stage

variable {ω : Type} {p : Plan} {b : Behaviour ω} {s : StageId} {m : Machine ω}
  {extra : InstanceId → Nat}

/-- A stage execution was given up because of a failure in its push, which was no release, and what
it held was given back. -/
def Plan.GivenUp (p : Plan) (b : Behaviour ω) (s : StageId) (m : Machine ω) (e : ExecutionError)
    (m' : Machine ω) : Prop :=
  (∀ c, e ≠ .scheduling (.doubleRelease c)) ∧ ∃ w l,
    Workspace.push p b s m.state (m.entering p s) = .error e w ∧
    w.run.releaseAll w.ledger = .ok () l ∧ m'.ledger = l

/-- After a push that kept the accounts the results are published and everything is given back. -/
theorem Workspace.Sound.settles {w : Workspace ω} (config : ExecutorConfig)
    (hm : Accounted m.ledger m.state extra [])
    (hw : w.Sound p s m.ledger fun i => extra i + m.state.holds m.ledger i) : ∃ m₁ m₂,
    Machine.publish p config s w.run.instances (w.leaving m.state) = .ok () m₁ ∧
    Machine.onStore (Store.onLedger w.run.releaseAll) m₁ = .ok () m₂ ∧
    m.ledger.Later m₂.ledger ∧ Accounted m₂.ledger m₂.state extra [] := by
  have haccounts : Accounted (w.leaving m.state).ledger (w.leaving m.state).state extra w.run.held :=
    hm.later hw.later hw.balanced
  have hheld : ∀ i ∈ w.run.instances, i ∈ w.run.held := fun i hi => List.mem_append_right _ hi
  obtain ⟨_, m₁, hpublish, hl₁, h₁⟩ := Machine.publish_accounted p config s hheld haccounts
  obtain ⟨_, m₂, hrelease, st, ⟨l, ⟨hl, hb⟩, rfl⟩, rfl⟩ := Machine.onStore_spec (m := m₁)
    (Store.onLedger_spec (releaseAll_balanced (r := w.run) h₁.balanced))
  exact ⟨m₁, _, hpublish, hrelease, (hw.later.trans hl₁).trans hl, h₁.later hl hb⟩

/-- **A stage execution keeps the accounts**, and it fails only in its push. -/
theorem executeStage_accounted (hp : p.IsOrderly s)
    (hb : ∀ t ∈ (p.stage s).tasks, b.Careful p.graph t) (config : ExecutorConfig)
    (hm : Accounted m.ledger m.state extra []) {result : Except ExecutionError StageReport}
    {m' : Machine ω} (hrun : p.executeStage b config s m = (result, m')) :
    m.ledger.Later m'.ledger ∧ Accounted m'.ledger m'.state extra [] ∧
      ∀ e, result = .error e → p.GivenUp b s m e m' := by
  have hown : ∀ c i, m.state.get? c = some i → extra i + m.state.holds m.ledger i ≠ 0 :=
    fun _ _ hi => hm.owned hi
  have hkeeps := Workspace.push_keeps hp hown hb (w := m.entering p s)
    ⟨List.nodup_nil, nofun, Ledger.Later.refl m.ledger, hm.balanced⟩
  have hending := executeStage_ending p b config s m
  rw [hrun] at hending
  cases hending with
  | @pushFails e w hpush =>
    obtain ⟨hw, he⟩ := hkeeps.error hpush
    obtain ⟨_, l, hrel, hl, hb'⟩ := releaseAll_balanced hw.balanced
    have hledger : (Machine.abort s w.run e (w.leaving m.state)).ledger = l := by
      unfold Machine.abort Workspace.leaving
      simp only [hrel]
    refine ⟨hledger ▸ hw.later.trans hl, ?_, ?_⟩
    · rw [hledger]
      exact hm.later (hw.later.trans hl) hb'
    · rintro _ ⟨rfl⟩
      exact ⟨he, w, l, hpush, hrel, hledger⟩
  | publishFails hpush hpublish =>
    obtain ⟨m₁, m₂, hok, -⟩ := (hkeeps.ok hpush).settles config hm
    rw [hok] at hpublish
    exact absurd hpublish (by simp)
  | releaseFails hpush hpublish hrelease =>
    obtain ⟨m₁, m₂, hok, hrel, -⟩ := (hkeeps.ok hpush).settles config hm
    obtain rfl : _ = m₁ := by simpa using hpublish.symm.trans hok
    rw [hrel] at hrelease
    exact absurd hrelease (by simp)
  | completes hpush hpublish hrelease =>
    obtain ⟨m₁, m₂, hok, hrel, hl, ha⟩ := (hkeeps.ok hpush).settles config hm
    obtain rfl : _ = m₁ := by simpa using hpublish.symm.trans hok
    obtain rfl : _ = m₂ := by simpa using hrelease.symm.trans hrel
    exact ⟨hl, ha, nofun⟩

end Stage

/-! ## The release of the state -/

section Release

variable {l : Ledger} {state : ExecutionState} {extra : InstanceId → Nat} {held : List InstanceId}

theorem ExecutionState.mem_toList {c : ChannelId} {i : InstanceId} :
    (c, i) ∈ state.toList ↔ state.get? c = some i :=
  Std.TreeMap.mem_toList_iff_getElem?_eq_some

/-- A state holds one reference on each instance in its list of instances. -/
theorem Accounted.count_toList (h : Accounted l state extra held) (i : InstanceId) :
    (state.toList.map Prod.snd).count i = state.holds l i := by
  have hnodup : (state.toList.map Prod.snd).Nodup := by
    rw [List.Nodup, List.pairwise_map]
    refine Std.TreeMap.distinct_keys_toList.imp_of_mem fun {x y} hx hy hne heq => hne ?_
    have hkx := h.keyed x.1 x.2 (ExecutionState.mem_toList.mp hx)
    have hky := h.keyed y.1 y.2 (ExecutionState.mem_toList.mp hy)
    rw [← hkx, ← hky, heq]
    exact Nat.compare_eq_eq.mpr rfl
  have hmem : i ∈ state.toList.map Prod.snd ↔ state.get? (l.get i).channel = some i := by
    rw [List.mem_map]
    constructor
    · rintro ⟨⟨c, j⟩, hj, rfl⟩
      have hj' := ExecutionState.mem_toList.mp hj
      rwa [h.keyed c j hj']
    · exact fun hi => ⟨(_, i), ExecutionState.mem_toList.mpr hi, rfl⟩
  rw [hnodup.count]
  unfold ExecutionState.holds
  simp only [hmem]

/-- The references of a state can be given back in any order; all others are left. -/
theorem Accounted.releaseEach (h : Accounted l state extra held) {order : List InstanceId}
    (hp : order.Perm (state.toList.map Prod.snd)) :
    Succeeds (Ledger.releaseEach order) l fun _ l' => l.Later l' ∧ l'.Balanced extra held := by
  have hb : l.Balanced extra (order ++ held) := fun i => by
    rw [List.count_append, hp.count_eq, h.count_toList, h.balanced i]
    exact Nat.add_assoc _ _ _
  exact hb.releaseEach

/-- Releasing a state gives back its references and no others. -/
theorem Store.releaseAll_accounted (h : Accounted l state extra held) :
    Succeeds Store.releaseAll ⟨l, state⟩ fun _ st =>
      st.state.isEmpty = true ∧ ∀ i, (st.ledger.get i).references = extra i + held.count i := by
  unfold releaseAll
  have hget : Succeeds (get : StoreM Store) ⟨l, state⟩ fun a s => a = ⟨l, state⟩ ∧ s = ⟨l, state⟩ :=
    ⟨_, _, rfl, rfl, rfl⟩
  refine Succeeds.bind hget ?_
  rintro _ _ ⟨rfl, rfl⟩
  have hset : Succeeds (set (⟨l, { state with published := {} }⟩ : Store) : StoreM PUnit) ⟨l, state⟩
      fun _ s => s = ⟨l, { state with published := {} }⟩ := ⟨_, _, rfl, rfl⟩
  refine Succeeds.bind hset ?_
  rintro _ _ rfl
  refine (onLedger_spec (h.releaseEach (List.Perm.refl _))).mono ?_
  rintro _ _ ⟨l', ⟨-, hb⟩, rfl⟩
  exact ⟨rfl, hb⟩

end Release

/-! ## All stage executions -/

/-- The machines that stage executions lead to: of any stages, in any order, each of them with any
outcome. -/
inductive Plan.Reaches {ω : Type} (p : Plan) (b : Behaviour ω) (m₀ : Machine ω) : Machine ω → Prop
  | refl : Reaches p b m₀ m₀
  | step {m : Machine ω} {s : StageId} (config : ExecutorConfig) (hs : s < p.stages.length)
      (hm : Reaches p b m₀ m) : Reaches p b m₀ (p.executeStage b config s m).2

/-- The stages of a list are executed one after the other. -/
theorem Plan.Reaches.executeEach {ω : Type} {p : Plan} {b : Behaviour ω} {m₀ m : Machine ω}
    (config : ExecutorConfig) {order : List StageId} (hs : ∀ s ∈ order, s < p.stages.length)
    (hm : p.Reaches b m₀ m) : p.Reaches b m₀ (p.executeEach b config order m).2 := by
  induction order generalizing m with
  | nil => exact hm
  | cons s order ih =>
    exact ih (fun t ht => hs t (List.mem_cons_of_mem _ ht)) (hm.step config (hs s List.mem_cons_self))

/-- No reference leaks and none is released twice. -/
structure Plan.KeepsAccounts {ω : Type} (p : Plan) (b : Behaviour ω) (m : Machine ω) : Prop where
  /-- An instance has one reference if the state publishes it and none otherwise. -/
  references : ∀ i < m.ledger.cells.size, (m.ledger.get i).references =
    if m.state.get? (m.ledger.get i).channel = some i then 1 else 0
  /-- No release of a further stage execution fails, not even when it is given up. -/
  releases : ∀ s < p.stages.length, ∀ config e m',
    p.executeStage b config s m = (.error e, m') → p.GivenUp b s m e m'
  /-- What is disposed of stays so. -/
  disposed : ∀ m', p.Reaches b m m' → ∀ i < m.ledger.cells.size,
    (m.ledger.get i).references = 0 → (m'.ledger.get i).references = 0
  /-- The state can be released, and then every instance is disposed of. -/
  release : ∃ st, Store.releaseAll ⟨m.ledger, m.state⟩ = .ok () st ∧ st.state.isEmpty = true ∧
    ∀ i < m.ledger.cells.size, (st.ledger.get i).references = 0

namespace PreliminaryPlan

variable {ω : Type} {p : PreliminaryPlan} {plan : Plan} {b : Behaviour ω} {m₀ m : Machine ω}
  {extra : InstanceId → Nat}

/-- The stages of a plan are orderly and hold needed tasks. -/
theorem isOrderly_of_assign (hg : p.graph.Built) (h : p.assign = .ok plan) {s : StageId}
    (hs : s < plan.stages.length) :
    plan.IsOrderly s ∧ ∀ t ∈ (plan.stage s).tasks, p.Needs t := by
  obtain ⟨hknown, -⟩ := assign_eq_ok hg h
  obtain ⟨r, -, hfin⟩ := finished_of_assign hg h
  have hscope := isScope_plannedTasks hg.wired hknown
  rw [hfin.length_stages] at hs
  refine ⟨hfin.isOrderly hg.wired hg.unplaced hscope hs, fun t ht => ?_⟩
  exact (mem_plannedTasks hg.wired hknown).mp ((hfin.mem_tasks hs).mp ht).1

/-- The operator of a task is the same in the plan. -/
theorem careful_of_assign (hg : p.graph.Built) (h : p.assign = .ok plan) {t : TaskId}
    (hb : b.Careful p.graph t) : b.Careful plan.graph t := by
  obtain ⟨r, -, hfin⟩ := finished_of_assign hg h
  have hop := hfin.operator t
  exact ⟨hop ▸ hb.prepare, hop ▸ hb.evaluate, fun hhead => hop ▸ hb.cell (hfin.isLoopHead t ▸ hhead)⟩

/-- Stage executions keep the accounts. -/
theorem accounted_of_reaches (hg : p.graph.Built) (h : p.assign = .ok plan)
    (hb : ∀ t, p.Needs t → b.Careful p.graph t) (hm₀ : Accounted m₀.ledger m₀.state extra [])
    (hm : plan.Reaches b m₀ m) :
    m₀.ledger.Later m.ledger ∧ Accounted m.ledger m.state extra [] := by
  induction hm with
  | refl => exact ⟨Ledger.Later.refl _, hm₀⟩
  | @step m s config hs _ ih =>
    obtain ⟨hl, ha⟩ := ih
    obtain ⟨horderly, hneeds⟩ := isOrderly_of_assign hg h hs
    obtain ⟨hl', ha', -⟩ := executeStage_accounted horderly
      (fun t ht => careful_of_assign hg h (hb t (hneeds t ht))) config ha rfl
    exact ⟨hl.trans hl', ha'⟩

/-- **No leak and no double release over whole executions**: with operators that leave references
alone and loop heads that keep their state in a cell, every sequence of stage executions from an
empty state keeps the accounts. -/
theorem reaches_keepsAccounts (hg : p.graph.Built) (h : p.assign = .ok plan)
    (hb : ∀ t, p.Needs t → b.Careful p.graph t) (hl : m₀.ledger = {})
    (hs : m₀.state.isEmpty = true) (hm : plan.Reaches b m₀ m) : plan.KeepsAccounts b m := by
  have hm₀ : Accounted m₀.ledger m₀.state (fun _ => 0) [] := by
    have hnone := Machine.get?_of_isEmpty hs
    refine ⟨fun c i hi => ?_, fun i => ?_⟩
    · rw [hnone] at hi
      exact absurd hi (by simp)
    · have hnew : (m₀.ledger.get i).references = 0 := by
        by_contra hr
        exact absurd (Ledger.lt_size_of_references hr) (by simp [hl])
      unfold ExecutionState.holds
      simp [hnone, hnew]
  have ha := (accounted_of_reaches hg h hb hm₀ hm).2
  refine ⟨fun i _ => ?_, fun s hs' config e m' hrun => ?_, fun m' hm' i hi h0 => ?_, ?_⟩
  · rw [ha.balanced i]
    unfold ExecutionState.holds
    simp
  · obtain ⟨horderly, hneeds⟩ := isOrderly_of_assign hg h hs'
    exact (executeStage_accounted horderly
      (fun t ht => careful_of_assign hg h (hb t (hneeds t ht))) config ha hrun).2.2 e rfl
  · by_contra hr
    exact ((accounted_of_reaches hg h hb ha hm').1.payload i hi hr).1 h0
  · obtain ⟨_, st, hrun, hempty, hzero⟩ := Store.releaseAll_accounted ha
    exact ⟨st, hrun, hempty, fun i _ => hzero i⟩

end PreliminaryPlan

/-! ## A loop that counts -/

theorem hasCell_withLoop (b : Behaviour Unit) (o k : ObjectId) : (b.withLoop o).HasCell k := by
  refine ⟨fun s l h => ?_, fun s l h => ?_⟩
  · have hadvance : l.state.advance s = .ok s := LoopState.advance_eq_ok_iff.mpr ⟨h, rfl⟩
    unfold Behaviour.withLoop
    simp only [hadvance]
    exact ⟨trivial, trivial⟩
  · have hadvance : l.state.advance s = .error ⟨l.state, s⟩ := if_neg h
    unfold Behaviour.withLoop
    simp only [hadvance]
    exact ⟨trivial, trivial⟩

/-- A loop operator leaves the instances on its inputs alone. -/
theorem LoopOperator.touches_evaluate (l : LoopOperator) (ctx : TaskContext) :
    (l.evaluate ctx).touches = [] := by
  have hdecide : ∀ (l : LoopOperator) d c, (l.decide ctx d c).touches = [] := fun l d c => by
    unfold decide finish iterate fail
    split
    · rfl
    · split
      · rfl
      · split <;> rfl
    · split
      · rfl
      · split <;> rfl
  unfold evaluate
  split
  · rfl
  · split
    · rfl
    · split
      · rfl
      · exact hdecide _ _ _
  · split
    · rfl
    · exact hdecide _ _ _

theorem careful_adding (g : TaskGraph) (o : ObjectId) (t : TaskId) :
    (adding.withLoop o).Careful g t := by
  refine ⟨fun ctx m x hx => ?_, fun ctx m x hx => ?_, fun _ => hasCell_withLoop _ _ _⟩ <;>
    unfold Behaviour.withLoop at hx <;> simp only at hx
  · split at hx <;> exact absurd hx List.not_mem_nil
  · split at hx
    · rw [LoopOperator.touches_evaluate] at hx
      exact absurd hx List.not_mem_nil
    · exact absurd hx List.not_mem_nil

/-- Reading, a turn of the loop, two stages that have nothing to work on, and reading again. -/
theorem counting_keepsAccounts : ∃ plan, counting.assign = .ok plan ∧
    (plan.executeEach (adding.withLoop 2) {} [0, 1, 2, 3, 0]
      { memory := untilFour }).2.ledger.cells.size = 4 ∧
    plan.KeepsAccounts (adding.withLoop 2) (plan.executeEach (adding.withLoop 2) {} [0, 1, 2, 3, 0]
      { memory := untilFour }).2 := by
  have hcheck : (counting.assign.map fun plan => (plan.stages.length,
      (plan.executeEach (adding.withLoop 2) {} [0, 1, 2, 3, 0]
        { memory := untilFour }).2.ledger.cells.size)) = .ok (5, 4) := by decide +kernel
  cases h : counting.assign with
  | error e =>
    rw [h] at hcheck
    exact absurd hcheck (by simp [Except.map])
  | ok plan =>
    rw [h] at hcheck
    obtain ⟨hlen, hsize⟩ := Prod.mk.inj (Except.ok.inj hcheck)
    refine ⟨plan, rfl, hsize, ?_⟩
    have hstages : ∀ s ∈ [0, 1, 2, 3, 0], s < plan.stages.length := by
      rw [hlen]
      decide
    have hreaches : plan.Reaches (adding.withLoop 2) { memory := untilFour }
        (plan.executeEach (adding.withLoop 2) {} [0, 1, 2, 3, 0] { memory := untilFour }).2 :=
      .executeEach {} hstages .refl
    exact PreliminaryPlan.reaches_keepsAccounts built_counting h (fun t _ => careful_adding _ _ t)
      rfl rfl hreaches

end Dataflow
