import Dataflow.Proofs.Execution.Once
import Dataflow.Proofs.Execution.References

/-!
# All or nothing

What a stage execution does to the execution state, for operators that fail and operators that
obtain or release references as they like. A success overrides the state by what was produced for
other stages. A failure leaves the state as it is, unless references were released behind the
engine's back: then a release can be refused when the results are published already.

Nothing is published during a push, so whatever fails in it leaves the state alone. What is to be
published is checked as a whole, and an instance without references is refused before anything is
published. After that only releases can be refused: of an instance that is replaced in the state, or
of a reference that the stage execution still holds. These come when results are published already,
and such a failure leaves them there (`Plan.Spares`).

* `executeStage_commits`: one stage execution of an orderly stage.
* `executeStage_fails`: what a stage execution fails with.
* `PreliminaryPlan.executeStage_leaves`: operators that leave references alone.
* **`PreliminaryPlan.executeStage_commits_or_leaves`**: any stage of a plan, and operators of both kinds.

Two things are asked of the state before: that what it publishes exists (`Machine.Known`), and, where
references are spoken of, that they are accounted for. The first is kept by every stage execution, so
the theorem can be applied again. Operators that leave references alone cannot bring about the
exception.
-/

namespace Dataflow

section Commits

variable {ω : Type} {p : Plan} {b : Behaviour ω} {s : StageId} {m m' : Machine ω}

/-- What is published is known. -/
def Machine.Known (m : Machine ω) : Prop :=
  ∀ c i, m.state.get? c = some i → i < m.ledger.cells.size

/-- The state is overridden by the instances that were produced for other stages. -/
structure Plan.Commits (p : Plan) (s : StageId) (m : Machine ω) (report : StageReport)
    (m' : Machine ω) : Prop where
  stage : report.stage = s
  executed : ∀ x ∈ report.executed, x.task ∈ (p.stage s).tasks
  /-- What was produced was not there before. -/
  fresh : ∀ i ∈ report.instances, m.ledger.cells.size ≤ i ∧ i < m'.ledger.cells.size
  /-- It was produced by tasks that were executed, on different channels. -/
  produced : ∀ i ∈ report.instances, (p.graph.channel (m'.ledger.get i).channel).producer ∈
    report.executed.map ExecutedTask.task
  channels : (report.instances.map fun i => (m'.ledger.get i).channel).Nodup
  outward : ∀ i ∈ report.instances, p.isOutward (m'.ledger.get i).channel = true →
    m'.state.get? (m'.ledger.get i).channel = some i
  others : ∀ c, ¬ (c ∈ report.instances.map (fun i => (m'.ledger.get i).channel) ∧
    p.isOutward c = true) → m'.state.get? c = m.state.get? c

/-- A stage execution that failed has left the state as it was, or a release was refused after the
push. -/
def Plan.Spares (p : Plan) (b : Behaviour ω) (s : StageId) (m : Machine ω) (e : ExecutionError)
    (m' : Machine ω) : Prop :=
  m'.state = m.state ∨ (∃ c, e = .scheduling (.doubleRelease c)) ∧
    ∃ w, Workspace.push p b s m.state (m.entering p s) = .ok () w

namespace Machine

theorem Known.later (h : m.Known) (hl : m.ledger.Later m'.ledger)
    (hs : ∀ c i, m'.state.get? c = some i → m.state.get? c = some i ∨ i < m'.ledger.cells.size) :
    m'.Known := fun c i hi => (hs c i hi).elim
  (fun hi => Nat.lt_of_lt_of_le (h c i hi) hl.size) id

theorem abort_later (s : StageId) (r : StageRun) (e : ExecutionError) (m : Machine ω) :
    m.ledger.Later (abort s r e m).ledger := by
  have hends := @releaseAll_ends m.ledger r
  unfold Ends at hends
  unfold abort
  simp only
  cases h : r.releaseAll m.ledger <;> simp only [h] at hends ⊢
  · exact hends
  · exact hends.1

/-- Giving back what a stage execution holds leaves all else alone. -/
theorem giveBack_ends (r : StageRun) (m : Machine ω) : Ends (onStore (Store.onLedger r.releaseAll)) m
    (fun _ m' => m.ledger.Later m'.ledger ∧ m'.state = m.state ∧ m'.memory = m.memory)
    fun e m' => m.ledger.Later m'.ledger ∧ m'.state = m.state ∧ m'.memory = m.memory ∧
      ∃ c, e = .scheduling (.doubleRelease c) := by
  refine (onStore_ends (Store.onLedger_ends releaseAll_ends)).mono ?_ ?_
  · rintro _ _ ⟨_, ⟨l, hl, rfl⟩, rfl⟩
    exact ⟨hl, rfl, rfl⟩
  · rintro _ _ ⟨_, _, ⟨l, ⟨hl, c, rfl⟩, rfl⟩, rfl, rfl⟩
    exact ⟨hl, rfl, rfl, c, rfl⟩

/-- What is published after a publication was so before, or it is new. -/
theorem Overrides.mem {is : List InstanceId} (h : Overrides p m is m') (c : ChannelId)
    (i : InstanceId) (hi : m'.state.get? c = some i) :
    m.state.get? c = some i ∨ i ∈ is ∧ (m.ledger.get i).channel = c := by
  by_cases hc : c ∈ is.map (fun i => (m.ledger.get i).channel) ∧ p.isOutward c = true
  · obtain ⟨hmem, hx⟩ := hc
    obtain ⟨j, hj, rfl⟩ := List.mem_map.mp hmem
    rw [h.outward j hj hx] at hi
    obtain rfl := Option.some.inj hi
    exact Or.inr ⟨hj, rfl⟩
  · exact Or.inl (h.others c hc ▸ hi)

end Machine
/-- A push keeps to new instances of different channels, whether it succeeds or fails. -/
theorem push_ends (hp : p.IsOrderly s) : Ends (Workspace.push p b s m.state) (m.entering p s)
    (fun _ w => ∃ done, Workspace.Once p s m.state m.ledger (Workspace.fedBy p s done) done w)
    fun _ w => m.ledger.Later w.ledger := Workspace.push_once hp rfl

/-- What a push has produced and published. -/
theorem publish_overrides (hp : p.IsOrderly s) {config : ExecutorConfig} {w : Workspace ω}
    {m₁ : Machine ω} (hpush : Workspace.push p b s m.state (m.entering p s) = .ok () w)
    (hpublish : Machine.publish p config s w.run.instances (w.leaving m.state) = .ok () m₁) :
    ∃ done, Workspace.Once p s m.state m.ledger (Workspace.fedBy p s done) done w ∧
      Machine.Overrides p (w.leaving m.state) w.run.instances m₁ := by
  obtain ⟨done, hw⟩ := (push_ends hp).ok hpush
  exact ⟨done, hw, (Machine.publish_ends (fun i hi => (hw.fresh i hi).2) hw.channels).ok hpublish⟩

section Published

variable {done : List TaskId} {w : Workspace ω} {m₁ : Machine ω}
  (hw : Workspace.Once p s m.state m.ledger (Workspace.fedBy p s done) done w)
  (ho : Machine.Overrides p (w.leaving m.state) w.run.instances m₁)
  (hlate : m₁.ledger.Later m'.ledger) (hstate : m'.state = m₁.state)
include hw ho hlate hstate

theorem Workspace.Once.known (hm : m.Known) : m'.Known := by
  refine hm.later ((hw.later.trans ho.later).trans hlate) fun c i hi => ?_
  rw [hstate] at hi
  exact (ho.mem c i hi).imp_right fun hi =>
    Nat.lt_of_lt_of_le (hw.fresh i hi.1).2 (ho.later.trans hlate).size

/-- What a push has produced is committed when it has been published. -/
theorem Workspace.Once.commits : p.Commits s m (w.run.report p s) m' := by
  have hlater := ho.later.trans hlate
  have hchannel : ∀ i ∈ w.run.instances, (m'.ledger.get i).channel = (w.ledger.get i).channel :=
    hw.channel_eq hlater
  have hmap : w.run.instances.map (fun i => (m'.ledger.get i).channel) =
      w.run.instances.map fun i => (w.ledger.get i).channel := List.map_congr_left hchannel
  have hexecuted : (w.run.report p s).executed.map ExecutedTask.task = done := hw.executed
  refine ⟨rfl, fun x hx => ?_, fun i hi => ?_, fun i hi => ?_, hmap ▸ hw.channels,
    fun i hi hx => ?_, fun c hc => ?_⟩
  · have hdone : x.task ∈ done := hexecuted ▸ List.mem_map_of_mem hx
    exact hw.tasks _ (List.mem_append_left _ hdone)
  · obtain ⟨hnew, hlt⟩ := hw.fresh i hi
    exact ⟨hnew, Nat.lt_of_lt_of_le hlt hlater.size⟩
  · rw [hchannel i hi, hexecuted]
    exact hw.produced i hi
  · rw [hchannel i hi] at hx ⊢
    rw [hstate]
    exact ho.outward i hi hx
  · rw [hstate]
    exact ho.others c fun h => hc ⟨hmap ▸ h.1, h.2⟩

end Published

/-- **A stage execution commits, or it leaves the state as it was**, unless a release is refused. -/
theorem executeStage_commits (hp : p.IsOrderly s) (config : ExecutorConfig) (hm : m.Known)
    {result : Except ExecutionError StageReport}
    (hrun : p.executeStage b config s m = (result, m')) :
    m.ledger.Later m'.ledger ∧ m'.Known ∧ (∀ report, result = .ok report → p.Commits s m report m') ∧
      ∀ e, result = .error e → p.Spares b s m e m' := by
  have hpushes := push_ends (b := b) (m := m) hp
  have hending := executeStage_ending p b config s m
  rw [hrun] at hending
  cases hending with
  | @pushFails e w hpush =>
    have hl := (hpushes.error hpush).trans (Machine.abort_later s w.run e (w.leaving m.state))
    refine ⟨hl, hm.later hl fun c i hi => Or.inl hi, nofun, ?_⟩
    exact fun _ _ => Or.inl rfl
  | @publishFails w e m₁ hpush hpublish =>
    obtain ⟨done, hw⟩ := hpushes.ok hpush
    obtain ⟨-, hl₁, -, hold, hstate⟩ := (Machine.publish_ends (m := w.leaving m.state)
      (fun i hi => (hw.fresh i hi).2) hw.channels).error hpublish
    have hl₂ := Machine.abort_later s w.run e m₁
    have hl := (hw.later.trans hl₁).trans hl₂
    refine ⟨hl, hm.later hl fun c i hi => (hold c i hi).imp_right fun hi => ?_, nofun, ?_⟩
    · exact Nat.lt_of_lt_of_le (hw.fresh i hi.1).2 (hl₁.trans hl₂).size
    · rintro _ ⟨rfl⟩
      -- the instances of this push are new, so the state has none of them
      refine hstate.imp_right fun he => ⟨he fun i hi c hc => ?_, w, hpush⟩
      exact absurd (hm c i hc) (Nat.not_lt_of_le (hw.fresh i hi).1)
  | @releaseFails w m₁ e m₂ hpush hpublish hrelease =>
    obtain ⟨done, hw, ho⟩ := publish_overrides hp hpush hpublish
    obtain ⟨hl₂, hstate, -, hrefused⟩ := (Machine.giveBack_ends w.run m₁).error hrelease
    have hlate := hl₂.trans (Machine.abort_later s {} e m₂)
    refine ⟨(hw.later.trans ho.later).trans hlate, hw.known ho hlate hstate hm, nofun, ?_⟩
    rintro _ ⟨rfl⟩
    exact Or.inr ⟨hrefused, w, hpush⟩
  | @completes w m₁ m₂ hpush hpublish hrelease =>
    obtain ⟨done, hw, ho⟩ := publish_overrides hp hpush hpublish
    obtain ⟨hlate, hstate, -⟩ := (Machine.giveBack_ends w.run m₁).ok hrelease
    refine ⟨(hw.later.trans ho.later).trans hlate, hw.known ho hlate hstate hm, ?_, nofun⟩
    rintro _ ⟨rfl⟩
    exact hw.commits ho hlate hstate

/-- A stage execution fails with a failure of its own. -/
theorem executeStage_fails (hp : p.IsOrderly s) {config : ExecutorConfig} {e : ExecutionError}
    (hrun : p.executeStage b config s m = (.error e, m')) : e.IsOfStage := by
  have hending := executeStage_ending p b config s m
  rw [hrun] at hending
  have hpushes := push_ends (b := b) (m := m) hp
  cases hending with
  | @pushFails _ w hpush => exact (Workspace.push_fails hp.wired).error hpush
  | @publishFails w _ m₁ hpush hpublish =>
    obtain ⟨done, hw⟩ := hpushes.ok hpush
    exact ((Machine.publish_ends (m := w.leaving m.state)
      (fun i hi => (hw.fresh i hi).2) hw.channels).error hpublish).1
  | @releaseFails w m₁ _ m₂ hpush hpublish hrelease =>
    obtain ⟨-, -, -, c, rfl⟩ := (Machine.giveBack_ends w.run m₁).error hrelease
    exact trivial

/-- The operators' memory is as the push left it, however a stage execution ends. -/
theorem executeStage_memory (hp : p.IsOrderly s) {config : ExecutorConfig} {C : ω → Prop}
    (h : Ends (Workspace.push p b s m.state) (m.entering p s) (fun _ w => C w.memory)
      fun _ w => C w.memory) : C (p.executeStage b config s m).2.memory := by
  have hpushes := push_ends (b := b) (m := m) hp
  have hending := executeStage_ending p b config s m
  generalize p.executeStage b config s m = run at hending
  cases hending with
  | @pushFails e w hpush => exact h.error hpush
  | @publishFails w e m₁ hpush hpublish =>
    obtain ⟨done, hw⟩ := hpushes.ok hpush
    obtain ⟨-, -, hmemory, -⟩ := (Machine.publish_ends (m := w.leaving m.state)
      (fun i hi => (hw.fresh i hi).2) hw.channels).error hpublish
    exact hmemory ▸ h.ok hpush
  | @releaseFails w m₁ e m₂ hpush hpublish hrelease =>
    obtain ⟨done, hw, ho⟩ := publish_overrides hp hpush hpublish
    obtain ⟨-, -, hmemory, -⟩ := (Machine.giveBack_ends w.run m₁).error hrelease
    exact (hmemory.trans ho.memory) ▸ h.ok hpush
  | @completes w m₁ m₂ hpush hpublish hrelease =>
    obtain ⟨done, hw, ho⟩ := publish_overrides hp hpush hpublish
    obtain ⟨-, -, hmemory⟩ := (Machine.giveBack_ends w.run m₁).ok hrelease
    exact (hmemory.trans ho.memory) ▸ h.ok hpush

end Commits

namespace PreliminaryPlan

variable {ω : Type} {p : PreliminaryPlan} {plan : Plan} {b : Behaviour ω} {s : StageId}
  {m m' : Machine ω}

/-- With operators that leave references alone a failure leaves the state as it was. -/
theorem executeStage_leaves (hg : p.graph.Built) (h : p.assign = .ok plan)
    (hs : s < plan.stages.length) (hb : ∀ t, p.Needs t → b.Careful p.graph t)
    (config : ExecutorConfig) {extra : InstanceId → Nat}
    (hm : Accounted m.ledger m.state extra []) {e : ExecutionError}
    (hrun : plan.executeStage b config s m = (.error e, m')) : m'.state = m.state := by
  obtain ⟨horderly, hneeds⟩ := isOrderly_of_assign hg h hs
  have hknown : m.Known := fun c i hi => Ledger.lt_size_of_references (hm.references hi)
  have hcareful : ∀ t ∈ (plan.stage s).tasks, b.Careful plan.graph t := fun t ht =>
    careful_of_assign hg h (hb t (hneeds t ht))
  obtain ⟨hrefused, -⟩ := (executeStage_accounted horderly hcareful config hm hrun).2.2 e rfl
  refine ((executeStage_commits horderly config hknown hrun).2.2.2 e rfl).resolve_right ?_
  rintro ⟨⟨c, rfl⟩, -⟩
  exact hrefused c rfl

/-- **A stage execution commits or leaves the state as it was**, whatever the operators do: the one
exception is a release that is refused after the push. With operators that leave references alone, on
a state whose references are accounted for, there is no exception. -/
theorem executeStage_commits_or_leaves (hg : p.graph.Built) (h : p.assign = .ok plan)
    (hs : s < plan.stages.length) (config : ExecutorConfig) (hm : m.Known)
    {result : Except ExecutionError StageReport}
    (hrun : plan.executeStage b config s m = (result, m')) :
    m'.Known ∧ (∀ report, result = .ok report → plan.Commits s m report m') ∧
      (∀ e, result = .error e → plan.Spares b s m e m') ∧
      ∀ extra, Accounted m.ledger m.state extra [] → (∀ t, p.Needs t → b.Careful p.graph t) →
        ∀ e, result = .error e → m'.state = m.state := by
  obtain ⟨hknown, hcommits, hspares⟩ :=
    (executeStage_commits (isOrderly_of_assign hg h hs).1 config hm hrun).2
  refine ⟨hknown, hcommits, hspares, fun extra haccounted hcareful e he => ?_⟩
  exact executeStage_leaves hg h hs hcareful config haccounted (he ▸ hrun)

end PreliminaryPlan

/-! ## A reader that gives back what it has not taken -/

/-- The first task feeds the second one in its own stage and the third one in another stage. -/
def forked : PreliminaryPlan := .ofGraph
  (((((TaskGraph.empty.addTask
    { object := 0, name := "read", platform := ⟨"a"⟩, inputs := [], outputs := [.any, .any] }).addTask
    { object := 1, name := "peek", platform := ⟨"a"⟩, inputs := [.any], outputs := [] }).addTask
    { object := 2, name := "show", platform := ⟨"b"⟩, inputs := [.any], outputs := [] }).wire
      0 0 1 0 .collection).wire 0 1 2 0 .collection)

/-- Operators that emit on all outputs and release what is on their first input. -/
def releasing : Behaviour Unit where
  prepare _ _ m := { result := .ok (), memory := m }
  evaluate _ ctx m :=
    { result := .ok (), memory := m, touches := [.release 0]
      emissions := List.replicate ctx.outputCount (some { payload := .number 0 }) }
  loopState _ _ := .notStarted
  advance _ _ m := (.ok .notStarted, m)

theorem built_forked : forked.graph.Built :=
  .wire (.wire (.addTask _ (.addTask _ (.addTask _ .empty))) rfl) rfl

/-- What the third task is to read is published, and the stage execution fails all the same. -/
theorem forked_commits_or_leaves : ∃ plan m', forked.assign = .ok plan ∧
    plan.executeStage releasing {} 0 { memory := () } =
      (.error (.scheduling (.doubleRelease 0)), m') ∧
    m'.state.get? 1 = some 1 ∧ m'.Known ∧
    plan.Spares releasing 0 { memory := () } (.scheduling (.doubleRelease 0)) m' := by
  have hcheck : (forked.assign.map fun plan => (plan.stages.length,
      (plan.executeStage releasing {} 0 { memory := () }).1,
      (plan.executeStage releasing {} 0 { memory := () }).2.state.get? 1)) =
      .ok (2, .error (.scheduling (.doubleRelease 0)), some 1) := by decide +kernel
  cases h : forked.assign with
  | error e =>
    rw [h] at hcheck
    exact absurd hcheck (by simp [Except.map])
  | ok plan =>
    rw [h] at hcheck
    obtain ⟨hlen, hrest⟩ := Prod.mk.inj (Except.ok.inj hcheck)
    obtain ⟨hresult, hpublished⟩ := Prod.mk.inj hrest
    have hknown : Machine.Known ({ memory := () } : Machine Unit) := fun c i hi => by
      rw [Machine.get?_of_isEmpty rfl] at hi
      exact absurd hi (by simp)
    obtain ⟨hknown', -, hspares, -⟩ := PreliminaryPlan.executeStage_commits_or_leaves built_forked h
      (hlen ▸ Nat.zero_lt_two) {} hknown (Prod.mk.eta.symm : plan.executeStage releasing {} 0 _ = _)
    exact ⟨plan, _, rfl, Prod.ext hresult rfl, hpublished, hknown', hspares _ hresult⟩

end Dataflow
