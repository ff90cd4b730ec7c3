import Dataflow.Proofs.Execution.Publish
import Dataflow.Proofs.Execution.Push

/-!
# Executing a stage without a loop head

Between stage executions only the execution state holds references (`Machine.AtRest`). A stage
execution that finds what it reads published succeeds, executes each task of the stage once,
publishes the data of the channels that leave the stage and leaves all other channels as they were.

* `executeStage_ending`, `Plan.StageEnding.executeStage_eq`: the ways in which a stage execution ends.
* `executeStage_of_push`: what comes after the push.
* **`executeStage_spec`**

The two lemmas about the ending of a stage execution are for those who argue about all outcomes. There
are four, one for each place at which it can fail and one for success, and in each it is known what
was done before (`Plan.StageEnding`).
-/

namespace Dataflow

namespace Machine

variable {ω : Type}

/-- The state publishes data for a channel. -/
def Publishes (m : Machine ω) (c : ChannelId) (x : Payload) : Prop :=
  ∃ i, m.state.get? c = some i ∧ m.ledger.Live i c x

/-- No reference is in use but those of the state. -/
def AtRest (m : Machine ω) : Prop := Tidy m.ledger m.state []

/-- What is published for a channel that a later machine publishes the same instance for. -/
theorem Publishes.later {m m' : Machine ω} {c : ChannelId} {x : Payload} (h : m.Publishes c x)
    (hl : m.ledger.Later m'.ledger) (hr : m'.AtRest) (hs : m'.state.get? c = m.state.get? c) :
    m'.Publishes c x := by
  obtain ⟨i, hi, hlive⟩ := h
  have hi' := hs.trans hi
  exact ⟨i, hi', hlive.later hl (hr.references hi')⟩

theorem get?_of_isEmpty {m : Machine ω} (h : m.state.isEmpty = true) (c : ChannelId) :
    m.state.get? c = none := by
  unfold ExecutionState.get?
  exact Std.TreeMap.getElem?_of_isEmpty h

/-- A state without instances is at rest. -/
theorem atRest_of_isEmpty {m : Machine ω} (h : m.state.isEmpty = true) : m.AtRest := by
  refine ⟨fun c i hi => ?_, fun i => ?_⟩
  · rw [get?_of_isEmpty h] at hi
    exact absurd hi (by simp)
  · unfold ExecutionState.holds
    rw [get?_of_isEmpty h]
    simp

theorem Publishes.contains {m : Machine ω} {c : ChannelId} {x : Payload} (h : m.Publishes c x) :
    m.state.contains c = true := by
  obtain ⟨i, hi, -⟩ := h
  unfold ExecutionState.contains
  rw [Std.TreeMap.contains_eq_isSome_getElem?]
  exact Option.isSome_iff_exists.mpr ⟨i, hi⟩

end Machine

section AfterPush

variable {ω : Type} {p : Plan} {b : Behaviour ω} {s : StageId} {m : Machine ω} {w : Workspace ω}

/-- What a push has left to publish and to give back. -/
structure Workspace.Settled (m : Machine ω) (w : Workspace ω) : Prop where
  activators : w.run.activators = []
  channels : (w.run.instances.map fun i => (w.ledger.get i).channel).Nodup
  later : m.ledger.Later w.ledger
  covers : w.ledger.Covers (m.state.holds m.ledger) w.run.instances

/-- What a stage execution makes of what its push has produced. -/
structure Machine.Completes (p : Plan) (m : Machine ω) (w : Workspace ω) (m' : Machine ω) :
    Prop where
  memory : m'.memory = w.memory
  rest : m'.AtRest
  published : ∀ i ∈ w.run.instances, ∀ c x, w.ledger.Live i c x → p.isOutward c = true →
    m'.Publishes c x
  kept : ∀ c, ¬ (c ∈ w.run.instances.map (fun i => (w.ledger.get i).channel) ∧
    p.isOutward c = true) → m'.state.get? c = m.state.get? c ∧ ∀ x, m.Publishes c x →
      m'.Publishes c x

/-- The machine while a stage starts to execute. -/
def Machine.entering (m : Machine ω) (p : Plan) (s : StageId) : Workspace ω where
  ledger := m.ledger
  memory := m.memory
  events := m.events.push (.stageStarted s (p.stage s).platform (p.stage s).tasks.length)

/-- The machine when a push has ended. -/
def Workspace.leaving (w : Workspace ω) (state : ExecutionState) : Machine ω :=
  ⟨w.ledger, state, w.memory, w.events⟩

/-- How a stage execution ends: in its push, in the publication, in the release of what it holds, or
after all of them. -/
inductive Plan.StageEnding (p : Plan) (b : Behaviour ω) (config : ExecutorConfig) (s : StageId)
    (m : Machine ω) : Except ExecutionError StageReport × Machine ω → Prop
  | pushFails {e : ExecutionError} {w : Workspace ω}
      (hpush : Workspace.push p b s m.state (m.entering p s) = .error e w) :
      StageEnding p b config s m (.error e, Machine.abort s w.run e (w.leaving m.state))
  | publishFails {w : Workspace ω} {e : ExecutionError} {m₁ : Machine ω}
      (hpush : Workspace.push p b s m.state (m.entering p s) = .ok () w)
      (hpublish : Machine.publish p config s w.run.instances (w.leaving m.state) = .error e m₁) :
      StageEnding p b config s m (.error e, Machine.abort s w.run e m₁)
  | releaseFails {w : Workspace ω} {m₁ : Machine ω} {e : ExecutionError} {m₂ : Machine ω}
      (hpush : Workspace.push p b s m.state (m.entering p s) = .ok () w)
      (hpublish : Machine.publish p config s w.run.instances (w.leaving m.state) = .ok () m₁)
      (hrelease : Machine.onStore (Store.onLedger w.run.releaseAll) m₁ = .error e m₂) :
      StageEnding p b config s m (.error e, Machine.abort s {} e m₂)
  | completes {w : Workspace ω} {m₁ m₂ : Machine ω}
      (hpush : Workspace.push p b s m.state (m.entering p s) = .ok () w)
      (hpublish : Machine.publish p config s w.run.instances (w.leaving m.state) = .ok () m₁)
      (hrelease : Machine.onStore (Store.onLedger w.run.releaseAll) m₁ = .ok () m₂) :
      StageEnding p b config s m (.ok (w.run.report p s),
        { m₂ with events := m₂.events.push (.stageCompleted s w.run.executed.length) })

theorem executeStage_ending (p : Plan) (b : Behaviour ω) (config : ExecutorConfig) (s : StageId)
    (m : Machine ω) : p.StageEnding b config s m (p.executeStage b config s m) := by
  obtain ⟨l, state, memory, events⟩ := m
  unfold Plan.executeStage
  simp only
  split
  · rename_i hpush
    exact .pushFails hpush
  · rename_i ledger memory events run hpush
    split
    · rename_i hpublish
      exact .publishFails (w := ⟨ledger, memory, events, run⟩) hpush hpublish
    · rename_i m₁ hpublish
      split
      · rename_i hrelease
        exact .releaseFails (w := ⟨ledger, memory, events, run⟩) hpush hpublish hrelease
      · rename_i hrelease
        exact .completes (w := ⟨ledger, memory, events, run⟩) hpush hpublish hrelease

/-- There is one way only for a stage execution to end. -/
theorem Plan.StageEnding.executeStage_eq {config : ExecutorConfig}
    {out : Except ExecutionError StageReport × Machine ω} (h : p.StageEnding b config s m out) :
    p.executeStage b config s m = out := by
  obtain ⟨l, state, memory, events⟩ := m
  unfold Plan.executeStage
  cases h with
  | pushFails hpush =>
    unfold Machine.entering at hpush
    simp only at hpush
    simp only [hpush]
    rfl
  | publishFails hpush hpublish =>
    unfold Machine.entering at hpush
    unfold Workspace.leaving at hpublish
    simp only at hpush hpublish
    simp only [hpush, hpublish]
  | releaseFails hpush hpublish hrelease =>
    unfold Machine.entering at hpush
    unfold Workspace.leaving at hpublish
    simp only at hpush hpublish
    simp only [hpush, hpublish, hrelease]
  | completes hpush hpublish hrelease =>
    unfold Machine.entering at hpush
    unfold Workspace.leaving at hpublish
    simp only at hpush hpublish
    simp only [hpush, hpublish, hrelease]

theorem Plan.stage_of_executeStage {config : ExecutorConfig} {report : StageReport} {m' : Machine ω}
    (hrun : p.executeStage b config s m = (.ok report, m')) : report.stage = s := by
  have hending := executeStage_ending p b config s m
  rw [hrun] at hending
  cases hending
  rfl

/-- After a push a stage execution publishes and gives back without failure. -/
theorem executeStage_of_push (config : ExecutorConfig) (hrest : m.AtRest) {a : Unit}
    (hpush : Workspace.push p b s m.state (m.entering p s) = .ok a w) (hw : w.Settled m) :
    ∃ m', p.executeStage b config s m = (.ok (w.run.report p s), m') ∧
      Machine.Completes p m w m' := by
  obtain ⟨l₀, state, memory, events⟩ := m
  have htidy : Tidy w.ledger state w.run.instances := Tidy.later hrest hw.later hw.covers
  have hpublish : Succeeds (Machine.publish p config s w.run.instances)
      ⟨w.ledger, state, w.memory, w.events⟩ _ := Machine.publish_spec htidy hw.channels
  obtain ⟨_, m₁, hpub, h₁⟩ := hpublish
  have hrelease : Succeeds (Machine.onStore (Store.onLedger w.run.releaseAll)) m₁ _ :=
    Machine.onStore_spec (Store.onLedger_spec (releaseAll_spec hw.activators h₁.tidy.covers))
  obtain ⟨_, m₂, hrel, st, ⟨l₂, ⟨hl₂, hcov₂⟩, rfl⟩, rfl⟩ := hrelease
  have hrest₂ : Tidy l₂ m₁.state [] := h₁.tidy.later hl₂ hcov₂
  have hlater : l₀.Later l₂ := (hw.later.trans h₁.later).trans hl₂
  refine ⟨⟨l₂, m₁.state, m₁.memory, m₁.events.push (.stageCompleted s w.run.executed.length)⟩, ?_,
    h₁.memory, hrest₂, fun i hi c x hlive hx => ?_, fun c hc => ?_⟩
  · exact (Plan.StageEnding.completes hpush hpub hrel).executeStage_eq
  · have hget := h₁.outward i hi (by rw [hlive.1]; exact hx)
    rw [hlive.1] at hget
    exact ⟨i, hget, hlive.later (h₁.later.trans hl₂) (hrest₂.references hget)⟩
  · have hsame : m₁.state.get? c = state.get? c := h₁.others c hc
    exact ⟨hsame, fun x hx => hx.later hlater hrest₂ hsame⟩

/-- Every task that was executed is reported as such. -/
theorem unexecuted_report (h : ∀ t ∈ (p.stage s).tasks, t ∈ w.run.executed.map ExecutedTask.task) :
    (w.run.report p s).unexecuted = [] := by
  change (p.stage s).tasks.filter (fun t => !(w.run.executed.map ExecutedTask.task).contains t) = []
  refine List.filter_eq_nil_iff.mpr ?_
  intro t ht
  simpa using h t ht

end AfterPush

section Plain

variable {ω : Type} {p : Plan} {b : Behaviour ω} {s : StageId} {v : ChannelId → Payload}
  {I : List TaskId → ω → Prop} {m : Machine ω}

/-- The channels that leave a stage. -/
def Plan.Leaves (p : Plan) (s : StageId) (c : ChannelId) : Prop :=
  c < p.graph.channels.length ∧ (p.graph.channel c).producer ∈ (p.stage s).tasks ∧
    p.isOutward c = true

/-- What a stage reads through the execution state is published. -/
structure Reads (p : Plan) (s : StageId) (v : ChannelId → Payload) (I : List TaskId → ω → Prop)
    (m : Machine ω) : Prop where
  rest : m.AtRest
  memory : I [] m.memory
  published : ∀ t ∈ (p.stage s).tasks, ∀ i c, (p.graph.task t).inputChannel i = some c →
    p.isFedExternally t i = true → m.Publishes c (v c)

/-- What a successful stage execution has done. -/
structure Executes (p : Plan) (s : StageId) (v : ChannelId → Payload) (I : List TaskId → ω → Prop)
    (m : Machine ω) (report : StageReport) (m' : Machine ω) : Prop where
  stage : report.stage = s
  unexecuted : report.unexecuted = []
  tasks : ∃ done, done.Perm (p.stage s).tasks ∧
    report.executed = done.map (fun t => ⟨t, .plain⟩) ∧ I done m'.memory
  rest : m'.AtRest
  published : ∀ c, p.Leaves s c → m'.Publishes c (v c)
  kept : ∀ c, ¬ p.Leaves s c → m'.state.get? c = m.state.get? c ∧
    ∀ x, m.Publishes c x → m'.Publishes c x

/-- **A stage without a loop head executes each of its tasks once** and publishes what leaves it,
given that what it reads from other stages is published. -/
theorem executeStage_spec (config : ExecutorConfig) (hp : p.IsPlain s)
    (hb : ∀ t ∈ (p.stage s).tasks, Serves p b v I t) (hm : Reads p s v I m) :
    ∃ report m', p.executeStage b config s m = (.ok report, m') ∧ Executes p s v I m report m' := by
  have hfresh : Workspace.Fresh p s ⟨m.ledger, m.state⟩ v I (m.state.holds m.ledger)
      (m.entering p s) :=
    ⟨rfl, rfl, hm.memory, ⟨hm.published, fun _ _ hi => Tidy.owned hm.rest hi⟩, hm.rest.covers⟩
  obtain ⟨_, w, hpush, done, hw⟩ := (Workspace.push_spec hp hb hfresh :
    Succeeds (Workspace.push p b s m.state) _ _)
  obtain ⟨m', hrun, hm'⟩ := executeStage_of_push config hm.rest hpush
    ⟨hw.activators, hw.channels, hw.later, hw.covers⟩
  have hproduced : ∀ c, p.Leaves s c ↔ c ∈ w.run.instances.map (fun i =>
      (w.ledger.get i).channel) ∧ p.isOutward c = true := fun c => by
    unfold Plan.Leaves
    rw [hw.produced, and_assoc]
  refine ⟨w.run.report p s, m', hrun, rfl, unexecuted_report fun t ht => ?_,
    ⟨done, hw.perm, hw.executed, hm'.memory ▸ hw.memory⟩, hm'.rest, fun c hc => ?_, fun c hc => ?_⟩
  · rw [hw.executed, List.map_map]
    simpa using hw.perm.mem_iff.mpr ht
  · obtain ⟨hmem, hx⟩ := (hproduced c).mp hc
    obtain ⟨i, hi, rfl⟩ := List.mem_map.mp hmem
    exact hm'.published i hi _ _ ⟨rfl, hw.live i hi⟩ hx
  · exact hm'.kept c fun h => hc ((hproduced c).mpr h)

end Plain

end Dataflow
