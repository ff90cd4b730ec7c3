import Dataflow.Proofs.Execution.Obtained

/-!
# What a failed stage execution gives back

A stage execution that fails gives back what it has taken, with operators that obtain and release
references as they like: the references on each instance are what there were before and what operators
have changed. There are two exceptions. If operators have released references that were not theirs,
so that an instance is disposed too soon, the engine fails in the middle of an operation, and what the
operation had taken so far is lost. And a loop head that refuses to start keeps the references on its
inputs.

What belongs to nobody in the stage execution is followed through all its steps (`Ledger.Tallies`):
the references on an instance are those, and one for each time that the stage execution holds it. What
operators do counts to the former. As long as this number is not overdrawn, none of the releases of
the engine can be refused, and giving back what is held leaves exactly the rest.

* `Machine.Keyed`, `executeStage_keyed`: each instance is published for its own channel.
* `Ledger.Tallies.releaseAll`, `Store.registerEach_refused`: where giving back and publishing fail.
* `executeStage_returns`: one stage execution of an orderly stage.
* **`PreliminaryPlan.executeStage_gives_back`**: any stage of a plan.

The first exception needs an operator that releases what is not its own. `Overdrawn` says when it can
come about, of the references that would be left if operators alone changed them (`Plan.remaining`).
The second one needs a loop head that refuses to be moved to running when its initialization has
succeeded; it is seen from the error, which is of a kind that nothing else leads to.
-/

namespace Dataflow

open Handling Workspace

/-! ## Giving back -/

namespace Ledger.Tallies

variable {l : Ledger} {due : InstanceId → Int} {is held : List InstanceId} {r : StageRun}

/-- What is held may be counted with what is nobody's. -/
theorem append (h : l.Tallies due (is ++ held)) : l.Tallies (fun i => due i + is.count i) held := by
  intro i
  change _ = due i + (is.count i : Int) + held.count i
  rw [h i, List.count_append]
  omega

/-- Giving back everything that is held fails only where there are too few references. -/
theorem releaseAll (h : l.Tallies due r.held) : Ends r.releaseAll l (fun _ l' => l'.Tallies due [])
    fun _ _ => ∃ i, due i < 0 := by
  by_cases hdue : ∀ i, 0 ≤ due i
  · exact ((releaseAll_balanced (h.balanced hdue)).mono fun _ _ hb => of_balanced hb.2 hdue).ends
  · obtain ⟨i, hi⟩ := not_forall.mp hdue
    refine releaseAll_handled.mono (fun _ _ hl => h.handled hl fun i => ?_) fun _ _ _ =>
      ⟨i, not_le.mp hi⟩
    rw [net_released, List.count_nil]
    omega

end Ledger.Tallies

/-! ## Publishing -/

namespace Store

variable {st : Store} {is : List InstanceId} {due : InstanceId → Int} {held : List InstanceId}

/-- Each instance is published for its own channel. -/
def Keyed (st : Store) : Prop :=
  ∀ c i, st.state.get? c = some i → (st.ledger.get i).channel = c ∧ i < st.ledger.cells.size

theorem Keyed.later {st' : Store} (h : st.Keyed) (hl : st.ledger.Later st'.ledger)
    (hs : ∀ c i, st'.state.get? c = some i → st.state.get? c = some i ∨
      (st'.ledger.get i).channel = c ∧ i < st'.ledger.cells.size) : st'.Keyed := by
  intro c i hi
  rcases hs c i hi with hold | hnew
  · obtain ⟨hc, hlt⟩ := h c i hold
    exact ⟨(hl.channel i hlt).trans hc, Nat.lt_of_lt_of_le hlt hl.size⟩
  · exact hnew

theorem Registers.keyed {st' : Store} {i : InstanceId} (h : Registers st i st') (hst : st.Keyed)
    (hi : i < st.ledger.cells.size) : st'.Keyed := by
  refine hst.later h.later fun c j hj => ?_
  rw [h.get?] at hj
  split at hj
  · rename_i hc
    obtain rfl := Option.some.inj hj
    exact Or.inr ⟨(h.later.channel i hi).trans hc.symm, Nat.lt_of_lt_of_le hi h.later.size⟩
  · exact Or.inl hj

theorem nodup_replacedBy (h : st.Keyed) (hn : (is.map fun i => (st.ledger.get i).channel).Nodup) :
    (st.replacedBy is).Nodup :=
  hn.filterMap fun c d i hc hd => (h c i hc).1.symm.trans (h d i hd).1

theorem published_of_mem_replacedBy {i : InstanceId} (h : i ∈ st.replacedBy is) :
    ∃ c, st.state.get? c = some i := by
  obtain ⟨c, -, hc⟩ := List.mem_filterMap.mp h
  exact ⟨c, hc⟩

/-- An instance that is to be published, or one that is published, has no references. -/
def Lacks (st : Store) (is : List InstanceId) : Prop :=
  ∃ i, (st.ledger.get i).references = 0 ∧ (i ∈ is ∨ ∃ c, st.state.get? c = some i)

/-- Where nothing is lacking, nothing is after a first instance has been published. -/
theorem Registers.lacks {st' : Store} {i : InstanceId} (h : Registers st i st') (hst : st.Keyed)
    (hne : (st.ledger.get i).channel ∉ is.map fun j => (st.ledger.get j).channel)
    (hlacks : st'.Lacks is) : st.Lacks (i :: is) := by
  obtain ⟨j, h0, hj⟩ := hlacks
  by_cases hij : j = i
  · subst hij
    refine ⟨j, ?_, Or.inl List.mem_cons_self⟩
    rw [h.references, if_pos rfl] at h0
    split at h0 <;> omega
  -- only what is replaced has fewer references, and it is of another channel
  have hkept : st.state.get? (st.ledger.get i).channel ≠ some j := by
    intro hq
    rcases hj with hmem | ⟨c, hc⟩
    · exact hne ((hst _ j hq).1 ▸ List.mem_map_of_mem hmem)
    · rw [h.get?] at hc
      split at hc
      · exact hij (Option.some.inj hc).symm
      · rename_i hne
        exact hne ((hst c j hc).1.symm.trans (hst _ j hq).1)
  rw [h.references, if_neg (Ne.symm hij), if_neg hkept] at h0
  rcases hj with hmem | ⟨c, hc⟩
  · exact ⟨j, h0, Or.inl (List.mem_cons_of_mem _ hmem)⟩
  · refine ⟨j, h0, Or.inr ⟨c, ?_⟩⟩
    rw [h.get?] at hc
    split at hc
    · exact absurd (Option.some.inj hc).symm hij
    · exact hc

/-- Publishing fails only where an instance has no references. -/
theorem registerEach_refused : ∀ {is : List InstanceId} {st : Store}, st.Keyed →
    (∀ i ∈ is, i < st.ledger.cells.size) → (is.map fun i => (st.ledger.get i).channel).Nodup →
    Ends (registerEach is) st (fun _ _ => True) fun _ _ => st.Lacks is
  | [], _, _, _, _ => Ends.pure trivial
  | i :: is, st, hst, hknown, hn => by
    obtain ⟨hnot, hn⟩ := List.nodup_cons.mp hn
    have hknown' : ∀ j ∈ is, j < st.ledger.cells.size := fun j hj =>
      hknown j (List.mem_cons_of_mem _ hj)
    unfold registerEach
    refine Ends.bind (register_ends.mono (fun _ _ h => h) ?_) fun _ st₁ h₁ => ?_
    · rintro _ _ ⟨-, -, h0 | ⟨-, q, hq, h0⟩⟩
      · exact ⟨i, h0, Or.inl List.mem_cons_self⟩
      · exact ⟨q, h0, Or.inr ⟨_, hq⟩⟩
    have hmap : is.map (fun j => (st₁.ledger.get j).channel) =
        is.map fun j => (st.ledger.get j).channel :=
      List.map_congr_left fun j hj => h₁.later.channel j (hknown' j hj)
    exact (registerEach_refused (h₁.keyed hst (hknown i List.mem_cons_self))
      (fun j hj => Nat.lt_of_lt_of_le (hknown' j hj) h₁.later.size) (hmap ▸ hn)).mono
      (fun _ _ h => h) fun _ _ h => h₁.lacks hst hnot h

/-- Where an instance that is held or published has no references, too many have been released. -/
theorem Lacks.overdrawn (h : st.Lacks is) (ht : st.ledger.Tallies due held)
    (his : ∀ i ∈ is, i ∈ held) : Overdrawn st.state due := by
  obtain ⟨i, h0, hi⟩ := h
  have hcount := ht i
  refine ⟨i, hi.imp (fun hmem => ?_) fun hpublished => ⟨hpublished, ?_⟩⟩
  · have := List.count_pos_iff.mpr (his i hmem)
    omega
  · omega

end Store

namespace Machine

variable {ω : Type} {p : Plan} {m m' : Machine ω} {is held : List InstanceId} {config : ExecutorConfig}
  {s : StageId} {due : InstanceId → Int}

/-- Each instance is published for its own channel. -/
def Keyed (m : Machine ω) : Prop := Store.Keyed ⟨m.ledger, m.state⟩

theorem Keyed.known (h : m.Keyed) : m.Known := fun c i hi => (h c i hi).2

/-- Publishing fails only where too many references have been released. -/
theorem publish_refused (hm : m.Keyed) (hknown : ∀ i ∈ is, i < m.ledger.cells.size)
    (hn : (is.map fun i => (m.ledger.get i).channel).Nodup) (ht : m.ledger.Tallies due held)
    (his : ∀ i ∈ is, i ∈ held) : Ends (publish p config s is) m (fun _ _ => True)
      fun _ _ => Overdrawn m.state due := by
  have hsub : ∀ i ∈ outward p m.ledger is, i ∈ is := fun i hi => (List.mem_filter.mp hi).1
  have hlacks : Store.Lacks ⟨m.ledger, m.state⟩ (outward p m.ledger is) → Overdrawn m.state due :=
    fun h => h.overdrawn ht fun i hi => his i (hsub i hi)
  unfold publish
  refine Ends.bind Succeeds.get.ends ?_
  rintro _ _ ⟨rfl, rfl⟩
  simp only
  split
  · rename_i i hfind
    refine Ends.bind (R := fun _ _ => False) (Ends.throw (hlacks ⟨i, ?_, Or.inl ?_⟩)) nofun
    · have hdisposed := List.find?_some hfind
      unfold Instance.isDisposed at hdisposed
      exact eq_of_beq hdisposed
    · exact List.mem_of_find?_eq_some hfind
  · refine Ends.bind ((onStore_ends (Store.registerEach_refused hm (fun i hi => hknown i (hsub i hi))
      (hn.sublist (List.filter_sublist.map _)))).mono (fun _ _ h => h) ?_) ?_
    · rintro _ _ ⟨_, _, h, -, -⟩
      exact hlacks h
    · rintro _ _ ⟨_, -, rfl⟩
      split
      · exact (recordCardinalities_spec.mono fun _ _ _ => trivial).ends
      · exact Ends.pure trivial

/-- What remains after a publication when everything that is held is given back: this fails only where
too many references have been released. -/
theorem settled_refused {r : StageRun} {l : Ledger} (hm : m.Keyed)
    (hn : (is.map fun i => (m.ledger.get i).channel).Nodup) (ht : m.ledger.Tallies due r.held)
    (hl : m.ledger.Handled l ((outward p m.ledger is).map .obtained ++
      (Store.replacedBy ⟨m.ledger, m.state⟩ (outward p m.ledger is)).map .released)) :
    Ends r.releaseAll l (fun _ _ => True) fun _ _ => Overdrawn m.state due := by
  have ht' : l.Tallies (fun i => due i + (outward p m.ledger is).count i -
      (Store.replacedBy ⟨m.ledger, m.state⟩ (outward p m.ledger is)).count i) r.held := by
    refine ht.handled hl fun i => ?_
    rw [net_append, net_obtained, net_released]
    omega
  refine ht'.releaseAll.mono (fun _ _ _ => trivial) ?_
  rintro _ _ ⟨i, hi⟩
  have hreplaced : (Store.replacedBy ⟨m.ledger, m.state⟩ (outward p m.ledger is)).count i ≤ 1 :=
    List.nodup_iff_count_le_one.mp (Store.nodup_replacedBy hm
      (hn.sublist (List.filter_sublist.map _))) i
  by_cases hmem : i ∈ Store.replacedBy ⟨m.ledger, m.state⟩ (outward p m.ledger is)
  · exact ⟨i, Or.inr ⟨Store.published_of_mem_replacedBy hmem, by omega⟩⟩
  · rw [List.count_eq_zero.mpr hmem] at hi
    exact ⟨i, Or.inl (by omega)⟩

/-- A stage execution that is given up gives everything back, unless too much has been released. -/
theorem abort_tallies {r : StageRun} {e : ExecutionError} (ht : m.ledger.Tallies due r.held) :
    (abort s r e m).ledger.Tallies due [] ∨ ∃ i, due i < 0 := by
  have hends := ht.releaseAll
  unfold Ends at hends
  unfold abort
  simp only
  cases h : r.releaseAll m.ledger <;> simp only [h] at hends ⊢
  · exact Or.inl hends
  · exact Or.inr hends

end Machine

/-! ## Stage executions -/

section Stage

variable {ω : Type} {p : Plan} {b : Behaviour ω} {s : StageId} {m m' : Machine ω}
  {log : ω → List Handling}

theorem Workspace.leaving_keyed (hm : m.Keyed) {w : Workspace ω} (hl : m.ledger.Later w.ledger) :
    (w.leaving m.state).Keyed :=
  Store.Keyed.later hm hl fun _ _ hi => Or.inl hi

/-- **However a stage execution ends, each instance is published for its own channel.** -/
theorem executeStage_keyed (hp : p.IsOrderly s) (config : ExecutorConfig) (hm : m.Keyed) :
    (p.executeStage b config s m).2.Keyed := by
  have hpushes := push_ends (b := b) (m := m) hp
  have hending := executeStage_ending p b config s m
  generalize p.executeStage b config s m = run at hending
  -- a later machine that publishes for a channel what it did, or a new instance of the channel
  have hnext : ∀ {w : Workspace ω} {done : List TaskId} {m₁ m₂ : Machine ω},
      Once p s m.state m.ledger (fedBy p s done) done w → w.ledger.Later m₁.ledger →
      m₁.ledger.Later m₂.ledger → (∀ c i, m₂.state.get? c = some i →
        m.state.get? c = some i ∨ i ∈ w.run.instances ∧ (w.ledger.get i).channel = c) → m₂.Keyed := by
    intro w done m₁ m₂ hw hl₁ hl₂ hs
    refine Store.Keyed.later hm (hw.later.trans (hl₁.trans hl₂))
      fun c i hi => (hs c i hi).imp_right fun ⟨hmem, hc⟩ => ⟨?_, ?_⟩
    · exact (hw.channel_eq (hl₁.trans hl₂) i hmem).trans hc
    · exact Nat.lt_of_lt_of_le (hw.fresh i hmem).2 (hl₁.trans hl₂).size
  cases hending with
  | @pushFails e w hpush =>
    have hl := (hpushes.error hpush).trans (Machine.abort_later s w.run e (w.leaving m.state))
    exact Store.Keyed.later hm hl fun _ _ hi => Or.inl hi
  | @publishFails w e m₁ hpush hpublish =>
    obtain ⟨done, hw⟩ := hpushes.ok hpush
    obtain ⟨-, hl₁, -, hold, -⟩ := (Machine.publish_ends (m := w.leaving m.state)
      (fun i hi => (hw.fresh i hi).2) hw.channels).error hpublish
    exact hnext hw hl₁ (Machine.abort_later s w.run e m₁) hold
  | @releaseFails w m₁ e m₂ hpush hpublish hrelease =>
    obtain ⟨done, hw, ho⟩ := publish_overrides hp hpush hpublish
    obtain ⟨hl₂, hstate, -⟩ := (Machine.giveBack_ends w.run m₁).error hrelease
    exact hnext hw ho.later (hl₂.trans (Machine.abort_later s {} e m₂)) fun c i hi =>
      ho.mem c i (hstate ▸ hi)
  | @completes w m₁ m₂ hpush hpublish hrelease =>
    obtain ⟨done, hw, ho⟩ := publish_overrides hp hpush hpublish
    obtain ⟨hl₂, hstate, -⟩ := (Machine.giveBack_ends w.run m₁).ok hrelease
    exact hnext hw ho.later hl₂ fun c i hi => ho.mem c i (hstate ▸ hi)

/-- The state is as it was, and so are the references but for what operators have changed. Only a loop
head that has refused to start has kept some. -/
def Plan.Returns (m : Machine ω) (due : InstanceId → Int) (e : ExecutionError) (m' : Machine ω) :
    Prop :=
  m'.state = m.state ∧ ∃ kept : List InstanceId, (kept = [] ∨ ∃ cause, e = .illegalState cause) ∧
    ∀ i, ((m'.ledger.get i).references : Int) = due i + kept.count i

/-- **A failed stage execution returns what it has taken**, unless operators have released too much. -/
theorem executeStage_returns (hp : p.IsOrderly s) {config : ExecutorConfig}
    (hb : ∀ t ∈ (p.stage s).tasks, b.LogsHandlings (p.graph.task t).operator.object log)
    (hm : m.Keyed) (hlog : log m.memory = []) {e : ExecutionError}
    (hrun : p.executeStage b config s m = (.error e, m')) :
    Overdrawn m.state (Workspace.due (fun i => (m.ledger.get i).references) log m'.memory) ∨
      Plan.Returns m (Workspace.due (fun i => (m.ledger.get i).references) log m'.memory) e m' := by
  have hbooks := push_books hp hm.known hb (w := m.entering p s) (m.books hlog)
  have hpushes := push_ends (b := b) (m := m) hp
  have hending := executeStage_ending p b config s m
  rw [hrun] at hending
  cases hending with
  | @pushFails e w hpush =>
    rcases hbooks.error hpush with hover | ⟨kept, hkept, ht⟩
    · exact Or.inl hover
    rcases Machine.abort_tallies (m := w.leaving m.state) (s := s) (e := e) ht.append with
      hback | ⟨i, hi⟩
    · refine Or.inr ⟨rfl, kept, hkept, fun i => ?_⟩
      have hreferences := hback i
      rwa [List.count_nil, Nat.cast_zero, Int.add_zero] at hreferences
    · refine Or.inl ⟨i, Or.inl ?_⟩
      change Workspace.due _ log w.memory i < 0
      omega
  | @publishFails w e m₁ hpush hpublish =>
    obtain ⟨done, hw⟩ := hpushes.ok hpush
    have hknown : ∀ i ∈ w.run.instances, i < w.ledger.cells.size := fun i hi => (hw.fresh i hi).2
    obtain ⟨-, -, hmemory, -⟩ := (Machine.publish_ends (m := w.leaving m.state) hknown
      hw.channels).error hpublish
    refine Or.inl ?_
    change Overdrawn _ (Workspace.due _ log m₁.memory)
    rw [hmemory]
    exact (Machine.publish_refused (leaving_keyed hm hw.later) hknown hw.channels
      (hbooks.ok hpush).tallies fun i hi => List.mem_append_right _ hi).error hpublish
  | @releaseFails w m₁ e m₂ hpush hpublish hrelease =>
    obtain ⟨done, hw, ho⟩ := publish_overrides hp hpush hpublish
    have hknown : ∀ i ∈ w.run.instances, i < w.ledger.cells.size := fun i hi => (hw.fresh i hi).2
    have hl := (Machine.publish_handled (m := w.leaving m.state) hknown hw.channels).ok hpublish
    have hrefused := Machine.settled_refused (leaving_keyed hm hw.later) hw.channels
      (hbooks.ok hpush).tallies hl
    obtain ⟨_, _, ⟨_, hover, rfl⟩, -, rfl⟩ := (Machine.onStore_ends (m := m₁)
      (Store.onLedger_ends hrefused)).error hrelease
    refine Or.inl ?_
    change Overdrawn _ (Workspace.due _ log m₁.memory)
    rw [ho.memory]
    exact hover

end Stage

/-- What the operators do to references in a stage execution, in order, as far as it is not refused.
They keep a record of it, which changes nothing of what is executed (`Behaviour.mirrors_handling`). -/
def Plan.handlings {ω : Type} (p : Plan) (b : Behaviour ω) (config : ExecutorConfig) (s : StageId)
    (m : Machine ω) : List Handling :=
  (p.executeStage b.handling config s ⟨m.ledger, m.state, (m.memory, []), m.events⟩).2.memory.2

/-- The references there are if operators alone change them. -/
def Plan.remaining {ω : Type} (p : Plan) (b : Behaviour ω) (config : ExecutorConfig) (s : StageId)
    (m : Machine ω) (i : InstanceId) : Int :=
  (m.ledger.get i).references + net (p.handlings b config s m) i

namespace PreliminaryPlan

variable {ω : Type} {p : PreliminaryPlan} {plan : Plan} {b : Behaviour ω} {s : StageId}
  {m m' : Machine ω}

/-- **A failed stage execution gives back every reference that it has taken**, whatever the operators
do, unless they have released references that were not theirs: the references on each instance are
those from before and what operators have changed. A loop head that refuses to start is the one
exception. -/
theorem executeStage_gives_back (hg : p.graph.Built) (h : p.assign = .ok plan)
    (hs : s < plan.stages.length) (config : ExecutorConfig) (hm : m.Keyed) {e : ExecutionError}
    (hrun : plan.executeStage b config s m = (.error e, m'))
    (hremaining : ¬ Overdrawn m.state (plan.remaining b config s m)) :
    m'.Keyed ∧ Plan.Returns m (plan.remaining b config s m) e m' := by
  have horderly := (isOrderly_of_assign hg h hs).1
  refine ⟨?_, ?_⟩
  · have := executeStage_keyed (b := b) horderly config hm
    rwa [hrun] at this
  -- the same execution with a record
  let watched : Machine (ω × List Handling) := ⟨m.ledger, m.state, (m.memory, []), m.events⟩
  have hmirror := b.mirrors_handling.executeStage (p := plan) (s := s) config watched
  change plan.executeStage b config s m = _ at hmirror
  rw [hrun] at hmirror
  obtain ⟨he, rfl⟩ := Prod.mk.inj hmirror
  have hreturns := executeStage_returns (m := watched) horderly
    (fun t _ => b.logsHandlings_handling _) hm rfl (Prod.ext he.symm rfl)
  exact hreturns.resolve_left hremaining

end PreliminaryPlan

/-! ## A reader that fails with a reference of its own -/

/-- Operators that emit on all outputs if they have no inputs. Otherwise they obtain a reference on
what is on their first input, and fail. -/
def keeping : Behaviour Unit where
  prepare _ _ m := { result := .ok (), memory := m }
  evaluate _ ctx m :=
    if ctx.inputs.isEmpty then
      { result := .ok (), memory := m
        emissions := List.replicate ctx.outputCount (some { payload := .number 0 }) }
    else { result := .error (.failed "kept"), memory := m, touches := [.obtain 0] }
  loopState _ _ := .notStarted
  advance _ _ m := (.ok .notStarted, m)

/-- The operator's reference is the only one that remains. -/
theorem forked_gives_back : ∃ plan m', forked.assign = .ok plan ∧
    plan.executeStage keeping {} 0 { memory := () } = (.error (.task 1 "peek" 0 (.failed "kept")), m') ∧
    plan.handlings keeping {} 0 { memory := () } = [.obtained 0] ∧ (m'.ledger.get 0).references = 1 ∧
    m'.Keyed ∧ Plan.Returns { memory := () } (plan.remaining keeping {} 0 { memory := () })
      (.task 1 "peek" 0 (.failed "kept")) m' := by
  have hcheck : (forked.assign.map fun plan => (plan.stages.length,
      (plan.executeStage keeping {} 0 { memory := () }).1,
      plan.handlings keeping {} 0 { memory := () },
      ((plan.executeStage keeping {} 0 { memory := () }).2.ledger.get 0).references)) =
      .ok (2, .error (.task 1 "peek" 0 (.failed "kept")), [.obtained 0], 1) := by decide +kernel
  cases h : forked.assign with
  | error e =>
    rw [h] at hcheck
    exact absurd hcheck (by simp [Except.map])
  | ok plan =>
    rw [h] at hcheck
    obtain ⟨hlen, hrest⟩ := Prod.mk.inj (Except.ok.inj hcheck)
    obtain ⟨hresult, hrest⟩ := Prod.mk.inj hrest
    obtain ⟨hhandlings, hone⟩ := Prod.mk.inj hrest
    have hnone : ∀ c, ({ memory := () } : Machine Unit).state.get? c = none :=
      Machine.get?_of_isEmpty rfl
    have hremaining : ¬ Overdrawn ({ memory := () } : Machine Unit).state
        (plan.remaining keeping {} 0 { memory := () }) := by
      rintro ⟨i, hneg | ⟨⟨c, hc⟩, -⟩⟩
      · unfold Plan.remaining at hneg
        rw [hhandlings, net_cons, net_nil, effect] at hneg
        split at hneg <;> omega
      · rw [hnone] at hc
        exact absurd hc.symm (Option.some_ne_none i)
    have hkeyed : Machine.Keyed ({ memory := () } : Machine Unit) := fun c i hi => by
      rw [hnone] at hi
      exact absurd hi.symm (Option.some_ne_none i)
    have hrun : plan.executeStage keeping {} 0 { memory := () } = (.error _, _) :=
      Prod.ext hresult rfl
    obtain ⟨hkeyed', hreturns⟩ := PreliminaryPlan.executeStage_gives_back built_forked h
      (hlen ▸ Nat.zero_lt_two) {} hkeyed hrun hremaining
    exact ⟨plan, _, rfl, hrun, hhandlings, hone, hkeyed', hreturns⟩

/-- The first task feeds a task on a second platform, and one on a third platform that reads both
outputs. -/
def drained : PreliminaryPlan := .ofGraph
  ((((((TaskGraph.empty.addTask
    { object := 0, name := "read", platform := ⟨"a"⟩, inputs := [], outputs := [.any, .any] }).addTask
    { object := 1, name := "drain", platform := ⟨"b"⟩, inputs := [.any], outputs := [] }).addTask
    { object := 2, name := "join", platform := ⟨"c"⟩, inputs := [.any, .any], outputs := [] }).wire
      0 0 2 0 .collection).wire 0 1 1 0 .collection).wire 0 1 2 1 .collection)

-- The second task releases the reference of the state, so that the third one obtains a reference on
-- the first instance, is refused one on the other instance, and the first reference is lost although
-- no operator has done anything in this stage execution.
example : (drained.assign.map fun plan =>
    let m := (plan.executeEach releasing {} [0, 1] { memory := () }).2
    ((plan.executeStage releasing {} 2 m).1, plan.handlings releasing {} 2 m,
      (m.ledger.get 0).references, ((plan.executeStage releasing {} 2 m).2.ledger.get 0).references)) =
    .ok (.error (.scheduling (.useAfterRelease 1)), [], 1, 2) := by decide +kernel

end Dataflow
