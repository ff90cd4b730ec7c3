import Dataflow.Proofs.Execution.Endings

/-!
# Publishing results

An execution state holds one reference on every instance it publishes (`Tidy`), and in a system
that keeps its accounts there are no other references but those that somebody is known to hold
(`Accounted`). Publishing an instance keeps this, whether it replaces another one or not, and so
does the release of everything that a stage execution held.

* `register_ends`, `register_accounted`: putting an instance into the state, in any case and when
  it is live; `registerEach_ends`, `registerEach_accounted` for several instances.
* `publish_ends`, `publish_accounted`, `publish_spec`: the publication that ends a stage execution.
* `releaseAll_ends`, `releaseAll_balanced`: the release.

`Tidy` is a lower bound and `Accounted` an equation. The first is enough for everything to succeed,
and it is kept although somebody holds references that nobody knows of; the second is needed to see
that nothing leaks. One is turned into the other by counting what is beyond (`tidy_iff`), so each
operation is proved for the equation alone.
-/

namespace Dataflow

/-- How many references a state holds on an instance. -/
def ExecutionState.holds (state : ExecutionState) (l : Ledger) (i : InstanceId) : Nat :=
  if state.get? (l.get i).channel = some i then 1 else 0

/-- Later on a state holds the same references. -/
theorem ExecutionState.holds_later {l l' : Ledger} {state : ExecutionState}
    (hkeyed : ∀ c i, state.get? c = some i → (l.get i).channel = c ∧ i < l.cells.size)
    (hl : l.Later l') : state.holds l' = state.holds l := by
  funext i
  unfold holds
  by_cases hi : ∃ c, state.get? c = some i
  · obtain ⟨c, hi⟩ := hi
    rw [hl.channel i (hkeyed c i hi).2]
  · rw [if_neg fun h => hi ⟨_, h⟩, if_neg fun h => hi ⟨_, h⟩]

/-- What a state publishes for a channel is an instance of this channel, and besides `held` the
state holds a reference on it. -/
structure Tidy (l : Ledger) (state : ExecutionState) (held : List InstanceId) : Prop where
  keyed : ∀ c i, state.get? c = some i → (l.get i).channel = c
  covers : l.Covers (state.holds l) held

/-- What a state publishes for a channel is an instance of this channel, and there are no references
but those that `extra` counts, that of the state on each instance it publishes, and those of
`held`. -/
structure Accounted (l : Ledger) (state : ExecutionState) (extra : InstanceId → Nat)
    (held : List InstanceId) : Prop where
  keyed : ∀ c i, state.get? c = some i → (l.get i).channel = c
  balanced : l.Balanced (fun i => extra i + state.holds l i) held

section Accounts

variable {l l' : Ledger} {state : ExecutionState} {held : List InstanceId}
  {extra : InstanceId → Nat}

theorem holds_of_get? {c : ChannelId} {i : InstanceId} (hk : (l.get i).channel = c)
    (hi : state.get? c = some i) : state.holds l i = 1 := by
  unfold ExecutionState.holds
  rw [hk, if_pos hi]

/-- What is tidy is accounted for once the references beyond are counted too. -/
theorem tidy_iff : Tidy l state held ↔ ∃ extra, Accounted l state extra held := by
  constructor
  · intro h
    obtain ⟨own, hle, hb⟩ := Ledger.covers_iff.mp h.covers
    refine ⟨fun i => own i - state.holds l i, h.keyed, fun i => ?_⟩
    simp only [Nat.sub_add_cancel (hle i)]
    exact hb i
  · rintro ⟨extra, hk, hb⟩
    exact ⟨hk, hb.covers fun i => Nat.le_add_left _ _⟩

namespace Accounted

theorem owned (h : Accounted l state extra held) {c : ChannelId} {i : InstanceId}
    (hi : state.get? c = some i) : extra i + state.holds l i ≠ 0 := by
  rw [holds_of_get? (h.keyed c i hi) hi]
  exact Nat.succ_ne_zero _

theorem references (h : Accounted l state extra held) {c : ChannelId} {i : InstanceId}
    (hi : state.get? c = some i) : (l.get i).references ≠ 0 :=
  h.balanced.references_of_own (h.owned hi)

theorem known (h : Accounted l state extra held) {c : ChannelId} {i : InstanceId}
    (hi : state.get? c = some i) : (l.get i).channel = c ∧ i < l.cells.size :=
  ⟨h.keyed c i hi, Ledger.lt_size_of_references (h.references hi)⟩

/-- Later on it is enough to count the references by the channels from before. -/
theorem of_later (hkeyed : ∀ c i, state.get? c = some i → (l.get i).channel = c ∧ i < l.cells.size)
    (hl : l.Later l') (hb : l'.Balanced (fun i => extra i + state.holds l i) held) :
    Accounted l' state extra held := by
  refine ⟨fun c i hi => ?_, ?_⟩
  · obtain ⟨hk, hlt⟩ := hkeyed c i hi
    rw [hl.channel i hlt, hk]
  · rw [ExecutionState.holds_later hkeyed hl]
    exact hb

theorem later {held' : List InstanceId} (h : Accounted l state extra held) (hl : l.Later l')
    (hb : l'.Balanced (fun i => extra i + state.holds l i) held') : Accounted l' state extra held' :=
  of_later (fun _ _ hi => h.known hi) hl hb

/-- Only what is published matters. -/
theorem congr {state' : ExecutionState} (h : Accounted l state extra held)
    (heq : ∀ c, state'.get? c = state.get? c) : Accounted l state' extra held := by
  have hholds : state'.holds l = state.holds l := by
    funext i
    unfold ExecutionState.holds
    rw [heq]
  exact ⟨fun c i hi => h.keyed c i (heq c ▸ hi), hholds ▸ h.balanced⟩

end Accounted

namespace Tidy

theorem owned (h : Tidy l state held) {c : ChannelId} {i : InstanceId}
    (hi : state.get? c = some i) : state.holds l i ≠ 0 := by
  rw [holds_of_get? (h.keyed c i hi) hi]
  exact Nat.one_ne_zero

theorem references (h : Tidy l state held) {c : ChannelId} {i : InstanceId}
    (hi : state.get? c = some i) : (l.get i).references ≠ 0 :=
  h.covers.references_of_own (h.owned hi)

theorem later {held' : List InstanceId} (h : Tidy l state held) (hl : l.Later l')
    (hc : l'.Covers (state.holds l) held') : Tidy l' state held' := by
  have hkeyed : ∀ c i, state.get? c = some i → (l.get i).channel = c ∧ i < l.cells.size :=
    fun c i hi => ⟨h.keyed c i hi, Ledger.lt_size_of_references (h.references hi)⟩
  refine ⟨fun c i hi => ?_, ExecutionState.holds_later hkeyed hl ▸ hc⟩
  obtain ⟨hk, hlt⟩ := hkeyed c i hi
  rw [hl.channel i hlt, hk]

end Tidy

end Accounts

/-! ## Registering -/

namespace Store

variable {st : Store} {held is : List InstanceId} {i : InstanceId} {extra : InstanceId → Nat}

theorem onLedger_spec {α : Type} {x : LedgerM α} {Q : α → Ledger → Prop}
    (h : Succeeds x st.ledger Q) :
    Succeeds (onLedger x) st fun a st' => ∃ l, Q a l ∧ st' = { st with ledger := l } := by
  obtain ⟨a, l, hx, hQ⟩ := h
  refine ⟨a, { st with ledger := l }, ?_, l, hQ, rfl⟩
  unfold onLedger
  simp only [hx]

theorem onLedger_ends {α : Type} {x : LedgerM α} {Q : α → Ledger → Prop}
    {E : SchedulingError → Ledger → Prop} (h : Ends x st.ledger Q E) :
    Ends (onLedger x) st (fun a st' => ∃ l, Q a l ∧ st' = { st with ledger := l })
      fun e st' => ∃ l, E e l ∧ st' = { st with ledger := l } := by
  unfold Ends at h ⊢
  unfold onLedger
  cases hx : x st.ledger <;> simp only [hx] at h ⊢ <;> exact ⟨_, h, rfl⟩

/-- The state that publishes one instance more. -/
def publishing (state : ExecutionState) (c : ChannelId) (i : InstanceId) : ExecutionState :=
  { state with published := state.published.insert c i }

theorem get?_publishing (state : ExecutionState) (c d : ChannelId) (i : InstanceId) :
    (publishing state c i).get? d = if d = c then some i else state.get? d := by
  change (state.published.insert c i)[d]? = if d = c then some i else state.published[d]?
  rw [Std.TreeMap.getElem?_insert]
  by_cases h : d = c
  · simp [h]
  · rw [if_neg h, if_neg fun he => h (Nat.compare_eq_eq.mp he).symm]

/-- The steps of a registration: a reference is obtained, the instance is entered, and the one that
it replaces is released. -/
theorem register_eq (i : InstanceId) : register i = (do
    onLedger (Ledger.obtain i)
    let s ← get
    set ({ s with state := publishing s.state (s.ledger.get i).channel i } : Store)
    match s.state.get? (s.ledger.get i).channel with
    | some previous => do
      let _ ← onLedger (Ledger.release previous)
    | none => pure ()) := rfl

/-- What a registration does is what obtaining a reference does, and then releasing the one on the
instance that is replaced, if there is one. -/
theorem register_of {R : Ledger → Prop} {Q : Store → Prop} {E : SchedulingError → Store → Prop}
    (hobtain : Ends (Ledger.obtain i) st.ledger
      (fun _ l => R l ∧ (l.get i).channel = (st.ledger.get i).channel)
      fun e l => E e { st with ledger := l })
    (hfirst : ∀ l, R l → st.state.get? (st.ledger.get i).channel = none →
      Q ⟨l, publishing st.state (st.ledger.get i).channel i⟩)
    (hnext : ∀ l q, R l → st.state.get? (st.ledger.get i).channel = some q →
      Ends (Ledger.release q) l
        (fun _ l => Q ⟨l, publishing st.state (st.ledger.get i).channel i⟩)
        fun e l => E e ⟨l, publishing st.state (st.ledger.get i).channel i⟩) :
    Ends (register i) st (fun _ st' => Q st') E := by
  rw [register_eq]
  refine Ends.bind ((onLedger_ends hobtain).mono (fun _ _ h => h) ?_) ?_
  · rintro _ _ ⟨l, he, rfl⟩
    exact he
  rintro _ _ ⟨l, ⟨hl, hchannel⟩, rfl⟩
  refine Ends.bind (R := fun a s' => a = { st with ledger := l } ∧ s' = { st with ledger := l })
    ⟨rfl, rfl⟩ ?_
  rintro _ _ ⟨rfl, rfl⟩
  have hset : ∀ E, Ends (set (⟨l, publishing st.state (l.get i).channel i⟩ : Store) : StoreM PUnit)
      { st with ledger := l } (fun _ s' => s' = ⟨l, publishing st.state (l.get i).channel i⟩) E :=
    fun _ => rfl
  refine Ends.bind (hset _) ?_
  rintro _ _ rfl
  simp only [hchannel]
  cases hprev : st.state.get? (st.ledger.get i).channel with
  | none => exact Ends.pure (hfirst l hl hprev)
  | some q =>
    refine Ends.bind ((onLedger_ends (hnext l q hl hprev)).mono (fun _ _ h => h) ?_) ?_
    · rintro _ _ ⟨_, he, rfl⟩
      exact he
    · rintro _ _ ⟨_, hq, rfl⟩
      exact Ends.pure hq

/-- A registration that succeeds. -/
structure Registers (st : Store) (i : InstanceId) (st' : Store) : Prop where
  later : st.ledger.Later st'.ledger
  state : st'.state = publishing st.state (st.ledger.get i).channel i
  references : ∀ j, (st'.ledger.get j).references = (st.ledger.get j).references +
    (if i = j then 1 else 0) - if st.state.get? (st.ledger.get i).channel = some j then 1 else 0

theorem Registers.get? {st' : Store} (h : Registers st i st') (d : ChannelId) :
    st'.state.get? d = if d = (st.ledger.get i).channel then some i else st.state.get? d := by
  rw [h.state]
  exact get?_publishing _ _ d i

/-- Registering an instance fails if it is disposed, and else only if the instance that it replaces
cannot be released. -/
theorem register_ends : Ends (register i) st (fun _ st' => Registers st i st') fun e st' =>
    st.ledger.Later st'.ledger ∧
      (∀ c j, st'.state.get? c = some j →
        st.state.get? c = some j ∨ j = i ∧ (st.ledger.get i).channel = c) ∧
      ((st.ledger.get i).references = 0 ∨ (∃ c, e = .doubleRelease c) ∧
        ∃ q, st.state.get? (st.ledger.get i).channel = some q ∧
          (st.ledger.get q).references = 0) := by
  refine register_of (R := fun l => st.ledger.Later l ∧ ∀ j, (l.get j).references =
    (st.ledger.get j).references + if i = j then 1 else 0) ?_ ?_ ?_
  · refine Ledger.obtain_ends.mono (fun _ l ⟨hri, hl⟩ => ?_) ?_
    · exact ⟨hl, hl.1.channel i (Ledger.lt_size_of_references hri)⟩
    · rintro _ _ ⟨rfl, h0, rfl⟩
      exact ⟨Ledger.Later.refl _, fun _ _ h => Or.inl h, Or.inl h0⟩
  · rintro l ⟨hl, hr⟩ hnone
    refine ⟨hl, rfl, fun j => ?_⟩
    rw [hr j, hnone]
    simp
  · rintro l q ⟨hl, hr⟩ hq
    refine Ledger.release_ends.mono ?_ ?_
    · rintro _ l' ⟨hl', hr'⟩
      refine ⟨hl.trans hl', rfl, fun j => ?_⟩
      rw [hr' j, hr j, hq]
      simp
    · rintro _ _ ⟨rfl, h0, rfl⟩
      refine ⟨hl, fun c j hj => ?_, Or.inr ⟨⟨_, rfl⟩, q, hq, ?_⟩⟩
      · rw [get?_publishing] at hj
        split at hj
        · rename_i hc
          exact Or.inr ⟨(Option.some.inj hj).symm, hc.symm⟩
        · exact Or.inl hj
      · rw [hr] at h0
        exact (Nat.add_eq_zero_iff.mp h0).1

/-- Registering a live instance keeps the accounts. -/
theorem Registers.accounted {st' : Store} (h : Accounted st.ledger st.state extra held)
    (hi : (st.ledger.get i).references ≠ 0) (hr : Registers st i st') :
    Accounted st'.ledger st'.state extra held := by
  rw [hr.state]
  have hget := get?_publishing st.state (st.ledger.get i).channel
  refine Accounted.of_later (l := st.ledger) (fun d j hj => ?_) hr.later fun j => ?_
  · rw [hget] at hj
    split at hj
    · rename_i hd
      obtain rfl : i = j := Option.some.inj hj
      exact ⟨hd.symm, Ledger.lt_size_of_references hi⟩
    · exact h.known hj
  · have hb := h.balanced j
    unfold ExecutionState.holds at hb ⊢
    simp only [hr.references j, hget] at hb ⊢
    by_cases hij : i = j
    · subst hij
      simp only [if_true] at hb ⊢
      split at hb
      · rename_i hj
        rw [if_pos hj]
        omega
      · rename_i hj
        rw [if_neg hj]
        omega
    · by_cases hch : (st.ledger.get j).channel = (st.ledger.get i).channel
      · rw [hch] at hb ⊢
        simp only [if_true, Option.some.injEq, hij, if_false]
        by_cases hj : st.state.get? (st.ledger.get i).channel = some j
        · simp only [hj, if_true] at hb ⊢
          omega
        · simp only [hj, if_false] at hb ⊢
          omega
      · -- an instance of another channel is not the one that is replaced
        have hne : st.state.get? (st.ledger.get i).channel ≠ some j := fun hj =>
          hch (h.keyed _ j hj)
        simp only [hch, hij, hne, if_false]
        omega

/-- Publishing a live instance. -/
theorem register_accounted (h : Accounted st.ledger st.state extra held)
    (hi : (st.ledger.get i).references ≠ 0) :
    Succeeds (register i) st fun _ st' => Registers st i st' ∧
      Accounted st'.ledger st'.state extra held := by
  refine (register_ends.succeeds ?_).mono fun _ _ hr => ⟨hr, hr.accounted h hi⟩
  rintro _ _ ⟨-, -, h0 | ⟨-, q, hq, h0⟩⟩
  · exact hi h0
  · exact h.references hq h0

/-- Publishing instances that are held. -/
theorem registerEach_accounted : ∀ {is : List InstanceId} {st : Store}, (∀ i ∈ is, i ∈ held) →
    Accounted st.ledger st.state extra held → Succeeds (registerEach is) st fun _ st' =>
      st.ledger.Later st'.ledger ∧ Accounted st'.ledger st'.state extra held
  | [], _, _, h => Succeeds.pure ⟨Ledger.Later.refl _, h⟩
  | i :: is, st, hheld, h => by
    unfold registerEach
    have hi := h.balanced.references_of_mem (hheld i List.mem_cons_self)
    refine Succeeds.bind (register_accounted h hi) ?_
    rintro _ st₁ ⟨hr, h₁⟩
    refine (registerEach_accounted (fun j hj => hheld j (List.mem_cons_of_mem _ hj)) h₁).mono ?_
    exact fun _ _ ⟨hl, h₂⟩ => ⟨hr.later.trans hl, h₂⟩

/-- Publishing instances of different channels. If this fails although they are live and none of
them was published before, then an instance that is replaced cannot be released. -/
theorem registerEach_ends : ∀ {is : List InstanceId} {st : Store},
    (∀ i ∈ is, i < st.ledger.cells.size) → (is.map fun i => (st.ledger.get i).channel).Nodup →
    Ends (registerEach is) st
      (fun _ st' => st.ledger.Later st'.ledger ∧
        (∀ i ∈ is, st'.state.get? (st.ledger.get i).channel = some i) ∧
        ∀ d, d ∉ is.map (fun i => (st.ledger.get i).channel) → st'.state.get? d = st.state.get? d)
      fun e st' => st.ledger.Later st'.ledger ∧
        (∀ c j, st'.state.get? c = some j →
          st.state.get? c = some j ∨ j ∈ is ∧ (st.ledger.get j).channel = c) ∧
        ((∀ i ∈ is, (st.ledger.get i).references ≠ 0 ∧ ∀ c, st.state.get? c ≠ some i) →
          ∃ c, e = .doubleRelease c)
  | [], st, _, _ => Ends.pure ⟨Ledger.Later.refl _, by simp, fun _ _ => rfl⟩
  | i :: is, st, hknown, hn => by
    obtain ⟨hnot, hn⟩ := List.nodup_cons.mp hn
    unfold registerEach
    refine Ends.bind (register_ends.mono (fun _ _ h => h) ?_) ?_
    · rintro e st₁ ⟨hl₁, hold, he⟩
      refine ⟨hl₁, fun c j hj => (hold c j hj).imp_right ?_, fun hlive => ?_⟩
      · rintro ⟨rfl, hc⟩
        exact ⟨List.mem_cons_self, hc⟩
      exact (he.resolve_left (hlive i List.mem_cons_self).1).1
    intro _ st₁ h₁
    have hl₁ := h₁.later
    have hchannel : ∀ j ∈ is, (st₁.ledger.get j).channel = (st.ledger.get j).channel :=
      fun j hj => hl₁.channel j (hknown j (List.mem_cons_of_mem _ hj))
    have hmap : is.map (fun j => (st₁.ledger.get j).channel) =
        is.map fun j => (st.ledger.get j).channel := List.map_congr_left hchannel
    refine (registerEach_ends (fun j hj => Nat.lt_of_lt_of_le
      (hknown j (List.mem_cons_of_mem _ hj)) hl₁.size) (hmap ▸ hn)).mono ?_ ?_
    · rintro _ st₂ ⟨hl₂, hin, hout⟩
      rw [hmap] at hout
      refine ⟨hl₁.trans hl₂, fun j hj => ?_, fun d hd => ?_⟩
      · rcases List.mem_cons.mp hj with rfl | hj
        · rw [hout _ hnot, h₁.get?, if_pos rfl]
        · rw [← hchannel j hj]
          exact hin j hj
      · rw [List.map_cons, List.mem_cons, not_or] at hd
        rw [hout d hd.2, h₁.get?, if_neg hd.1]
    · rintro e st₂ ⟨hl₂, hold, he⟩
      refine ⟨hl₁.trans hl₂, fun c j hj => ?_, fun hlive => he fun j hj => ?_⟩
      · rcases hold c j hj with hj | ⟨hj, hc⟩
        · rw [h₁.get?] at hj
          split at hj
          · rename_i hc
            obtain rfl := Option.some.inj hj
            exact Or.inr ⟨List.mem_cons_self, hc.symm⟩
          · exact Or.inl hj
        · exact Or.inr ⟨List.mem_cons_of_mem _ hj, hchannel j hj ▸ hc⟩
      · -- neither replaced nor published by the first registration
        obtain ⟨hr, hfree⟩ := hlive j (List.mem_cons_of_mem _ hj)
        have hne : i ≠ j := fun he => hnot (he ▸ List.mem_map_of_mem hj)
        refine ⟨?_, fun c hc => ?_⟩
        · rw [h₁.references, if_neg hne, if_neg (hfree _)]
          exact hr
        · rw [h₁.get?] at hc
          split at hc
          · exact hne (Option.some.inj hc)
          · exact hfree c hc

end Store

/-! ## The publication -/

namespace Machine

variable {ω : Type} {m : Machine ω} {is : List InstanceId} {extra : InstanceId → Nat}

theorem onStore_spec {α : Type} {x : StoreM α} {Q : α → Store → Prop}
    (h : Succeeds x ⟨m.ledger, m.state⟩ Q) : Succeeds (onStore x) m fun a m' =>
      ∃ st, Q a st ∧ m' = { m with ledger := st.ledger, state := st.state } := by
  obtain ⟨a, st, hx, hQ⟩ := h
  refine ⟨a, { m with ledger := st.ledger, state := st.state }, ?_, st, hQ, rfl⟩
  unfold onStore
  simp only [hx]

theorem onStore_ends {α : Type} {x : StoreM α} {Q : α → Store → Prop}
    {E : SchedulingError → Store → Prop} (h : Ends x ⟨m.ledger, m.state⟩ Q E) :
    Ends (onStore x) m
      (fun a m' => ∃ st, Q a st ∧ m' = { m with ledger := st.ledger, state := st.state })
      fun e m' => ∃ e' st, E e' st ∧ e = .scheduling e' ∧
        m' = { m with ledger := st.ledger, state := st.state } := by
  unfold Ends at h ⊢
  unfold onStore
  cases hx : x ⟨m.ledger, m.state⟩ <;> simp only [hx] at h ⊢
  · exact ⟨_, h, rfl⟩
  · exact ⟨_, _, h, rfl, rfl⟩

theorem emit_spec {e : ExecutionEvent} : Succeeds (emit e) m fun _ m' =>
    m' = { m with events := m.events.push e } := ⟨(), _, rfl, rfl⟩

theorem record_spec {c : ChannelId} {n : Nat} :
    Succeeds (modify fun m => { m with state := m.state.recordCardinality c n } : MachineM ω Unit) m
      fun _ m' => m' = { m with state := m.state.recordCardinality c n } := ⟨(), _, rfl, rfl⟩

/-- Two machines that differ in measurements and events only. -/
structure SameButMeasures (m m' : Machine ω) : Prop where
  ledger : m'.ledger = m.ledger
  memory : m'.memory = m.memory
  get? : ∀ c, m'.state.get? c = m.state.get? c

theorem SameButMeasures.refl (m : Machine ω) : SameButMeasures m m := ⟨rfl, rfl, fun _ => rfl⟩

theorem recordCardinalities_spec : ∀ {is : List InstanceId} {m : Machine ω},
    Succeeds (recordCardinalities is) m fun _ m' => SameButMeasures m m'
  | [], m => Succeeds.pure (SameButMeasures.refl m)
  | i :: is, m => by
    unfold recordCardinalities
    refine Succeeds.bind Succeeds.get ?_
    rintro _ _ ⟨rfl, rfl⟩
    simp only
    split
    · refine Succeeds.bind record_spec ?_
      rintro _ _ rfl
      refine Succeeds.bind emit_spec ?_
      rintro _ _ rfl
      refine recordCardinalities_spec.mono fun _ m' h => ?_
      exact ⟨h.ledger, h.memory, h.get?⟩
    · exact recordCardinalities_spec

/-- What a publication does to a machine. -/
structure Publication (p : Plan) (m : Machine ω) (is : List InstanceId) (m' : Machine ω) :
    Prop where
  later : m.ledger.Later m'.ledger
  tidy : Tidy m'.ledger m'.state is
  memory : m'.memory = m.memory
  outward : ∀ i ∈ is, p.isOutward (m.ledger.get i).channel = true →
    m'.state.get? (m.ledger.get i).channel = some i
  others : ∀ c, ¬ (c ∈ is.map (fun i => (m.ledger.get i).channel) ∧ p.isOutward c = true) →
    m'.state.get? c = m.state.get? c

/-- What a publication that succeeds makes of the state: it is overridden by what is to be
published. -/
structure Overrides (p : Plan) (m : Machine ω) (is : List InstanceId) (m' : Machine ω) : Prop where
  later : m.ledger.Later m'.ledger
  memory : m'.memory = m.memory
  outward : ∀ i ∈ is, p.isOutward (m.ledger.get i).channel = true →
    m'.state.get? (m.ledger.get i).channel = some i
  others : ∀ c, ¬ (c ∈ is.map (fun i => (m.ledger.get i).channel) ∧ p.isOutward c = true) →
    m'.state.get? c = m.state.get? c

theorem SameButMeasures.overrides {p : Plan} {m₁ m₂ : Machine ω} (h : SameButMeasures m₁ m₂)
    (h' : Overrides p m is m₁) : Overrides p m is m₂ :=
  ⟨h.ledger ▸ h'.later, h.memory.trans h'.memory, fun i hi hx => (h.get? _).trans (h'.outward i hi hx),
    fun c hc => (h.get? c).trans (h'.others c hc)⟩

/-- A publication that succeeds overrides the state by what is to be published. One that fails
leaves it alone, unless an instance that is replaced cannot be released. -/
theorem publish_ends {p : Plan} {config : ExecutorConfig} {s : StageId}
    (hknown : ∀ i ∈ is, i < m.ledger.cells.size)
    (hn : (is.map fun i => (m.ledger.get i).channel).Nodup) :
    Ends (publish p config s is) m (fun _ m' => Overrides p m is m') fun e m' =>
      e.IsOfStage ∧ m.ledger.Later m'.ledger ∧ m'.memory = m.memory ∧
        (∀ c j, m'.state.get? c = some j →
          m.state.get? c = some j ∨ j ∈ is ∧ (m.ledger.get j).channel = c) ∧
        (m'.state = m.state ∨
          ((∀ i ∈ is, ∀ c, m.state.get? c ≠ some i) → ∃ c, e = .scheduling (.doubleRelease c))) := by
  unfold publish
  refine Ends.bind Succeeds.get.ends ?_
  rintro _ _ ⟨rfl, rfl⟩
  simp only
  cases hfind : (is.filter fun i => p.isOutward (m.ledger.get i).channel).find?
      fun i => (m.ledger.get i).isDisposed with
  | some i =>
    refine Ends.bind (R := fun _ _ => False) (Ends.throw ?_) nofun
    exact ⟨trivial, Ledger.Later.refl _, rfl, fun _ _ h => Or.inl h, Or.inl rfl⟩
  | none =>
    have hsub : ∀ i ∈ is.filter (fun i => p.isOutward (m.ledger.get i).channel), i ∈ is :=
      fun i hi => (List.mem_filter.mp hi).1
    have hlive : ∀ i ∈ is.filter (fun i => p.isOutward (m.ledger.get i).channel),
        (m.ledger.get i).references ≠ 0 := fun i hi => by
      have := List.find?_eq_none.mp hfind i hi
      unfold Instance.isDisposed at this
      simpa using this
    refine Ends.bind ((onStore_ends (Store.registerEach_ends (fun i hi => hknown i (hsub i hi))
      (hn.sublist (List.filter_sublist.map _)))).mono (fun _ _ h => h) ?_) ?_
    · rintro _ _ ⟨e, st, ⟨hl, hold, he⟩, rfl, rfl⟩
      refine ⟨trivial, hl, rfl, fun c j hj => (hold c j hj).imp_right fun h => ⟨hsub j h.1, h.2⟩,
        Or.inr fun hfree => ?_⟩
      obtain ⟨c, rfl⟩ := he fun i hi => ⟨hlive i hi, hfree i (hsub i hi)⟩
      exact ⟨c, rfl⟩
    · rintro _ _ ⟨st, ⟨hl, hin, hout⟩, rfl⟩
      have hdone : Overrides p m is { m with ledger := st.ledger, state := st.state } := by
        refine ⟨hl, rfl, fun i hi hx => hin i (List.mem_filter.mpr ⟨hi, hx⟩), fun c hc => ?_⟩
        refine hout c fun hmem => hc ?_
        obtain ⟨i, hi, rfl⟩ := List.mem_map.mp hmem
        obtain ⟨hi, hx⟩ := List.mem_filter.mp hi
        exact ⟨List.mem_map.mpr ⟨i, hi, rfl⟩, hx⟩
      split
      · exact (recordCardinalities_spec.mono fun _ _ hm => hm.overrides hdone).ends
      · exact Ends.pure hdone

/-- Publishing keeps the accounts of instances that are held. -/
theorem publish_accounted (p : Plan) (config : ExecutorConfig) (s : StageId)
    {held : List InstanceId} (hheld : ∀ i ∈ is, i ∈ held)
    (h : Accounted m.ledger m.state extra held) : Succeeds (publish p config s is) m
      fun _ m' => m.ledger.Later m'.ledger ∧ Accounted m'.ledger m'.state extra held := by
  unfold publish
  refine Succeeds.bind Succeeds.get ?_
  rintro _ _ ⟨rfl, rfl⟩
  have hsub : ∀ i ∈ is.filter (fun i => p.isOutward (m.ledger.get i).channel), i ∈ is :=
    fun i hi => (List.mem_filter.mp hi).1
  have hlive : ((is.filter fun i => p.isOutward (m.ledger.get i).channel).find?
      fun i => (m.ledger.get i).isDisposed) = none := by
    refine List.find?_eq_none.mpr ?_
    intro i hi
    have hr := h.balanced.references_of_mem (hheld i (hsub i hi))
    unfold Instance.isDisposed
    simpa using hr
  simp only [hlive]
  refine Succeeds.bind (onStore_spec (Store.registerEach_accounted
    (fun i hi => hheld i (hsub i hi)) h)) ?_
  rintro _ _ ⟨st, ⟨hl, hst⟩, rfl⟩
  split
  · refine recordCardinalities_spec.mono fun _ m' hm => ?_
    rw [hm.ledger]
    exact ⟨hl, hst.congr hm.get?⟩
  · exact Succeeds.pure ⟨hl, hst⟩

/-- Publishing held instances of different channels. -/
theorem publish_spec {p : Plan} {config : ExecutorConfig} {s : StageId}
    (h : Tidy m.ledger m.state is) (hn : (is.map fun i => (m.ledger.get i).channel).Nodup) :
    Succeeds (publish p config s is) m fun _ m' => Publication p m is m' := by
  obtain ⟨extra, ha⟩ := tidy_iff.mp h
  have hknown : ∀ i ∈ is, i < m.ledger.cells.size := fun i hi =>
    Ledger.lt_size_of_references (ha.balanced.references_of_mem hi)
  refine ((publish_accounted p config s (fun _ hi => hi) ha).and_ends (publish_ends hknown hn)).mono ?_
  rintro _ m' ⟨⟨-, ha'⟩, ho⟩
  exact ⟨ho.later, tidy_iff.mpr ⟨extra, ha'⟩, ho.memory, ho.outward, ho.others⟩

end Machine

/-! ## The release -/

/-- The references that a stage execution holds, one for each occurrence. -/
def StageRun.held (r : StageRun) : List InstanceId :=
  r.activators.flatMap Activator.bound ++ r.instances

/-- Giving back is one release after the other, activator by activator. -/
theorem StageRun.releaseAll_eq (r : StageRun) : r.releaseAll =
    attemptAll ((r.activators.map Activator.bound ++ r.instances.map fun i => [i]).map
      Ledger.releaseEach) := by
  unfold releaseAll
  rw [List.map_append, List.map_map, List.map_map]
  rfl

theorem StageRun.flatten_held (r : StageRun) :
    (r.activators.map Activator.bound ++ r.instances.map fun i => [i]).flatten = r.held := by
  unfold StageRun.held
  rw [List.flatten_append, ← List.flatMap_def, ← List.flatMap_def, List.flatMap_singleton']

section Release

variable {own : InstanceId → Nat} {held : List InstanceId} {l : Ledger} {r : StageRun}

theorem attemptAll_cons (x : LedgerM Unit) (xs : List (LedgerM Unit)) (l : Ledger) :
    attemptAll (x :: xs) l = match x l with
      | .ok _ l => attemptAll xs l
      | .error e l =>
        match attemptAll xs l with
        | .ok _ l => .error e l
        | .error _ l => .error e l := rfl

theorem attemptAll_balanced : ∀ {iss : List (List InstanceId)} {l : Ledger},
    l.Balanced own (iss.flatten ++ held) → Succeeds (attemptAll (iss.map Ledger.releaseEach)) l
      fun _ l' => l.Later l' ∧ l'.Balanced own held
  | [], l, h => Succeeds.pure ⟨Ledger.Later.refl l, h⟩
  | is :: iss, l, h => by
    have h' : l.Balanced own (is ++ (iss.flatten ++ held)) := by
      rwa [List.flatten_cons, List.append_assoc] at h
    obtain ⟨_, l₁, hx, hl₁, h₁⟩ := h'.releaseEach
    obtain ⟨_, l₂, hxs, hl₂, h₂⟩ := attemptAll_balanced h₁
    refine ⟨(), l₂, ?_, hl₁.trans hl₂, h₂⟩
    rw [List.map_cons, attemptAll_cons, hx]
    exact hxs

/-- All computations are done in any case, and the failure that counts is that of a release. -/
theorem attemptAll_ends : ∀ {iss : List (List InstanceId)} {l : Ledger},
    Ends (attemptAll (iss.map Ledger.releaseEach)) l (fun _ l' => l.Later l')
      fun e l' => l.Later l' ∧ ∃ c, e = .doubleRelease c
  | [], l => Ends.pure (Ledger.Later.refl l)
  | is :: iss, l => by
    have hfirst := @Ledger.releaseEach_ends is l
    unfold Ends at hfirst ⊢
    rw [List.map_cons, attemptAll_cons]
    cases hx : Ledger.releaseEach is l with
    | ok _ l₁ =>
      simp only [hx] at hfirst
      exact attemptAll_ends.mono (fun _ _ hl => hfirst.trans hl) fun _ _ ⟨hl, hc⟩ =>
        ⟨hfirst.trans hl, hc⟩
    | error e l₁ =>
      simp only [hx] at hfirst
      have hrest := @attemptAll_ends iss l₁
      unfold Ends at hrest
      cases hxs : attemptAll (iss.map Ledger.releaseEach) l₁ <;> simp only [hxs] at hrest ⊢
      · exact ⟨hfirst.1.trans hrest, hfirst.2⟩
      · exact ⟨hfirst.1.trans hrest.1, hfirst.2⟩

/-- A stage execution that holds what it is counted for gives everything back. -/
theorem releaseAll_balanced (h : l.Balanced own r.held) :
    Succeeds r.releaseAll l fun _ l' => l.Later l' ∧ l'.Balanced own [] := by
  rw [r.releaseAll_eq]
  refine attemptAll_balanced ?_
  rwa [r.flatten_held, List.append_nil]

theorem releaseAll_ends : Ends r.releaseAll l (fun _ l' => l.Later l')
    fun e l' => l.Later l' ∧ ∃ c, e = .doubleRelease c := by
  rw [r.releaseAll_eq]
  exact attemptAll_ends

/-- A stage execution without activators gives back its references on what it produced. -/
theorem releaseAll_spec (hr : r.activators = []) (h : l.Covers own r.instances) :
    Succeeds r.releaseAll l fun _ l' => l.Later l' ∧ l'.Covers own [] := by
  obtain ⟨_, hle, hb⟩ := Ledger.covers_iff.mp h
  have hheld : r.held = r.instances := by
    unfold StageRun.held
    rw [hr]
    rfl
  exact (releaseAll_balanced (hheld ▸ hb)).mono fun _ _ ⟨hl, hb'⟩ => ⟨hl, hb'.covers hle⟩

end Release

end Dataflow
