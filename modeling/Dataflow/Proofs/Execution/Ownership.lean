import Dataflow.Proofs.Execution.References

/-!
# Who holds the instances

An execution state and other holders share instances. Everybody may obtain references and give back
those that he has, and any instance may be registered, whoever holds it (`Request`). Whatever comes
of it, an instance has the references that the holders have and one more if the state publishes it.

What is held is a list of holders with instances, each as often as it is held, and beside it the state
holds one reference on whatever it publishes. A call changes the references on an instance and what is
held of it together, and one that is refused changes neither.

* `register_ends_accounted`: only a disposed instance cannot be registered.
* `release_accounted`: the state withdraws the instance of a channel.
* `accounted_handle`: each call keeps the accounts.
* **`handleAll_owned`**: the references after any calls, and what the state does then.

Registering an instance takes a reference for the state first and gives back that of the one before
then, so it cannot dispose of an instance that replaces itself. Withdrawing everything gives the
references back in no particular order; the equation makes all orders succeed, since the state has a
reference of its own on each instance it publishes. Holders give back no more than they have; with
others there would be no equation.
-/

namespace Dataflow

/-! ## The calls of a state -/

namespace Store

variable {st : Store} {extra : InstanceId → Nat} {held : List InstanceId}

/-- With the accounts in order only a disposed instance cannot be registered, and then nothing is
changed. -/
theorem register_ends_accounted (h : Accounted st.ledger st.state extra held) (i : InstanceId) :
    Ends (register i) st (fun _ st' => Accounted st'.ledger st'.state extra held)
      fun e st' => st' = st ∧ e = .useAfterRelease (st.ledger.get i).channel := by
  by_cases hi : (st.ledger.get i).references = 0
  · refine (register_of (R := fun _ => False) (Q := fun _ => False)
      (Ledger.obtain_ends.mono (fun _ _ hok => absurd hi hok.1) ?_) (fun _ h => h.elim)
      fun _ _ h => h.elim).mono (fun _ _ h => h.elim) fun _ _ h => h
    rintro _ _ ⟨rfl, -, rfl⟩
    exact ⟨rfl, rfl⟩
  · exact ((register_accounted h hi).mono fun _ _ hr => hr.2).ends

/-- A reference is added to those that are held, unless it is refused. -/
theorem obtain_accounted (h : Accounted st.ledger st.state extra held) (i : InstanceId) :
    Ends (onLedger (Ledger.obtain i)) st
      (fun _ st' => Accounted st'.ledger st'.state extra (i :: held)) fun _ st' => st' = st := by
  by_cases hi : (st.ledger.get i).references = 0
  · refine (onLedger_ends Ledger.obtain_ends).mono ?_ ?_
    · rintro _ _ ⟨_, ⟨hne, -⟩, rfl⟩
      exact absurd hi hne
    · rintro _ _ ⟨_, ⟨rfl, -⟩, rfl⟩
      rfl
  · refine ((onLedger_spec (h.balanced.obtain hi)).mono ?_).ends
    rintro _ _ ⟨l, ⟨hl, hb⟩, rfl⟩
    exact h.later hl hb

/-- A reference that is held can be given back. -/
theorem giveBack_accounted {i : InstanceId} (h : Accounted st.ledger st.state extra (i :: held)) :
    Succeeds (onLedger (Ledger.release i)) st
      fun _ st' => Accounted st'.ledger st'.state extra held := by
  refine (onLedger_spec h.balanced.release).mono ?_
  rintro _ _ ⟨l, ⟨hl, hb⟩, rfl⟩
  exact h.later hl hb

/-- The state without a channel. -/
def withdrawing (state : ExecutionState) (c : ChannelId) : ExecutionState :=
  { state with published := state.published.erase c }

theorem get?_withdrawing (state : ExecutionState) (c d : ChannelId) :
    (withdrawing state c).get? d = if d = c then none else state.get? d := by
  change (state.published.erase c)[d]? = if d = c then none else state.published[d]?
  rw [Std.TreeMap.getElem?_erase]
  by_cases h : d = c
  · simp [h]
  · rw [if_neg h, if_neg fun he => h (Nat.compare_eq_eq.mp he).symm]

/-- With the instance of a channel goes the reference on it, and no other. -/
theorem holds_withdrawing {l : Ledger} {state : ExecutionState} {c : ChannelId} {i : InstanceId}
    (hkeyed : ∀ c i, state.get? c = some i → (l.get i).channel = c) (hi : state.get? c = some i)
    (j : InstanceId) :
    state.holds l j = (withdrawing state c).holds l j + if i = j then 1 else 0 := by
  unfold ExecutionState.holds
  rw [get?_withdrawing]
  by_cases hc : (l.get j).channel = c
  · simp [hc, hi]
  · have hij : i ≠ j := fun h => hc (h ▸ hkeyed c i hi)
    simp [hc, hij]

/-- **Withdrawing a channel cannot fail**: it answers whether there was an instance, which is gone
afterwards, and leaves the other channels alone. -/
theorem release_accounted (h : Accounted st.ledger st.state extra held) (c : ChannelId) :
    Succeeds (release c) st fun existed st' => existed = (st.state.get? c).isSome ∧
      (∀ d, st'.state.get? d = if d = c then none else st.state.get? d) ∧
      Accounted st'.ledger st'.state extra held := by
  unfold release
  have hget : Succeeds (get : StoreM Store) st fun a s => st = a ∧ st = s := ⟨_, _, rfl, rfl, rfl⟩
  refine Succeeds.bind hget ?_
  rintro _ _ ⟨rfl, rfl⟩
  cases hi : st.state.get? c with
  | none =>
    refine Succeeds.pure ⟨rfl, fun d => ?_, h⟩
    split
    · rename_i hd
      rw [hd, hi]
    · rfl
  | some i =>
    have hset : Succeeds (set (⟨st.ledger, withdrawing st.state c⟩ : Store) : StoreM PUnit) st
        fun _ s => s = ⟨st.ledger, withdrawing st.state c⟩ := ⟨_, _, rfl, rfl⟩
    refine Succeeds.bind hset ?_
    rintro _ _ rfl
    refine Succeeds.bind (onLedger_spec (Ledger.release_spec (h.references hi))) ?_
    rintro _ _ ⟨l, ⟨hl, hr⟩, rfl⟩
    refine Succeeds.pure ⟨rfl, get?_withdrawing st.state c, ?_⟩
    refine Accounted.of_later (l := st.ledger) (fun d j hj => ?_) hl fun j => ?_
    · rw [get?_withdrawing] at hj
      split at hj
      · exact absurd hj nofun
      · exact h.known hj
    · have hb : (st.ledger.get j).references =
          extra j + st.state.holds st.ledger j + held.count j := h.balanced j
      rw [holds_withdrawing h.keyed hi j] at hb
      change (l.get j).references =
        extra j + (withdrawing st.state c).holds st.ledger j + held.count j
      rw [hr j, hb]
      omega

end Store

/-! ## Holders -/

/-- Somebody who holds references, other than the execution state. -/
abbrev Holder := Nat

/-- A store and the references that holders have on its instances, each as often as he has it. -/
structure SharedStore where
  store : Store := {}
  held : List (Holder × InstanceId) := []

namespace SharedStore

/-- How many references the holders have on an instance. -/
def heldOn (s : SharedStore) (i : InstanceId) : Nat := (s.held.map Prod.snd).count i

theorem heldOn_le (s : SharedStore) (i : InstanceId) : s.heldOn i ≤ s.held.length :=
  List.count_le_length.trans_eq (List.length_map _)

/-- What a holder asks of an instance, or somebody of the state. -/
inductive Request where
  /-- A new instance, whose first reference the holder has. -/
  | create (h : Holder) (channel : ChannelId) (producer : TaskId) (payload : Payload)
      (instrumented : Bool)
  | obtain (h : Holder) (i : InstanceId)
  | giveBack (h : Holder) (i : InstanceId)
  | register (i : InstanceId)
  | release (c : ChannelId)
  | releaseAll
  | recordCardinality (c : ChannelId) (n : Nat)
  deriving DecidableEq, Repr

/-- The store behind a call, whether it succeeded or not. -/
def after {α : Type} (x : StoreM α) (st : Store) : Store :=
  match x st with
  | .ok _ st' | .error _ st' => st'

/-- Carry out a call. A holder gives back only what he has. -/
def handle (s : SharedStore) : Request → SharedStore
  | .create h c t p marked =>
    let (l, i) := s.store.ledger.create (.create c t p marked)
    ⟨{ s.store with ledger := l }, (h, i) :: s.held⟩
  | .obtain h i =>
    match Store.onLedger (Ledger.obtain i) s.store with
    | .ok _ st => ⟨st, (h, i) :: s.held⟩
    | .error _ st => ⟨st, s.held⟩
  | .giveBack h i =>
    if (h, i) ∈ s.held then
      match Store.onLedger (Ledger.release i) s.store with
      | .ok _ st => ⟨st, s.held.erase (h, i)⟩
      | .error _ st => ⟨st, s.held⟩
    else s
  | .register i => { s with store := after (Store.register i) s.store }
  | .release c => { s with store := after (Store.release c) s.store }
  | .releaseAll => { s with store := after Store.releaseAll s.store }
  | .recordCardinality c n =>
    { s with store := { s.store with state := s.store.state.recordCardinality c n } }

/-- The store after calls one after the other. -/
def handleAll (s : SharedStore) (requests : List Request) : SharedStore :=
  requests.foldl handle s

/-- There are no references but those of the holders and of the state. -/
def Owned (s : SharedStore) : Prop :=
  Accounted s.store.ledger s.store.state (fun _ => 0) (s.held.map Prod.snd)

variable {s : SharedStore}

theorem after_of_ends {α : Type} {x : StoreM α} {st : Store} {P : Store → Prop}
    (h : Ends x st (fun _ st' => P st') fun _ st' => P st') : P (after x st) := by
  unfold after
  cases hx : x st with
  | ok a st' => exact h.ok hx
  | error e st' => exact h.error hx

theorem accounted_handle (h : s.Owned) (request : Request) : (s.handle request).Owned := by
  cases request with
  | create holder c t p marked =>
    have hone : (Instance.create c t p marked).references = 1 := rfl
    obtain ⟨hl, -, -⟩ := Ledger.create_spec s.store.ledger _ hone
    exact h.later hl (h.balanced.create _ hone)
  | obtain holder i =>
    have hends := Store.obtain_accounted h i
    cases hx : Store.onLedger (Ledger.obtain i) s.store with
    | ok _ st =>
      simp only [handle, hx]
      exact hends.ok hx
    | error _ st =>
      obtain rfl := hends.error hx
      simp only [handle, hx]
      exact h
  | giveBack holder i =>
    by_cases hheld : (holder, i) ∈ s.held
    · have hperm := (List.perm_cons_erase hheld).map Prod.snd
      have hb : s.store.ledger.Balanced _ (i :: (s.held.erase (holder, i)).map Prod.snd) :=
        h.balanced.perm hperm.symm
      obtain ⟨_, st, hok, ha⟩ := Store.giveBack_accounted ⟨h.keyed, hb⟩
      simp only [handle, if_pos hheld, hok]
      exact ha
    · simp only [handle, if_neg hheld]
      exact h
  | register i =>
    refine after_of_ends ((Store.register_ends_accounted h i).mono (fun _ _ ha => ha) ?_)
    rintro _ _ ⟨rfl, -⟩
    exact h
  | release c => exact after_of_ends ((Store.release_accounted h c).mono fun _ _ ha => ha.2.2).ends
  | releaseAll =>
    have hall : Succeeds Store.releaseAll s.store _ := Store.releaseAll_accounted h
    refine after_of_ends (P := fun st => Accounted st.ledger st.state _ _) (hall.mono ?_).ends
    rintro _ st ⟨hempty, hr⟩
    have hnone : ∀ c, st.state.get? c = none := fun c => Std.TreeMap.getElem?_of_isEmpty hempty
    refine ⟨fun c i hi => absurd ((hnone c).symm.trans hi) nofun, fun i => ?_⟩
    have hholds : st.state.holds st.ledger i = 0 := by
      unfold ExecutionState.holds
      rw [hnone]
      rfl
    change (st.ledger.get i).references =
      0 + st.state.holds st.ledger i + (s.held.map Prod.snd).count i
    rw [hr i, hholds]
  | recordCardinality c n => exact h.congr fun _ => rfl

theorem owned_handleAll (h : s.Owned) (requests : List Request) : (s.handleAll requests).Owned := by
  induction requests generalizing s with
  | nil => exact h
  | cons request requests ih => exact ih (accounted_handle h request)

/-! ## From the beginning -/

theorem owned_empty : Owned {} := by
  have hnone : ∀ c, ({} : ExecutionState).get? c = none := fun _ => Std.TreeMap.getElem?_emptyc
  have hunknown : ∀ i, ({} : Ledger).get i = default := fun i =>
    Ledger.get_of_size_le (Nat.zero_le i)
  refine ⟨fun c i hi => absurd ((hnone c).symm.trans hi) nofun, fun i => ?_⟩
  change (({} : Ledger).get i).references =
    0 + (if ({} : ExecutionState).get? _ = some i then 1 else 0) + 0
  rw [hunknown, hnone]
  rfl

/-- **Every reference belongs to somebody**: after any calls an instance has as many references as
the holders have on it, and one more if the state publishes it for its channel. These counts fit in
64 bits unless the holders have that many references. A registration that fails changes nothing. The
state can always withdraw a channel, and all of them, in whatever order it gives back their
references; then the references of the holders are the only ones. -/
theorem handleAll_owned (requests : List Request) :
    let s := handleAll {} requests
    (∀ i, (s.store.ledger.get i).references = s.heldOn i +
        if s.store.state.get? (s.store.ledger.get i).channel = some i then 1 else 0) ∧
      (s.held.length < UInt64.size - 1 → ∀ i, (s.store.ledger.get i).references < UInt64.size) ∧
      (∀ i e st, Store.register i s.store = .error e st → st = s.store) ∧
      (∀ c, ∃ st, Store.release c s.store = .ok (s.store.state.get? c).isSome st ∧
        ∀ d, st.state.get? d = if d = c then none else s.store.state.get? d) ∧
      (∃ st, Store.releaseAll s.store = .ok () st ∧ st.state.isEmpty = true ∧
        ∀ i, (st.ledger.get i).references = s.heldOn i) ∧
      ∀ order : List InstanceId, order.Perm (s.store.state.toList.map Prod.snd) →
        ∃ l, Ledger.releaseEach order s.store.ledger = .ok () l ∧
          ∀ i, (l.get i).references = s.heldOn i := by
  intro s
  have h : s.Owned := owned_handleAll owned_empty requests
  have hcount : ∀ i, (s.store.ledger.get i).references = s.heldOn i +
      if s.store.state.get? (s.store.ledger.get i).channel = some i then 1 else 0 := fun i => by
    have hb : (s.store.ledger.get i).references =
        0 + s.store.state.holds s.store.ledger i + s.heldOn i := h.balanced i
    rw [hb, Nat.zero_add, Nat.add_comm]
    rfl
  refine ⟨hcount, fun hfew i => ?_,
    fun i e st hr => ((Store.register_ends_accounted h i).error hr).1, fun c => ?_, ?_,
    fun order hp => ?_⟩
  · have hle := s.heldOn_le i
    rw [hcount i]
    split <;> omega
  · obtain ⟨_, st, hok, rfl, hget, -⟩ := Store.release_accounted h c
    exact ⟨st, hok, hget⟩
  · obtain ⟨_, st, hok, hempty, hr⟩ := Store.releaseAll_accounted h
    exact ⟨st, hok, hempty, fun i => (hr i).trans (Nat.zero_add _)⟩
  · obtain ⟨_, l, hok, -, hb⟩ := h.releaseEach hp
    exact ⟨l, hok, fun i => (hb i).trans (Nat.zero_add _)⟩

/-- Two instances of a channel. The state publishes the first twice and then the second, whose
holders keep another reference; the first is disposed then, and cannot be registered. What the state
publishes for another channel is its own. -/
def succession : List Request :=
  [.create 0 3 0 (.number 1) false, .register 0, .register 0, .create 1 3 0 (.number 2) false,
    .obtain 2 1, .register 1, .giveBack 1 0, .giveBack 0 0, .giveBack 1 1, .recordCardinality 3 5,
    .create 0 4 0 (.text "x") true, .register 2, .giveBack 0 2]

theorem succession_owned :
    let s := handleAll {} succession
    (s.store.ledger.get 0).references = 0 ∧ (s.store.ledger.get 1).references = 2 ∧
      s.held = [(2, 1)] ∧ (s.store.ledger.get 1).references < UInt64.size ∧
      s.store.state.get? 3 = some 1 ∧
      Store.register 0 s.store = .error (.useAfterRelease 3) s.store ∧
      (∃ st, Store.releaseAll s.store = .ok () st ∧ st.state.isEmpty = true ∧
        (st.ledger.get 1).references = 1) ∧
      [2, 1].Perm (s.store.state.toList.map Prod.snd) ∧
      ∃ l, Ledger.releaseEach [2, 1] s.store.ledger = .ok () l ∧ (l.get 2).references = 0 := by
  obtain ⟨-, hfits, hregister, -, ⟨st, hok, hempty, hr⟩, hany⟩ := handleAll_owned succession
  have hrefused : ∃ st, Store.register 0 (handleAll {} succession).store =
      .error (.useAfterRelease 3) st := ⟨_, rfl⟩
  obtain ⟨st', hrefused⟩ := hrefused
  have hsame := hregister 0 _ _ hrefused
  rw [hsame] at hrefused
  have hperm : [2, 1].Perm ((handleAll {} succession).store.state.toList.map Prod.snd) :=
    List.Perm.swap 1 2 []
  obtain ⟨l, heach, hl⟩ := hany [2, 1] hperm
  have hfew : (handleAll {} succession).held.length < UInt64.size - 1 := by decide
  exact ⟨rfl, rfl, rfl, hfits hfew 1, rfl, hrefused, ⟨st, hok, hempty, hr 1⟩, hperm, l, heach, hl 2⟩

end SharedStore

end Dataflow
