import Dataflow.Execution.Stage
import Mathlib.Data.List.Count
import Mathlib.Data.List.Perm.Basic

/-!
# Keeping count of references

A computation that holds references on some instances can obtain and release them without failure
as long as each instance has at least as many references as are held on it (`Ledger.Covers`). What
happens to a ledger meanwhile is limited (`Ledger.Later`): an instance keeps its channel, and as
long as it has references it keeps its data.

* `Succeeds`: a computation ends without failure, in a state that satisfies a condition.
* `Ledger.Balanced.obtain`, `Ledger.Balanced.release`, `Ledger.Balanced.create`: exact counts.
* `Ledger.Covers.releaseEach`, `Ledger.Covers.touches`.
-/

namespace Dataflow

/-! ## Computations that succeed -/

/-- A computation succeeds, and its answer and the state behind it satisfy a condition. -/
def Succeeds {ε σ α : Type} (x : EStateM ε σ α) (s : σ) (Q : α → σ → Prop) : Prop :=
  ∃ a s', x s = .ok a s' ∧ Q a s'

namespace Succeeds

variable {ε σ α β : Type} {s : σ} {x : EStateM ε σ α} {f : α → EStateM ε σ β}
  {Q R : α → σ → Prop} {S : β → σ → Prop}

theorem mono (h : Succeeds x s R) (hQ : ∀ a s', R a s' → Q a s') : Succeeds x s Q := by
  obtain ⟨a, s', hx, hR⟩ := h
  exact ⟨a, s', hx, hQ a s' hR⟩

/-- What is known of a success, together with the success itself. -/
theorem known (h : Succeeds x s Q) : Succeeds x s fun a s' => x s = .ok a s' ∧ Q a s' := by
  obtain ⟨a, s', hx, hQ⟩ := h
  exact ⟨a, s', hx, hx, hQ⟩

theorem pure {a : α} (h : Q a s) : Succeeds (Pure.pure a : EStateM ε σ α) s Q := ⟨a, s, rfl, h⟩

theorem bind (hx : Succeeds x s R) (hf : ∀ a s', R a s' → Succeeds (f a) s' S) :
    Succeeds (x >>= f) s S := by
  obtain ⟨a, s', hx, hR⟩ := hx
  obtain ⟨b, s'', hfb, hS⟩ := hf a s' hR
  refine ⟨b, s'', ?_, hS⟩
  change EStateM.bind x f s = _
  unfold EStateM.bind
  rw [hx]
  exact hfb

theorem get : Succeeds (MonadState.get : EStateM ε σ σ) s fun a s' => s = a ∧ s = s' :=
  ⟨s, s, rfl, rfl, rfl⟩

end Succeeds

namespace Ledger

/-! ## Time -/

/-- An instance carries data of a channel. -/
def Live (l : Ledger) (i : InstanceId) (c : ChannelId) (x : Payload) : Prop :=
  (l.get i).channel = c ∧ (l.get i).payload = some x

/-- What a ledger may have become. -/
structure Later (l l' : Ledger) : Prop where
  size : l.cells.size ≤ l'.cells.size
  channel : ∀ i < l.cells.size, (l'.get i).channel = (l.get i).channel
  payload : ∀ i < l.cells.size, (l'.get i).references ≠ 0 →
    (l.get i).references ≠ 0 ∧ (l'.get i).payload = (l.get i).payload

theorem Later.refl (l : Ledger) : l.Later l := ⟨Nat.le_refl _, fun _ _ => rfl, fun _ _ h => ⟨h, rfl⟩⟩

theorem Later.trans {l l' l'' : Ledger} (h : l.Later l') (h' : l'.Later l'') : l.Later l'' := by
  refine ⟨Nat.le_trans h.size h'.size, fun i hi => ?_, fun i hi hr => ?_⟩
  · rw [h'.channel i (Nat.lt_of_lt_of_le hi h.size), h.channel i hi]
  · obtain ⟨hr', hp'⟩ := h'.payload i (Nat.lt_of_lt_of_le hi h.size) hr
    obtain ⟨hr, hp⟩ := h.payload i hi hr'
    exact ⟨hr, hp'.trans hp⟩

/-- What an unknown number stands for. -/
theorem get_of_size_le {l : Ledger} {i : InstanceId} (h : l.cells.size ≤ i) : l.get i = default := by
  unfold get
  rw [Array.getD_eq_getD_getElem?, Array.getElem?_eq_none h]
  rfl

theorem lt_size_of_references {l : Ledger} {i : InstanceId} (h : (l.get i).references ≠ 0) :
    i < l.cells.size := by
  by_contra hi
  rw [get_of_size_le (Nat.le_of_not_lt hi)] at h
  exact h rfl

/-- An instance with data is known. -/
theorem Live.lt_size {l : Ledger} {i : InstanceId} {c : ChannelId} {x : Payload}
    (h : l.Live i c x) : i < l.cells.size := by
  by_contra hi
  have hp := h.2
  rw [get_of_size_le (Nat.le_of_not_lt hi)] at hp
  exact absurd hp (by simp [default])

theorem Live.later {l l' : Ledger} {i : InstanceId} {c : ChannelId} {x : Payload}
    (h : l.Live i c x) (hl : l.Later l') (hr : (l'.get i).references ≠ 0) : l'.Live i c x :=
  ⟨(hl.channel i h.lt_size).trans h.1, (hl.payload i h.lt_size hr).2.trans h.2⟩

/-! ## Single operations -/

/-- Changing a known instance in what is not its channel, and its data only with its last
reference. -/
theorem later_put {l : Ledger} {i : InstanceId} {x : Instance}
    (hc : x.channel = (l.get i).channel) (hr : (l.get i).references ≠ 0)
    (hp : x.references ≠ 0 → x.payload = (l.get i).payload) : l.Later (l.put i x) := by
  refine ⟨Nat.le_of_eq (size_put l i x).symm, fun j _ => ?_, fun j _ hj => ?_⟩
  · rw [get_put]
    split
    · rename_i h
      rw [hc, h.1]
    · rfl
  · rw [get_put] at hj ⊢
    split at hj
    · rename_i h
      rw [if_pos h, ← h.1]
      exact ⟨hr, hp hj⟩
    · rename_i h
      rw [if_neg h]
      exact ⟨hj, rfl⟩

theorem obtain_spec {l : Ledger} {i : InstanceId} (h : (l.get i).references ≠ 0) :
    Succeeds (obtain i) l fun _ l' => l.Later l' ∧
      ∀ j, (l'.get j).references = (l.get j).references + if i = j then 1 else 0 := by
  have hstep : ∃ x, (l.get i).obtain = .ok x ∧ x.channel = (l.get i).channel ∧
      x.references = (l.get i).references + 1 ∧ x.payload = (l.get i).payload :=
    ⟨_, if_neg h, rfl, rfl, rfl⟩
  obtain ⟨x, hx, hc, hr, hp⟩ := hstep
  refine ⟨(), l.put i x, ?_, later_put hc h fun _ => hp, fun j => ?_⟩
  · unfold obtain
    rw [hx]
  · rw [get_put]
    by_cases hj : i = j
    · rw [if_pos ⟨hj, lt_size_of_references h⟩, if_pos hj, hr, ← hj]
    · rw [if_neg fun h' => hj h'.1, if_neg hj, Nat.add_zero]

theorem release_spec {l : Ledger} {i : InstanceId} (h : (l.get i).references ≠ 0) :
    Succeeds (release i) l fun _ l' => l.Later l' ∧
      ∀ j, (l'.get j).references = (l.get j).references - if i = j then 1 else 0 := by
  have hlt := lt_size_of_references h
  have hstep : ∃ last x, (l.get i).release = .ok (last, x) ∧ x.channel = (l.get i).channel ∧
      x.references = (l.get i).references - 1 ∧
      (x.references ≠ 0 → x.payload = (l.get i).payload) := by
    unfold Instance.release
    match hr : (l.get i).references with
    | 0 => exact absurd hr h
    | 1 => exact ⟨_, _, rfl, rfl, rfl, fun h => absurd rfl h⟩
    | n + 2 => exact ⟨_, _, rfl, rfl, rfl, fun _ => rfl⟩
  obtain ⟨last, x, hx, hc, hr, hp⟩ := hstep
  refine ⟨last, l.put i x, ?_, later_put hc h hp, fun j => ?_⟩
  · unfold release
    rw [hx]
  · rw [get_put]
    by_cases hj : i = j
    · rw [if_pos ⟨hj, hlt⟩, if_pos hj, hr, ← hj]
    · rw [if_neg fun h' => hj h'.1, if_neg hj, Nat.sub_zero]

theorem create_spec (l : Ledger) (x : Instance) (h : x.references = 1) :
    l.Later (l.create x).1 ∧ (∀ j, ((l.create x).1.get j).references =
      (l.get j).references + if (l.create x).2 = j then 1 else 0) ∧
    (l.create x).1.get (l.create x).2 = x := by
  have hnew : (l.get l.cells.size).references = 0 := by
    by_contra hr
    exact absurd (lt_size_of_references hr) (Nat.lt_irrefl _)
  have hget := get_create l x
  have hid : (l.create x).2 = l.cells.size := rfl
  refine ⟨⟨?_, fun i hi => ?_, fun i hi hr => ?_⟩, fun j => ?_, ?_⟩
  · change l.cells.size ≤ (l.cells.push x).size
    rw [Array.size_push]
    exact Nat.le_succ _
  · rw [hget, if_neg (Nat.ne_of_lt hi)]
  · rw [hget, if_neg (Nat.ne_of_lt hi)] at hr ⊢
    exact ⟨hr, rfl⟩
  · rw [hget, hid]
    by_cases hj : j = l.cells.size
    · rw [if_pos hj, if_pos hj.symm, hj, hnew, h]
    · rw [if_neg hj, if_neg (Ne.symm hj), Nat.add_zero]
  · rw [hget, hid, if_pos rfl]

/-- Something an operator does that obtains and releases nothing. -/
def IsNote : Touch → Prop
  | .annotate _ _ => True
  | .obtain _ | .release _ => False

theorem touch_spec (l : Ledger) (inputs : List (Option InstanceId)) {t : Touch} (h : IsNote t) :
    l.Later (l.touch inputs t) ∧ ∀ j, ((l.touch inputs t).get j).references =
      (l.get j).references := by
  cases t with
  | obtain i => exact h.elim
  | release i => exact h.elim
  | annotate i n =>
    cases hi : (inputs[i]?).join with
    | none =>
      have heq : l.touch inputs (.annotate i n) = l := by
        unfold touch
        simp only [hi]
      rw [heq]
      exact ⟨Later.refl l, fun _ => rfl⟩
    | some x =>
      have hann : ((l.get x).annotate n).2.channel = (l.get x).channel ∧
          ((l.get x).annotate n).2.payload = (l.get x).payload ∧
          ((l.get x).annotate n).2.references = (l.get x).references := by
        unfold Instance.annotate
        split <;> exact ⟨rfl, rfl, rfl⟩
      have heq : l.touch inputs (.annotate i n) = l.put x ((l.get x).annotate n).2 := by
        unfold touch
        simp only [hi]
        rfl
      rw [heq]
      refine ⟨⟨Nat.le_of_eq (size_put _ _ _).symm, fun j _ => ?_, fun j _ hj => ?_⟩, fun j => ?_⟩
      · rw [get_put]
        split
        · rename_i h
          rw [hann.1, h.1]
        · rfl
      · rw [get_put] at hj ⊢
        split at hj
        · rename_i h
          rw [if_pos h, ← h.1]
          exact ⟨hann.2.2 ▸ hj, hann.2.1⟩
        · rename_i h
          rw [if_neg h]
          exact ⟨hj, rfl⟩
      · rw [get_put]
        split
        · rename_i h
          rw [hann.2.2, h.1]
        · rfl

/-! ## Held references -/

/-- Every instance has at least the references that `own` counts and one for each time that it is
in `held`. -/
def Covers (l : Ledger) (own : InstanceId → Nat) (held : List InstanceId) : Prop :=
  ∀ i, own i + held.count i ≤ (l.get i).references

/-- Every instance has exactly the references that `own` counts and one for each time that it is
in `held`. -/
def Balanced (l : Ledger) (own : InstanceId → Nat) (held : List InstanceId) : Prop :=
  ∀ i, (l.get i).references = own i + held.count i

variable {l : Ledger} {own : InstanceId → Nat} {held is : List InstanceId} {i : InstanceId}

theorem count_cons_eq {j : InstanceId} :
    (i :: held).count j = held.count j + if i = j then 1 else 0 := by
  simp only [List.count_cons, beq_iff_eq]

/-! ### To the last reference -/

theorem Balanced.covers {own' : InstanceId → Nat} (h : l.Balanced own' held)
    (hle : ∀ i, own i ≤ own' i) : l.Covers own held := fun i =>
  h i ▸ Nat.add_le_add_right (hle i) _

theorem Balanced.references_of_mem (h : l.Balanced own held) (hi : i ∈ held) :
    (l.get i).references ≠ 0 := by
  have hcount := List.count_pos_iff.mpr hi
  have := h i
  omega

theorem Balanced.references_of_own (h : l.Balanced own held) (hi : own i ≠ 0) :
    (l.get i).references ≠ 0 := by
  have := h i
  omega

theorem Balanced.perm {held' : List InstanceId} (h : l.Balanced own held)
    (hp : held'.Perm held) : l.Balanced own held' := fun i => hp.count_eq i ▸ h i

theorem Balanced.obtain (h : l.Balanced own held) (hi : (l.get i).references ≠ 0) :
    Succeeds (Ledger.obtain i) l fun _ l' => l.Later l' ∧ l'.Balanced own (i :: held) := by
  refine (obtain_spec hi).mono fun _ l' ⟨hl, hr⟩ => ⟨hl, fun j => ?_⟩
  have := h j
  rw [hr j, count_cons_eq]
  omega

theorem Balanced.release (h : l.Balanced own (i :: held)) :
    Succeeds (Ledger.release i) l fun _ l' => l.Later l' ∧ l'.Balanced own held := by
  refine (release_spec (h.references_of_mem List.mem_cons_self)).mono
    fun _ l' ⟨hl, hr⟩ => ⟨hl, fun j => ?_⟩
  have := h j
  rw [count_cons_eq] at this
  rw [hr j]
  omega

theorem Balanced.releaseEach : ∀ {is : List InstanceId} {l : Ledger}, l.Balanced own (is ++ held) →
    Succeeds (Ledger.releaseEach is) l fun _ l' => l.Later l' ∧ l'.Balanced own held
  | [], l, h => Succeeds.pure ⟨Later.refl l, h⟩
  | _ :: _, _, h => Succeeds.bind h.release fun _ _ ⟨hl, h'⟩ =>
      h'.releaseEach.mono fun _ _ ⟨hl', h''⟩ => ⟨hl.trans hl', h''⟩

theorem Balanced.create (h : l.Balanced own held) (x : Instance) (hx : x.references = 1) :
    (l.create x).1.Balanced own ((l.create x).2 :: held) := by
  intro j
  have := h j
  rw [count_cons_eq, (create_spec l x hx).2.1 j]
  omega

theorem Balanced.touches (inputs : List (Option InstanceId)) : ∀ {ts : List Touch} {l : Ledger},
    (∀ t ∈ ts, IsNote t) → l.Balanced own held →
      l.Later (ts.foldl (fun l t => l.touch inputs t) l) ∧
        (ts.foldl (fun l t => l.touch inputs t) l).Balanced own held
  | [], l, _, h => ⟨Later.refl l, h⟩
  | t :: ts, l, ht, h => by
    obtain ⟨hl, hr⟩ := touch_spec l inputs (ht t List.mem_cons_self)
    have h' : (l.touch inputs t).Balanced own held := fun j => by
      rw [hr j]
      exact h j
    obtain ⟨hl', h''⟩ := h'.touches inputs fun t' ht' =>
      ht t' (List.mem_cons_of_mem _ ht')
    exact ⟨hl.trans hl', h''⟩

/-! ### At least -/

/-- What is covered is balanced once the references beyond are counted too. -/
theorem covers_iff : l.Covers own held ↔
    ∃ own', (∀ i, own i ≤ own' i) ∧ l.Balanced own' held := by
  refine ⟨fun h => ?_, fun ⟨_, hle, h⟩ => h.covers hle⟩
  exact ⟨fun i => (l.get i).references - held.count i, fun i => Nat.le_sub_of_add_le (h i),
    fun i => (Nat.sub_add_cancel (Nat.le_of_add_left_le (h i))).symm⟩

theorem Covers.references_of_mem (h : l.Covers own held) (hi : i ∈ held) :
    (l.get i).references ≠ 0 := by
  obtain ⟨_, -, hb⟩ := covers_iff.mp h
  exact hb.references_of_mem hi

theorem Covers.references_of_own (h : l.Covers own held) (hi : own i ≠ 0) :
    (l.get i).references ≠ 0 := by
  have := h i
  omega

theorem Covers.perm {held' : List InstanceId} (h : l.Covers own held) (hp : held'.Perm held) :
    l.Covers own held' := fun i => hp.count_eq i ▸ h i

theorem Covers.releaseEach (h : l.Covers own (is ++ held)) :
    Succeeds (Ledger.releaseEach is) l fun _ l' => l.Later l' ∧ l'.Covers own held := by
  obtain ⟨_, hle, hb⟩ := covers_iff.mp h
  exact hb.releaseEach.mono fun _ _ ⟨hl, hb'⟩ => ⟨hl, hb'.covers hle⟩

theorem Covers.touches (inputs : List (Option InstanceId)) {ts : List Touch}
    (ht : ∀ t ∈ ts, IsNote t) (h : l.Covers own held) :
    l.Later (ts.foldl (fun l t => l.touch inputs t) l) ∧
      (ts.foldl (fun l t => l.touch inputs t) l).Covers own held := by
  obtain ⟨_, hle, hb⟩ := covers_iff.mp h
  obtain ⟨hl, hb'⟩ := hb.touches inputs ht
  exact ⟨hl, hb'.covers hle⟩

end Ledger

end Dataflow
