import Dataflow.Proofs.Execution.Ledger

/-!
# Computations that may fail

What a computation leaves behind in either case, for operators that do whatever they like to the
instances on their inputs. A ledger only ever moves on (`Ledger.Later`): references are refused
when there are none, and what is refused changes nothing.

* `Ends`: a condition for success and one for failure; `Ends.bind_keeps` for those that are one relation.
* `ExecutionError.IsOfStage`: what a stage execution fails with.
* `Ledger.obtain_ends`, `Ledger.release_ends`, `Ledger.releaseEach_ends`: the operations on counted
  instances.
* `Ledger.later_touches`: whatever an operator does to the instances on its inputs.
-/

namespace Dataflow

/-- If a computation succeeds then `Q` holds of its answer and the state behind it, and if it fails
then `E` holds of the failure and the state. -/
def Ends {ε σ α : Type} (x : EStateM ε σ α) (s : σ) (Q : α → σ → Prop) (E : ε → σ → Prop) : Prop :=
  match x s with
  | .ok a s' => Q a s'
  | .error e s' => E e s'

section Ends

variable {ε σ α β : Type} {s : σ} {x : EStateM ε σ α} {f : α → EStateM ε σ β}
  {Q R : α → σ → Prop} {S : β → σ → Prop} {E F : ε → σ → Prop}

theorem Succeeds.ends (h : Succeeds x s Q) : Ends x s Q E := by
  obtain ⟨a, s', hx, hQ⟩ := h
  unfold Ends
  rw [hx]
  exact hQ

/-- A computation that succeeds does what it does whenever it succeeds. -/
theorem Succeeds.and_ends (h : Succeeds x s Q) (h' : Ends x s R E) :
    Succeeds x s fun a s' => Q a s' ∧ R a s' := by
  obtain ⟨a, s', hx, hQ⟩ := h
  unfold Ends at h'
  rw [hx] at h'
  exact ⟨a, s', hx, hQ, h'⟩

namespace Ends

theorem ok (h : Ends x s Q E) {a : α} {s' : σ} (hx : x s = .ok a s') : Q a s' := by
  unfold Ends at h
  rwa [hx] at h

theorem error (h : Ends x s Q E) {e : ε} {s' : σ} (hx : x s = .error e s') : E e s' := by
  unfold Ends at h
  rwa [hx] at h

/-- A computation that cannot fail succeeds. -/
theorem succeeds (h : Ends x s Q E) (hE : ∀ e s', ¬ E e s') : Succeeds x s Q := by
  unfold Ends at h
  cases hx : x s <;> simp only [hx] at h
  · exact ⟨_, _, hx, h⟩
  · exact (hE _ _ h).elim

theorem mono (h : Ends x s R F) (hQ : ∀ a s', R a s' → Q a s') (hE : ∀ e s', F e s' → E e s') :
    Ends x s Q E := by
  unfold Ends at h ⊢
  split at h
  · exact hQ _ _ h
  · exact hE _ _ h

/-- Two things that are known of the end of one computation. -/
theorem and (h : Ends x s Q E) (h' : Ends x s R F) :
    Ends x s (fun a s' => Q a s' ∧ R a s') fun e s' => E e s' ∧ F e s' := by
  unfold Ends at h h' ⊢
  cases hx : x s <;> simp only [hx] at h h' ⊢ <;> exact ⟨h, h'⟩

/-- What is known of the end of a computation, together with the end itself. -/
theorem known (h : Ends x s Q E) : Ends x s (fun a s' => x s = .ok a s' ∧ Q a s')
    fun e s' => x s = .error e s' ∧ E e s' := by
  unfold Ends at h ⊢
  cases hx : x s <;> simp only [hx] at h <;> exact ⟨rfl, h⟩

theorem pure {a : α} (h : Q a s) : Ends (Pure.pure a : EStateM ε σ α) s Q E := h

theorem throw {e : ε} (h : E e s) : Ends (MonadExceptOf.throw e : EStateM ε σ α) s Q E := h

theorem bind (hx : Ends x s R E) (hf : ∀ a s', R a s' → Ends (f a) s' S E) :
    Ends (x >>= f) s S E := by
  unfold Ends
  change match EStateM.bind x f s with
    | .ok b s' => S b s'
    | .error e s' => E e s'
  unfold EStateM.bind
  cases h : x s with
  | ok a s' => exact hf a s' (hx.ok h)
  | error e s' => exact hx.error h

/-- What two computations keep they keep one after the other, whichever of them fails. -/
theorem bind_keeps {K : σ → σ → Prop} (htrans : ∀ {s₁ s₂ s₃}, K s₁ s₂ → K s₂ s₃ → K s₁ s₃)
    (hx : Ends x s (fun _ s' => K s s') fun _ s' => K s s')
    (hf : ∀ a s', Ends (f a) s' (fun _ s'' => K s' s'') fun _ s'' => K s' s'') :
    Ends (x >>= f) s (fun _ s' => K s s') fun _ s' => K s s' :=
  hx.bind fun a s' h => (hf a s').mono (fun _ _ => htrans h) fun _ _ => htrans h

end Ends

end Ends

/-- The failures of a stage execution; the others are those of a whole plan. -/
def ExecutionError.IsOfStage : ExecutionError → Prop
  | .task .. | .scheduling _ | .illegalState _ => True
  | .stalled _ | .unfinishedLoop .. | .iterationLimit _ => False

namespace Ledger

/-! ## Counted instances -/

variable {l : Ledger} {i : InstanceId}

/-- A reference is refused on an instance that has none. -/
theorem obtain_ends : Ends (obtain i) l
    (fun _ l' => (l.get i).references ≠ 0 ∧ l.Later l' ∧
      ∀ j, (l'.get j).references = (l.get j).references + if i = j then 1 else 0)
    fun e l' => l' = l ∧ (l.get i).references = 0 ∧ e = .useAfterRelease (l.get i).channel := by
  by_cases h : (l.get i).references = 0
  · have hrefused : (l.get i).obtain = .error (.useAfterRelease (l.get i).channel) := if_pos h
    unfold Ends obtain
    rw [hrefused]
    exact ⟨rfl, h, rfl⟩
  · exact ((obtain_spec h).mono fun _ _ h' => ⟨h, h'⟩).ends

/-- Releasing fails on an instance that has no references, and in no other way. -/
theorem release_ends : Ends (release i) l
    (fun _ l' => l.Later l' ∧
      ∀ j, (l'.get j).references = (l.get j).references - if i = j then 1 else 0)
    fun e l' => l' = l ∧ (l.get i).references = 0 ∧ e = .doubleRelease (l.get i).channel := by
  by_cases h : (l.get i).references = 0
  · have hrefused : (l.get i).release = .error (.doubleRelease (l.get i).channel) := by
      unfold Instance.release
      split
      · rfl
      · rename_i h1
        exact absurd (h1.symm.trans h) (by simp)
      · rename_i h2
        exact absurd (h2.symm.trans h) (by simp)
    unfold Ends release
    rw [hrefused]
    exact ⟨rfl, h, rfl⟩
  · exact (release_spec h).ends

theorem releaseEach_ends : ∀ {is : List InstanceId} {l : Ledger}, Ends (releaseEach is) l
    (fun _ l' => l.Later l') fun e l' => l.Later l' ∧ ∃ c, e = .doubleRelease c
  | [], l => Ends.pure (Later.refl l)
  | i :: is, l => by
    refine Ends.bind (release_ends.mono (fun _ _ h => h.1) ?_) fun _ l₁ hl => ?_
    · rintro _ _ ⟨rfl, -, rfl⟩
      exact ⟨Later.refl _, _, rfl⟩
    · exact releaseEach_ends.mono (fun _ _ hl' => hl.trans hl') fun _ _ ⟨hl', hc⟩ =>
        ⟨hl.trans hl', hc⟩

/-- Whatever is done to the instance on an input. -/
theorem later_touch (l : Ledger) (inputs : List (Option InstanceId)) (t : Touch) :
    l.Later (l.touch inputs t) := by
  cases t with
  | annotate i n => exact (touch_spec l inputs (t := .annotate i n) trivial).1
  | obtain i =>
    cases hx : (inputs[i]?).join with
    | none => simp only [touch, hx, Later.refl]
    | some x =>
      simp only [touch, hx]
      split
      · exact ((obtain_ends (l := l)).ok ‹_›).2.1
      · exact ((obtain_ends (l := l)).error ‹_›).1 ▸ Later.refl l
  | release i =>
    cases hx : (inputs[i]?).join with
    | none => simp only [touch, hx, Later.refl]
    | some x =>
      simp only [touch, hx]
      split
      · exact ((release_ends (l := l)).ok ‹_›).1
      · exact ((release_ends (l := l)).error ‹_›).1 ▸ Later.refl l

theorem later_touches (inputs : List (Option InstanceId)) : ∀ (ts : List Touch) (l : Ledger),
    l.Later (ts.foldl (fun l t => l.touch inputs t) l)
  | [], l => Later.refl l
  | t :: ts, l => (later_touch l inputs t).trans (later_touches inputs ts _)

end Ledger

end Dataflow
