import Mathlib.Logic.Function.Iterate
import Mathlib.Tactic.Ring

/-!
# The course of a while loop

The stage executions of a while loop, counted apart from any machine. A turn says which iteration
the loop is in and the rank of the stage that is next: the source has rank 0, the head rank 1, the
segments of the body the ranks from 2 on, and the sink comes last.

Turns know nothing of machines, and so the number of stage executions is found by arithmetic: `next`
is iterated, and the iterates are known in closed form. That an execution takes the same course is
proved apart from this (`Dataflow.Proofs.Loop.Step`).

* `iterate_head`, `iterate_segments`: the turns of an iteration.
* **`iterate_end`**: a loop that converges first in iteration `n` ends after `n + 3 + n * m` stage
  executions and not before, where `m` is the number of segments.
* **`rank_of_diverging`**: a loop that does not converge never gets to the sink.
-/

namespace Dataflow

/-- Which stage of a loop is next, and in which iteration. -/
structure Turn where
  iteration : Nat
  rank : Nat
  deriving DecidableEq, Repr

namespace Turn

/-- Before anything was executed. -/
def start : Turn := ⟨0, 0⟩

/-- The turn after another one, in a loop with `m` segments: the head goes on to the sink when the
loop has converged and to the body otherwise, and the body goes back to the head. -/
def next (m : Nat) (converges : Nat → Bool) (τ : Turn) : Turn :=
  if τ.rank = 1 then if converges τ.iteration then ⟨τ.iteration, m + 2⟩ else ⟨τ.iteration, 2⟩
  else if τ.rank = m + 1 then ⟨τ.iteration + 1, 1⟩
  else ⟨τ.iteration, τ.rank + 1⟩

/-- The sink was executed. -/
def IsOver (m : Nat) (τ : Turn) : Prop := τ.rank = m + 3

section Course

variable {m : Nat} {converges : Nat → Bool} {i n r : Nat}

theorem next_converged (h : converges i = true) : next m converges ⟨i, 1⟩ = ⟨i, m + 2⟩ := by
  simp [next, h]

theorem next_iterating (h : converges i = false) : next m converges ⟨i, 1⟩ = ⟨i, 2⟩ := by
  simp [next, h]

theorem next_head : next m converges ⟨i, 1⟩ = ⟨i, if converges i = true then m + 2 else 2⟩ := by
  cases h : converges i with
  | true => exact next_converged h
  | false => exact next_iterating h

theorem next_last (hm : 0 < m) : next m converges ⟨i, m + 1⟩ = ⟨i + 1, 1⟩ := by
  have hne : m ≠ 0 := by omega
  simp [next, hne]

theorem next_of_ne (h1 : r ≠ 1) (h : r ≠ m + 1) : next m converges ⟨i, r⟩ = ⟨i, r + 1⟩ := by
  simp [next, h1, h]

theorem next_plain {τ : Turn} (h1 : τ.rank ≠ 1) : next m converges τ =
    if τ.rank = m + 1 then ⟨τ.iteration + 1, 1⟩ else ⟨τ.iteration, τ.rank + 1⟩ := if_neg h1

/-- The segments of an iteration come one after the other. -/
theorem iterate_segments (hi : converges i = false) (hr : r ≤ m) :
    (next m converges)^[r] ⟨i, 1⟩ = ⟨i, r + 1⟩ := by
  induction r with
  | zero => rfl
  | succ r ih =>
    rw [Function.iterate_succ_apply', ih (by omega)]
    cases r with
    | zero => exact next_iterating hi
    | succ r => exact next_of_ne (by omega) (by omega)

theorem iterate_iteration (hm : 0 < m) (hi : converges i = false) :
    (next m converges)^[m + 1] ⟨i, 1⟩ = ⟨i + 1, 1⟩ := by
  rw [Function.iterate_succ_apply', iterate_segments hi (Nat.le_refl m)]
  exact next_last hm

/-- Each iteration begins with the head. -/
theorem iterate_head (hm : 0 < m) (h : ∀ j < i, converges j = false) :
    (next m converges)^[i * (m + 1) + 1] start = ⟨i, 1⟩ := by
  induction i with
  | zero =>
    rw [Nat.zero_mul]
    have hstart : next m converges ⟨0, 0⟩ = ⟨0, 0 + 1⟩ := next_of_ne (by omega) (by omega)
    exact hstart
  | succ i ih =>
    have hcount : (i + 1) * (m + 1) + 1 = (m + 1) + (i * (m + 1) + 1) := by ring
    rw [hcount, Function.iterate_add_apply, ih fun j hj => h j (by omega)]
    exact iterate_iteration hm (h i (by omega))

/-- As long as the loop has not converged the turns are those of the source, the head and the
body. -/
theorem rank_of_running (hm : 0 < m) {k : Nat}
    (h : ∀ j, j * (m + 1) + 1 < k → converges j = false) :
    ((next m converges)^[k] start).rank ≤ m + 1 := by
  cases k with
  | zero => exact Nat.zero_le _
  | succ k =>
    have hsplit := Nat.div_add_mod k (m + 1)
    have hmod := Nat.mod_lt k (Nat.succ_pos m)
    generalize k / (m + 1) = i at hsplit
    generalize k % (m + 1) = r at hsplit hmod
    have hk : k + 1 = r + (i * (m + 1) + 1) := by
      rw [← hsplit]
      ring
    have hbefore : ∀ j < i, converges j = false := fun j hj => by
      have := Nat.mul_le_mul_right (m + 1) (Nat.succ_le_of_lt hj)
      rw [Nat.succ_mul] at this
      exact h j (by omega)
    rw [hk, Function.iterate_add_apply, iterate_head hm hbefore]
    cases r with
    | zero => exact Nat.succ_le_succ (Nat.zero_le m)
    | succ r =>
      rw [iterate_segments (h i (by omega)) (by omega)]
      change r + 1 + 1 ≤ m + 1
      omega

/-- **A loop that does not converge never gets to the sink.** -/
theorem rank_of_diverging (hm : 0 < m) (h : ∀ j, converges j = false) (k : Nat) :
    ((next m converges)^[k] start).rank ≤ m + 1 := rank_of_running hm fun j _ => h j

/-- When the loop has converged the sink comes next, and then nothing. -/
theorem iterate_converged (hm : 0 < m) (hn : converges n = true)
    (h : ∀ j < n, converges j = false) :
    (next m converges)^[n * (m + 1) + 2] start = ⟨n, m + 2⟩ ∧
      (next m converges)^[n * (m + 1) + 3] start = ⟨n, m + 3⟩ := by
  have hsink : (next m converges)^[n * (m + 1) + 2] start = ⟨n, m + 2⟩ := by
    rw [Function.iterate_succ_apply', iterate_head hm h, next_converged hn]
  refine ⟨hsink, ?_⟩
  rw [Function.iterate_succ_apply', hsink]
  exact next_of_ne (by omega) (by omega)

/-- **A loop that converges first in iteration `n` ends after `n + 3 + n * m` stage executions**, and
not before. -/
theorem iterate_end (hm : 0 < m) (hn : converges n = true) (h : ∀ j < n, converges j = false) :
    (next m converges)^[n + 3 + n * m] start = ⟨n, m + 3⟩ ∧
      ∀ k < n + 3 + n * m, ¬ IsOver m ((next m converges)^[k] start) := by
  have hcount : n + 3 + n * m = n * (m + 1) + 3 := by ring
  obtain ⟨hsink, hend⟩ := iterate_converged hm hn h
  refine ⟨hcount ▸ hend, fun k hk => ?_⟩
  rw [hcount] at hk
  unfold IsOver
  by_cases hsmall : k ≤ n * (m + 1) + 1
  · have hrank := rank_of_running (k := k) hm fun j hj => h j (by
      by_contra hle
      have := Nat.mul_le_mul_right (m + 1) (Nat.le_of_not_lt hle)
      omega)
    omega
  · obtain rfl : k = n * (m + 1) + 2 := by omega
    rw [hsink]
    exact Nat.ne_of_lt (Nat.lt_succ_self (m + 2))

end Course

end Turn

end Dataflow
