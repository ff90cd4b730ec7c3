/-!
# The life of a loop head

Within one execution a loop head is first not started, then running, then finished. It may
stay where it is or move on, also past `running`, but it never goes back.

The states are ordered by how far the loop head has come, and an advance is an advance in that
order: it answers its target or, if it would go back, both ends (`advance_eq_ok_iff`). A refused
advance leaves the state as it is.

This is the law of one cell. That a loop head keeps to such a cell is a property of the operator
that owns it: `LoopOperator` does, and another loop head may as well, but the engine asks for a
state and never makes it forget one. So there is no way back to `notStarted`, and a loop inside of
a loop runs once (`Dataflow.Proofs.Loop.Nested.Outcome`).

Out of scope: a cell that is advanced from several threads at once.
-/

namespace Dataflow

/-- Where a loop head stands within one execution. -/
inductive LoopState where
  | notStarted
  | running
  | finished
  deriving DecidableEq, Repr, Inhabited

namespace LoopState

/-- How far the loop head has come. -/
def rank : LoopState → Nat
  | notStarted => 0
  | running => 1
  | finished => 2

instance : Ord LoopState := ⟨fun a b => compare a.rank b.rank⟩

instance : LE LoopState := ⟨fun a b => a.rank ≤ b.rank⟩

instance (a b : LoopState) : Decidable (a ≤ b) := inferInstanceAs (Decidable (a.rank ≤ b.rank))

def isTerminal (s : LoopState) : Bool := s == finished

def label : LoopState → String
  | notStarted => "NOT_STARTED"
  | running => "RUNNING"
  | finished => "FINISHED"

/-- A loop head was asked to go back. -/
structure Regression where
  source : LoopState
  target : LoopState
  deriving DecidableEq, Repr

/-- Move from `current` to `target`; staying is allowed, going back is not. -/
def advance (current target : LoopState) : Except Regression LoopState :=
  if current ≤ target then .ok target else .error ⟨current, target⟩

theorem le_iff_rank {a b : LoopState} : a ≤ b ↔ a.rank ≤ b.rank := Iff.rfl

theorem le_refl (a : LoopState) : a ≤ a := Nat.le_refl _

theorem le_trans {a b c : LoopState} (h : a ≤ b) (h' : b ≤ c) : a ≤ c := Nat.le_trans h h'

theorem le_antisymm {a b : LoopState} (h : a ≤ b) (h' : b ≤ a) : a = b := by
  cases a <;> cases b <;> first | rfl | exact absurd h (by decide) | exact absurd h' (by decide)

theorem le_finished (a : LoopState) : a ≤ finished := by cases a <;> decide

/-- A loop head that has started is running or has finished. -/
theorem running_le {a : LoopState} (h : a ≠ notStarted) : running ≤ a := by
  cases a with
  | notStarted => exact absurd rfl h
  | running => exact le_refl _
  | finished => exact le_finished _

/-- An advance succeeds iff it does not go back, and then leads to its target. -/
theorem advance_eq_ok_iff {a b c : LoopState} : a.advance b = .ok c ↔ a ≤ b ∧ c = b := by
  unfold advance
  split
  · simp_all [eq_comm]
  · simp_all

end LoopState

end Dataflow
