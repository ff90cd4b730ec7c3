import Dataflow.Proofs.Loop.Nested.Bodies
import Dataflow.Proofs.Loop.Operators

/-!
# The course of a loop inside of a loop

The stage executions of a loop inside of a loop, counted apart from any machine. A spot says which
part is next and how many iterations of the inner loop have been executed. The inner loop is started
once: when the outer loop has not converged after its first iteration there is no next part.

* `Spot.next`: the course.
* `Spot.reads_next`: every part reads what the part before it has emitted.
* `Spot.waits`: why the other pending parts have to wait.
* `Spot.iterate_inner`, **`Spot.iterate_again`**: how many stage executions lead to a spot.
-/

namespace Dataflow

namespace NestedLoop

/-- Which part of a loop inside of a loop is next. -/
inductive Spot where
  | read
  /-- The outer loop is started. -/
  | enter
  /-- The inner loop is started, or goes on after some iterations. -/
  | iterate (i : Nat)
  | step (i : Nat)
  | close (i : Nat)
  /-- The first iteration of the outer loop ends. -/
  | again (i : Nat)
  | sink (i : Nat)
  | ended (i : Nat)
  /-- The outer loop goes on and the inner loop has finished. -/
  | stuck (i : Nat)
  deriving DecidableEq, Repr

namespace Spot

/-- The part that is next. -/
def part : Spot → Option Part
  | .read => some .source
  | .enter | .again _ => some .outer
  | .iterate _ => some .inner
  | .step _ => some .step
  | .close _ => some .close
  | .sink _ => some .sink
  | .ended _ | .stuck _ => none

/-- The inputs that the part reads. -/
def inputs : Spot → List Nat
  | .enter | .iterate 0 => [0, 1]
  | .iterate (_ + 1) | .again _ => [2, 3]
  | .step _ | .close _ | .sink _ => [0]
  | .read | .ended _ | .stuck _ => []

/-- The iterations of its loop that have been executed when a head is next. -/
def iteration : Spot → Nat
  | .iterate i => i
  | .again _ => 1
  | _ => 0

def activation : Spot → Activation
  | .enter | .iterate 0 => .loopInitialization
  | .iterate (_ + 1) | .again _ => .loopIteration
  | _ => .plain

/-- The number that the part reads; the source feeds `x`. -/
def datum (step close : UInt64 → UInt64) (x : UInt64) : Spot → UInt64
  | .read | .enter => x
  | .iterate i | .step i | .close i => step^[i] x
  | .again i | .sink i | .ended i | .stuck i => close (step^[i] x)

/-- The parts whose stages are pending. -/
def pending : Spot → List Part
  | .read => Part.all
  | .enter => [.outer, .inner, .step, .close, .sink]
  | .iterate 0 => [.inner, .step, .close, .sink]
  | .iterate (_ + 1) | .stuck _ => [.inner, .close, .sink]
  | .step _ => [.step, .close, .sink]
  | .close _ => [.close, .sink]
  | .again _ => [.outer, .sink]
  | .sink _ => [.sink]
  | .ended _ => []

/-- Where the outer loop is, taken by itself. -/
def outerTurn : Spot → Turn
  | .read | .enter => ⟨0, 1⟩
  | .iterate _ | .step _ | .close _ => ⟨0, 2⟩
  | .again _ => ⟨1, 1⟩
  | .stuck _ => ⟨1, 2⟩
  | .sink _ | .ended _ => ⟨1, 3⟩

/-- Where the inner loop is, taken by itself. -/
def innerTurn : Spot → Turn
  | .read | .enter => ⟨0, 1⟩
  | .iterate i => ⟨i, 1⟩
  | .step i => ⟨i, 2⟩
  | .close i | .again i | .sink i | .ended i | .stuck i => ⟨i, 3⟩

/-- Where the loop of a head is. -/
def turn (τ : Spot) : Part → Turn
  | .outer => τ.outerTurn
  | _ => τ.innerTurn

section Course

variable (converges ends : Nat → Bool)

/-- Whether the head that is next finds that its loop has converged: the inner one after some
iterations, the outer one after its first iteration. -/
def converged : Spot → Bool
  | .iterate i => converges i
  | .again i => ends i
  | _ => false

/-- The spot after a stage execution. -/
def next : Spot → Spot
  | .read => .enter
  | .enter => .iterate 0
  | .iterate i => if converges i = true then .close i else .step i
  | .step i => .iterate (i + 1)
  | .close i => .again i
  | .again i => if ends i = true then .sink i else .stuck i
  | .sink i | .ended i => .ended i
  | .stuck i => .stuck i

variable {converges ends} {τ : Spot} {k : Part}

theorem next_iterate (i : Nat) : (iterate i).next converges ends =
    if converges i = true then .close i else .step i := rfl

theorem next_again (i : Nat) : (again i).next converges ends =
    if ends i = true then .sink i else .stuck i := rfl

/-- The spots at which a head is next. -/
theorem head_cases (hk : k.isHead = true) (hpart : τ.part = some k) :
    (τ = .enter ∧ k = .outer) ∨ (∃ i, τ = .iterate i ∧ k = .inner) ∨
      ∃ i, τ = .again i ∧ k = .outer := by
  cases τ with
  | enter => exact .inl ⟨rfl, (Option.some.inj hpart).symm⟩
  | iterate i => exact .inr (.inl ⟨i, rfl, (Option.some.inj hpart).symm⟩)
  | again i => exact .inr (.inr ⟨i, rfl, (Option.some.inj hpart).symm⟩)
  | read | step | close | sink =>
    obtain rfl := Option.some.inj hpart
    exact absurd hk (by decide)
  | ended | stuck => exact absurd hpart (by simp [part])

/-- The spots at which another part is next. -/
theorem plain_cases (hk : k.isHead = false) (hpart : τ.part = some k) :
    (τ = .read ∧ k = .source) ∨ (∃ i, τ = .step i ∧ k = .step) ∨
      (∃ i, τ = .close i ∧ k = .close) ∨ ∃ i, τ = .sink i ∧ k = .sink := by
  cases τ with
  | read => exact .inl ⟨rfl, (Option.some.inj hpart).symm⟩
  | step i => exact .inr (.inl ⟨i, rfl, (Option.some.inj hpart).symm⟩)
  | close i => exact .inr (.inr (.inl ⟨i, rfl, (Option.some.inj hpart).symm⟩))
  | sink i => exact .inr (.inr (.inr ⟨i, rfl, (Option.some.inj hpart).symm⟩))
  | enter | iterate | again =>
    obtain rfl := Option.some.inj hpart
    exact absurd hk (by decide)
  | ended | stuck => exact absurd hpart (by simp [part])

/-- **Every part reads what the part before it has emitted.** -/
theorem reads_next {u l : Part} {o i : Nat} (hx : (u, o, l, i) ∈ Part.links)
    (hpart : (τ.next converges ends).part = some l) (hi : i ∈ (τ.next converges ends).inputs) :
    τ.part = some u ∧ o = if τ.converged converges ends = true then 2 else 0 := by
  have hlinks : ∀ x ∈ Part.links,
      (x.2.2.1 = .outer → x.2.2.2 ∈ [0, 1] → x.1 = .source ∧ x.2.1 = 0) ∧
      (x.2.2.1 = .outer → x.2.2.2 ∈ [2, 3] → x.1 = .close ∧ x.2.1 = 0) ∧
      (x.2.2.1 = .inner → x.2.2.2 ∈ [0, 1] → x.1 = .outer ∧ x.2.1 = 0) ∧
      (x.2.2.1 = .inner → x.2.2.2 ∈ [2, 3] → x.1 = .step ∧ x.2.1 = 0) ∧
      (x.2.2.1 = .step → x.1 = .inner ∧ x.2.1 = 0) ∧
      (x.2.2.1 = .close → x.1 = .inner ∧ x.2.1 = 2) ∧
      (x.2.2.1 = .sink → x.1 = .outer ∧ x.2.1 = 2) := by decide
  obtain ⟨hread, hback, henter, hagain, hstep, hclose, hsink⟩ := hlinks _ hx
  cases τ with
  | read =>
    obtain ⟨rfl, rfl⟩ := hread (Option.some.inj hpart).symm hi
    exact ⟨rfl, rfl⟩
  | enter =>
    obtain ⟨rfl, rfl⟩ := henter (Option.some.inj hpart).symm hi
    exact ⟨rfl, rfl⟩
  | iterate j =>
    cases hc : converges j with
    | true =>
      rw [next_iterate, if_pos hc] at hpart
      obtain ⟨rfl, rfl⟩ := hclose (Option.some.inj hpart).symm
      exact ⟨rfl, by simp [converged, hc]⟩
    | false =>
      rw [next_iterate, if_neg (by simp [hc])] at hpart
      obtain ⟨rfl, rfl⟩ := hstep (Option.some.inj hpart).symm
      exact ⟨rfl, by simp [converged, hc]⟩
  | step j =>
    obtain ⟨rfl, rfl⟩ := hagain (Option.some.inj hpart).symm hi
    exact ⟨rfl, rfl⟩
  | close j =>
    obtain ⟨rfl, rfl⟩ := hback (Option.some.inj hpart).symm hi
    exact ⟨rfl, rfl⟩
  | again j =>
    cases hc : ends j with
    | true =>
      rw [next_again, if_pos hc] at hpart
      obtain ⟨rfl, rfl⟩ := hsink (Option.some.inj hpart).symm
      exact ⟨rfl, by simp [converged, hc]⟩
    | false =>
      rw [next_again, if_neg (by simp [hc])] at hpart
      exact absurd hpart (by simp [part])
  | sink j | ended j | stuck j => exact absurd hpart (by simp [next, part])

/-- The inputs that a part reads are connected. -/
theorem exists_link {i : Nat} (hpart : τ.part = some k) (hi : i ∈ τ.inputs) :
    ∃ u o, (u, o, k, i) ∈ Part.links := by
  have hall : ∀ k : Part, ∀ i < k.arity, ∃ x ∈ Part.links, x.2.2.1 = k ∧ x.2.2.2 = i :=
    Part.exists_link
  have hlt : i < k.arity := by
    have hfour : ∀ j ∈ [2, 3], j < 4 := by decide
    have htwo : ∀ j ∈ [0, 1], j < 4 := by decide
    cases τ with
    | read | ended | stuck => exact absurd hi List.not_mem_nil
    | enter =>
      obtain rfl := Option.some.inj hpart
      exact htwo i hi
    | iterate j =>
      obtain rfl := Option.some.inj hpart
      cases j with
      | zero => exact htwo i hi
      | succ j => exact hfour i hi
    | again j =>
      obtain rfl := Option.some.inj hpart
      exact hfour i hi
    | step j | close j | sink j =>
      obtain rfl := Option.some.inj hpart
      rw [List.mem_singleton.mp hi]
      exact Nat.one_pos
  obtain ⟨⟨u, o, l, j⟩, hx, rfl, rfl⟩ := hall k i hlt
  exact ⟨u, o, hx⟩

/-! ### The heads -/

variable (converges ends) in
/-- When a head is next it is its turn in its loop. -/
theorem turn_head (hk : k.isHead = true) (hpart : τ.part = some k) :
    τ.turn k = ⟨τ.iteration, 1⟩ ∧ (τ.next converges ends).turn k =
      Turn.next 1 (fun _ => τ.converged converges ends) ⟨τ.iteration, 1⟩ := by
  obtain ⟨rfl, rfl⟩ | ⟨i, rfl, rfl⟩ | ⟨i, rfl, rfl⟩ := head_cases hk hpart
  · exact ⟨rfl, rfl⟩
  · refine ⟨rfl, ?_⟩
    cases hc : converges i <;> simp [next, converged, turn, innerTurn, Turn.next, iteration, hc]
  · refine ⟨rfl, ?_⟩
    cases hc : ends i <;> simp [next, converged, turn, outerTurn, Turn.next, iteration, hc]

/-- The activation of a head, and the inputs it reads, go by the iterations of its loop. -/
theorem activation_head (hk : k.isHead = true) (hpart : τ.part = some k) :
    τ.activation = LoopOperator.activationIn τ.iteration ∧
      ∀ i, LoopOperator.readsIn τ.iteration i ↔ i ∈ τ.inputs := by
  unfold LoopOperator.activationIn LoopOperator.readsIn
  obtain ⟨rfl, -⟩ | ⟨i, rfl, -⟩ | ⟨i, rfl, -⟩ := head_cases hk hpart
  · exact ⟨rfl, fun i => by simp [iteration, inputs]⟩
  · cases i <;> exact ⟨rfl, fun i => by simp [iteration, inputs]⟩
  · exact ⟨rfl, fun i => by simp [iteration, inputs]⟩

/-- Any other part is activated once all its inputs are there. -/
theorem activation_plain (hk : k.isHead = false) (hpart : τ.part = some k) :
    τ.activation = .plain ∧ ∀ i < k.arity, i ∈ τ.inputs := by
  obtain ⟨rfl, rfl⟩ | ⟨i, rfl, rfl⟩ | ⟨i, rfl, rfl⟩ | ⟨i, rfl, rfl⟩ := plain_cases hk hpart <;>
    exact ⟨rfl, by simp [Part.arity, inputs]⟩

/-- The stage executions of other parts leave a head where it is. -/
theorem atTurn_next (l : LoopOperator) (hk : k.isHead = true) (hpart : τ.part ≠ some k) :
    l.atTurn 1 ((τ.next converges ends).turn k) = l.atTurn 1 (τ.turn k) := by
  have hhead : k = .outer ∨ k = .inner := by
    revert hk
    cases k <;> decide
  rcases hhead with rfl | rfl
  · cases τ with
    | read | step | close | ended | sink | stuck => rfl
    | enter => exact absurd rfl hpart
    | again => exact absurd rfl hpart
    | iterate i =>
      rw [next_iterate]
      split <;> rfl
  · cases τ with
    | read | enter | close | ended | sink | stuck => rfl
    | step i => simp [next, turn, innerTurn, LoopOperator.atTurn]
    | iterate => exact absurd rfl hpart
    | again i =>
      rw [next_again]
      split <;> rfl

/-- A loop that has not finished had not finished before. -/
theorem rank_turn_le (hle : ((τ.next converges ends).turn k).rank ≤ 2) : (τ.turn k).rank ≤ 2 := by
  have hone : ∀ τ : Spot, (τ.next converges ends).outerTurn.rank ≤ 2 → τ.outerTurn.rank ≤ 2 := by
    intro τ hτ
    cases τ with
    | read | enter | iterate | step | close | again => simp [outerTurn]
    | sink | ended => exact hτ
    | stuck => exact Nat.le_refl 2
  have hother : ∀ τ : Spot, (τ.next converges ends).innerTurn.rank ≤ 2 → τ.innerTurn.rank ≤ 2 := by
    intro τ hτ
    cases τ with
    | read | enter | iterate | step => simp [innerTurn]
    | again i =>
      rw [next_again] at hτ
      split at hτ <;> exact hτ
    | close | sink | ended | stuck => exact hτ
  cases k with
  | outer => exact hone τ hle
  | source | inner | step | close | sink => exact hother τ hle

/-! ### Waiting -/

theorem mem_pending_of_part (hpart : τ.part = some k) : k ∈ τ.pending := by
  cases τ with
  | iterate i =>
    obtain rfl := Option.some.inj hpart
    cases i <;> exact List.mem_cons_self
  | read | enter | step | close | again | sink =>
    obtain rfl := Option.some.inj hpart
    exact List.mem_cons_self
  | ended | stuck => exact absurd hpart (by simp [part])

/-- The part that is next waits for no other one. -/
theorem notMem_pending_of_before {q : Part} (hpart : τ.part = some k) (hq : k.before = some q) :
    q ∉ τ.pending := by
  cases τ with
  | iterate i =>
    obtain rfl := Option.some.inj hpart
    obtain rfl := Option.some.inj hq
    cases i <;> simp [pending]
  | read =>
    obtain rfl := Option.some.inj hpart
    exact absurd hq (by simp [Part.before])
  | enter | step | close | again | sink =>
    obtain rfl := Option.some.inj hpart
    obtain rfl := Option.some.inj hq
    simp [pending]
  | ended | stuck => exact absurd hpart (by simp [part])

/-- **Why a pending part that is not next has to wait**: a part before it is pending, or it reads the
result of a loop that has not finished, or it is the head of a loop that has finished. -/
theorem waits (hk : k ∈ τ.pending) (hpart : τ.part ≠ some k) :
    (∃ q, k.before = some q ∧ q ∈ τ.pending) ∨
    (∃ h : Part, (h, 2, k, 0) ∈ Part.links ∧ (τ.turn h).rank ≤ 2) ∨
    (k.isHead = true ∧ (τ.turn k).rank = 3) := by
  cases τ with
  | read | enter =>
    revert hk hpart
    cases k <;> simp [pending, part, Part.all, Part.before]
  | iterate i =>
    revert hk hpart
    cases i <;> cases k <;>
      simp [pending, part, Part.before, Part.links, turn, outerTurn, innerTurn, Part.isHead]
  | step | close | again | sink | ended | stuck =>
    revert hk hpart
    cases k <;>
      simp [pending, part, Part.before, Part.links, turn, outerTurn, innerTurn, Part.isHead]

/-! ### The agenda -/

/-- What is pending after a head: its body, or nothing of it, besides what was pending before. -/
theorem pending_next_head (hk : k.isHead = true) (hpart : τ.part = some k) (l : Part) :
    l ∈ (τ.next converges ends).pending ↔
      if τ.converged converges ends = true then (l ∈ τ.pending ∧ l ≠ k) ∧ l.home ≠ some k
      else l.home = some k ∨ (l ∈ τ.pending ∧ l ≠ k) := by
  obtain ⟨rfl, rfl⟩ | ⟨i, rfl, rfl⟩ | ⟨i, rfl, rfl⟩ := head_cases hk hpart
  · cases l <;> simp [next, converged, pending, Part.home]
  · cases hc : converges i <;> cases i <;> cases l <;>
      simp [next, converged, pending, Part.home, hc]
  · cases hc : ends i <;> cases l <;> simp [next, converged, pending, Part.home, hc]

/-- When the inner head is next, what closes the outer iteration is pending. -/
theorem mem_pending_close (hpart : τ.part = some .inner) : .close ∈ τ.pending := by
  obtain ⟨-, he⟩ | ⟨i, rfl, -⟩ | ⟨i, -, he⟩ := head_cases rfl hpart
  · exact absurd he (by decide)
  · cases i <;> simp [pending]
  · exact absurd he (by decide)

/-- What is pending after a part outside of loops. -/
theorem pending_next_apart (hk : k.isHead = false) (hhome : k.home = none)
    (hpart : τ.part = some k) (l : Part) :
    l ∈ (τ.next converges ends).pending ↔ l ∈ τ.pending ∧ l ≠ k := by
  obtain ⟨rfl, rfl⟩ | ⟨i, -, rfl⟩ | ⟨i, -, rfl⟩ | ⟨i, rfl, rfl⟩ := plain_cases hk hpart
  · cases l <;> simp [next, pending, Part.all]
  · exact absurd hhome (by decide)
  · exact absurd hhome (by decide)
  · cases l <;> simp [next, pending]

variable (converges ends) in
/-- What is pending after a part of a body, which is the last one of it: the head of the loop, which
is running, besides what was pending before. -/
theorem pending_next_body {head : Part} (hk : k.isHead = false) (hhome : k.home = some head)
    (hpart : τ.part = some k) :
    (∀ l : Part, l.home = some head → l ∈ τ.pending → l = k) ∧
    (((τ.next converges ends).turn head).iteration ≠ 0 ∧
      ((τ.next converges ends).turn head).rank = 1) ∧
    ∀ l, l ∈ (τ.next converges ends).pending ↔ l = head ∨ (l ∈ τ.pending ∧ l ≠ k) := by
  obtain ⟨-, rfl⟩ | ⟨i, rfl, rfl⟩ | ⟨i, rfl, rfl⟩ | ⟨i, -, rfl⟩ := plain_cases hk hpart
  · exact absurd hhome (by simp [Part.home])
  · obtain rfl := Option.some.inj hhome
    refine ⟨fun l => ?_, by simp [next, turn, innerTurn], fun l => ?_⟩ <;>
      cases l <;> simp [next, pending, Part.home]
  · obtain rfl := Option.some.inj hhome
    refine ⟨fun l => ?_, by simp [next, turn, outerTurn], fun l => ?_⟩ <;>
      cases l <;> simp [next, pending, Part.home]
  · exact absurd hhome (by simp [Part.home])

/-! ### Counting -/

/-- Up to its end each iteration of the inner loop takes two stage executions. -/
theorem iterate_inner {i : Nat} (h : ∀ j < i, converges j = false) :
    (next converges ends)^[2 * i + 2] .read = .iterate i := by
  induction i with
  | zero => rfl
  | succ i ih =>
    have hcount : 2 * (i + 1) + 2 = (2 * i + 2) + 1 + 1 := by ring
    rw [hcount, Function.iterate_succ_apply', Function.iterate_succ_apply',
      ih fun j hj => h j (by omega)]
    simp [next, h i (by omega)]

variable {n : Nat}

/-- When the inner loop has converged, the first iteration of the outer loop is closed. -/
theorem iterate_again (hn : converges n = true) (h : ∀ j < n, converges j = false) :
    (next converges ends)^[2 * n + 3] .read = .close n ∧
      (next converges ends)^[2 * n + 4] .read = .again n := by
  have hclose : (next converges ends)^[2 * n + 3] .read = .close n := by
    rw [Function.iterate_succ_apply', iterate_inner h]
    simp [next, hn]
  refine ⟨hclose, ?_⟩
  rw [Function.iterate_succ_apply', hclose]
  rfl

/-- On the way there some part is next. -/
theorem part_ne_none (hn : converges n = true) (h : ∀ j < n, converges j = false) {k : Nat}
    (hk : k ≤ 2 * n + 4) : ((next converges ends)^[k] .read).part ≠ none := by
  obtain ⟨hclose, hagain⟩ : (next converges ends)^[2 * n + 3] .read = .close n ∧
      (next converges ends)^[2 * n + 4] .read = .again n := iterate_again hn h
  by_cases hlast : k = 2 * n + 4
  · rw [hlast, hagain]
    simp [part]
  by_cases hclosing : k = 2 * n + 3
  · rw [hclosing, hclose]
    simp [part]
  match k with
  | 0 => simp [part]
  | 1 => simp [part, next]
  | k + 2 =>
    obtain ⟨i, rfl | rfl⟩ := Nat.even_or_odd' k
    · rw [iterate_inner fun j hj => h j (by omega)]
      simp [part]
    · rw [show 2 * i + 1 + 2 = (2 * i + 2) + 1 by ring, Function.iterate_succ_apply',
        iterate_inner fun j hj => h j (by omega)]
      simp [part, next, h i (by omega)]

end Course

end Spot

end NestedLoop

end Dataflow
