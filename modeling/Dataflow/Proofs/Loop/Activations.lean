import Mathlib.Data.Nat.Find
import Mathlib.Logic.ExistsUnique
import Dataflow.Loop.Operator

/-!
# The activations of a loop operator

A loop operator reads the two inputs of its part, takes the activation up, which starts the loop or
counts an iteration, and then decides whether the loop ends. What can fail before it takes the
activation up leaves it as it is; what fails afterwards does not.

* `LoopOperator.takenUp`, `LoopOperator.evaluate_eq`: an activation that finds its inputs.
* **`LoopOperator.evaluate_failed`**: what a failed activation leaves behind.
* `LoopOperator.iterations_evaluate_le`, `LoopOperator.iterations_after_lt`: how far it counts.
* `LoopOperator.after`, `LoopOperator.Reaches`: a sequence of activations that goes on while the loop
  is running, on data of any length.
* **`LoopOperator.evaluate_stream`**: what each of its activations does, and when it ends.

The state and the count change before the criterion is asked, and the criterion can fail, on data of a
kind that it does not take. So a failed activation may have started the loop or counted an iteration;
`takenUp` is the only other thing that it can have done.

A stream of data stands for what the body feeds back, whatever the body is. Each activation of the
stream finds its inputs. That the engine activates a loop operator in this way is not proved here but
in `Dataflow.Proofs.Loop.Protocol`, of all operators with a cell of their own.
-/

namespace Dataflow

namespace LoopOperator

variable {l : LoopOperator} {ctx : TaskContext} {e : OperatorError}

/-! ## One activation -/

/-- How a loop head is activated in an iteration. -/
def activationIn (i : Nat) : Activation := if i = 0 then .loopInitialization else .loopIteration

/-- The input with the data of the loop: from outside in an initialization, from the body later. -/
def dataInput : Activation → Nat
  | .loopIteration => 2
  | _ => 0

/-- The input with the convergence data. -/
def convergenceInput : Activation → Nat
  | .loopIteration => 3
  | _ => 1

/-- A loop operator that has taken up an activation: an initialization has started it, an iteration
is counted. -/
def takenUp (l : LoopOperator) : Activation → LoopOperator
  | .plain => l
  | .loopInitialization => { l with state := .running }
  | .loopIteration => { l with iterations := l.iterations + 1 }

theorem advance_of_le {s : LoopState} (h : l.state ≤ s) : l.advance s = .ok { l with state := s } := by
  unfold advance
  rw [LoopState.advance_eq_ok_iff.mpr ⟨h, rfl⟩]

/-- Why an activation is refused before it is taken up. -/
inductive Refuses (l : LoopOperator) (ctx : TaskContext) : OperatorError → Prop
  | plain : ctx.activation = .plain →
      l.Refuses ctx (.failed s!"loop '{l.name}' activated outside of its loop roles")
  | missing (i : Nat) : i = dataInput ctx.activation ∨ i = convergenceInput ctx.activation →
      ctx.payload i = .error (.missingInput i) → l.Refuses ctx (.missingInput i)
  | finished : ctx.activation = .loopInitialization → l.state = .finished →
      l.Refuses ctx (.failed (IllegalStateError.loopStateRegression ⟨.finished, .running⟩).message)

/-- Why an activation fails that was taken up: its criterion reads data of another kind, or an output
is not there. -/
inductive BreaksOff (l : LoopOperator) (ctx : TaskContext) : OperatorError → Prop
  | criterion (c : Payload) : ctx.payload (convergenceInput ctx.activation) = .ok c →
      l.criterion.holds c = none → l.BreaksOff ctx (.unexpectedPayload 3 l.criterion.expected)
  | output (o : Nat) : o < 3 → ctx.outputCount ≤ o → l.BreaksOff ctx (.noSuchOutput o)

theorem payload_error {i : Nat} (h : ctx.payload i = .error e) : e = .missingInput i := by
  unfold TaskContext.payload at h
  split at h
  · exact absurd h nofun
  · exact (Except.error.inj h).symm

/-- Both inputs are found, or the first that is missing is reported. -/
theorem read_eq (ctx : TaskContext) (i j : Nat) :
    (∃ d c, ctx.payload i = .ok d ∧ ctx.payload j = .ok c ∧ read ctx i j = .ok (d, c)) ∨
      ∃ k, (k = i ∨ k = j) ∧ ctx.payload k = .error (.missingInput k) ∧
        read ctx i j = .error (.missingInput k) := by
  unfold read
  cases hi : ctx.payload i with
  | error e =>
    obtain rfl := payload_error hi
    exact Or.inr ⟨i, Or.inl rfl, hi, rfl⟩
  | ok d =>
    cases hj : ctx.payload j with
    | error e =>
      obtain rfl := payload_error hj
      exact Or.inr ⟨j, Or.inr rfl, hj, rfl⟩
    | ok c => exact Or.inl ⟨d, c, rfl, rfl, rfl⟩

/-- **An activation that finds its inputs** is taken up and then decided. -/
theorem evaluate_eq {d c : Payload} (hplain : ctx.activation ≠ .plain)
    (hstart : ctx.activation = .loopInitialization → l.state ≤ .running)
    (hd : ctx.payload (dataInput ctx.activation) = .ok d)
    (hc : ctx.payload (convergenceInput ctx.activation) = .ok c) :
    l.evaluate ctx = (l.takenUp ctx.activation).decide ctx d c := by
  have hread : read ctx (dataInput ctx.activation) (convergenceInput ctx.activation) =
      .ok (d, c) := by
    unfold read
    rw [hd, hc]
    rfl
  unfold evaluate
  cases ha : ctx.activation with
  | plain => exact absurd ha hplain
  | loopInitialization =>
    simp only [ha, dataInput, convergenceInput] at hread
    simp only [hread, advance_of_le (hstart ha), takenUp]
  | loopIteration =>
    simp only [ha, dataInput, convergenceInput] at hread
    simp only [hread, takenUp]

/-- An activation is refused as it is, or it is taken up and decided. -/
theorem evaluate_cases (l : LoopOperator) (ctx : TaskContext) :
    (∃ e, l.evaluate ctx = l.fail e ∧ l.Refuses ctx e) ∨
      ∃ d c, ctx.payload (convergenceInput ctx.activation) = .ok c ∧
        l.evaluate ctx = (l.takenUp ctx.activation).decide ctx d c := by
  by_cases hplain : ctx.activation = .plain
  · refine Or.inl ⟨_, ?_, .plain hplain⟩
    unfold evaluate
    rw [hplain]
  rcases read_eq ctx (dataInput ctx.activation) (convergenceInput ctx.activation) with
    ⟨d, c, hd, hc, -⟩ | ⟨i, hi, hmissing, hread⟩
  · by_cases hstart : ctx.activation = .loopInitialization → l.state ≤ .running
    · exact Or.inr ⟨d, c, hc, evaluate_eq hplain hstart hd hc⟩
    · -- a loop that has finished is not started again
      obtain ⟨ha, hle⟩ := Classical.not_imp.mp hstart
      have hfinished : l.state = .finished := by
        cases hstate : l.state <;> simp_all [LoopState.le_iff_rank, LoopState.rank]
      refine Or.inl ⟨_, ?_, .finished ha hfinished⟩
      simp only [ha, dataInput, convergenceInput] at hd hc
      unfold evaluate read advance
      rw [ha, hd, hc, hfinished]
      rfl
  · refine Or.inl ⟨_, ?_, .missing i hi hmissing⟩
    unfold evaluate
    cases ha : ctx.activation with
    | plain => exact absurd ha hplain
    | loopInitialization | loopIteration =>
      simp only [ha, dataInput, convergenceInput] at hread
      simp only [hread]

/-- There is no such output among those of the activation. -/
theorem emit_error {out : Emissions} {o : Nat} {x : Emission} (h : out.emit o x = .error e) :
    e = .noSuchOutput o ∧ out.length ≤ o := by
  unfold Emissions.emit at h
  split at h
  · exact absurd h nofun
  · exact ⟨(Except.error.inj h).symm, Nat.le_of_not_lt ‹_›⟩

theorem emit_ok {out out' : Emissions} {o : Nat} {x : Emission} (h : out.emit o x = .ok out') :
    out'.length = out.length := by
  unfold Emissions.emit at h
  split at h
  · obtain rfl := Except.ok.inj h
    exact List.length_set
  · exact absurd h nofun

/-- A loop that does not end on convergence data is asked about data that its criterion reads. -/
theorem hasConverged_error {c : Payload} (h : l.hasConverged c = .error e) :
    e = .unexpectedPayload 3 l.criterion.expected ∧ l.criterion.holds c = none := by
  unfold hasConverged Criterion.check at h
  split at h
  · exact absurd h nofun
  · split at h
    · exact absurd h nofun
    · exact ⟨(Except.error.inj h).symm, ‹_›⟩

theorem memory_iterate (l : LoopOperator) (ctx : TaskContext) (data convergence : Payload) :
    (l.iterate ctx data convergence).memory = l := by
  unfold iterate
  split
  · rfl
  · split <;> rfl

/-- A decision that fails leaves the loop operator as it has been taken up. -/
theorem decide_failed {d c : Payload} (h : (l.decide ctx d c).result = .error e) :
    (l.decide ctx d c).memory = l ∧
      (e = .unexpectedPayload 3 l.criterion.expected ∧ l.criterion.holds c = none ∨
        ∃ o < 3, e = .noSuchOutput o ∧ ctx.outputCount ≤ o) := by
  have hnone : (Emissions.none ctx.outputCount).length = ctx.outputCount := List.length_replicate
  unfold decide at h ⊢
  cases hc : l.hasConverged c with
  | error e' =>
    rw [hc] at h
    obtain rfl := Except.error.inj h
    exact ⟨rfl, Or.inl (hasConverged_error hc)⟩
  | ok converged =>
    rw [hc] at h
    cases converged with
    | true =>
      simp only [finish, advance_of_le (LoopState.le_finished _)] at h ⊢
      cases he : (Emissions.none ctx.outputCount).emit 2 ⟨d, none⟩ with
      | ok out =>
        rw [he] at h
        exact absurd h nofun
      | error e' =>
        rw [he] at h
        obtain rfl := Except.error.inj h
        obtain ⟨rfl, hlen⟩ := emit_error he
        exact ⟨rfl, Or.inr ⟨2, by decide, rfl, hnone ▸ hlen⟩⟩
    | false =>
      refine ⟨memory_iterate l ctx d c, Or.inr ?_⟩
      simp only [iterate] at h
      cases he : (Emissions.none ctx.outputCount).emit 0 ⟨d, none⟩ with
      | error e' =>
        rw [he] at h
        obtain rfl := Except.error.inj h
        obtain ⟨rfl, hlen⟩ := emit_error he
        exact ⟨0, by decide, rfl, hnone ▸ hlen⟩
      | ok out =>
        rw [he] at h
        simp only at h
        cases he' : out.emit 1 ⟨c, none⟩ with
        | ok out' =>
          rw [he'] at h
          exact absurd h nofun
        | error e' =>
          rw [he'] at h
          obtain rfl := Except.error.inj h
          obtain ⟨rfl, hlen⟩ := emit_error he'
          exact ⟨1, by decide, rfl, hnone ▸ emit_ok he ▸ hlen⟩

/-- **A failed activation** leaves the loop operator alone if it was refused. If it breaks off, the
loop stays started, and the iteration stays counted. -/
theorem evaluate_failed (l : LoopOperator) (ctx : TaskContext) (e : OperatorError)
    (h : (l.evaluate ctx).result = .error e) :
    l.Refuses ctx e ∧ (l.evaluate ctx).memory = l ∨
      l.BreaksOff ctx e ∧ (l.evaluate ctx).memory = l.takenUp ctx.activation := by
  rcases evaluate_cases l ctx with ⟨e', heval, hwhy⟩ | ⟨d, c, hc, heval⟩
  · rw [heval] at h ⊢
    obtain rfl := Except.error.inj h
    exact Or.inl ⟨hwhy, rfl⟩
  · rw [heval] at h ⊢
    obtain ⟨hmemory, hwhy⟩ := decide_failed h
    have hcriterion : (l.takenUp ctx.activation).criterion = l.criterion := by
      cases ctx.activation <;> rfl
    rw [hcriterion] at hwhy
    refine Or.inr ⟨?_, hmemory⟩
    rcases hwhy with ⟨rfl, hholds⟩ | ⟨o, ho, rfl, hcount⟩
    · exact .criterion c hc hholds
    · exact .output o ho hcount

/-- An activation of a loop head with the same data on all inputs. -/
def uniformContext (activation : Activation) (x : Payload) : TaskContext where
  task := 1
  activation
  forced := false
  inputs := List.replicate 4 (some ⟨0, .create 0 0 x false⟩)
  outputCount := 3

/-- A loop that goes on until a number is large enough. -/
def untilTwo : LoopOperator where
  name := "loop"
  platform := ⟨"java"⟩
  criterion := .onNumber fun y => 2 ≤ y
  maxIterations := some 5

/-- A loop that cannot read its convergence data has started all the same. -/
theorem untilTwo_failed :
    ((untilTwo.evaluate (uniformContext .loopInitialization (.text "two"))).result =
      .error (.unexpectedPayload 3 "u64")) ∧
    (untilTwo.evaluate (uniformContext .loopInitialization (.text "two"))).memory =
      { untilTwo with state := .running } := by
  refine ⟨rfl, ?_⟩
  rcases evaluate_failed untilTwo (uniformContext .loopInitialization (.text "two")) _ rfl with
    ⟨hrefuses, -⟩ | ⟨-, hmemory⟩
  · cases hrefuses
  · exact hmemory

/-! ## Counting -/

/-- A decision counts nothing. -/
theorem iterations_decide (l : LoopOperator) (ctx : TaskContext) (d c : Payload) :
    (l.decide ctx d c).memory.iterations = l.iterations := by
  unfold decide
  split
  · rfl
  · unfold finish
    rw [advance_of_le (LoopState.le_finished _)]
    split <;> rfl
  · rw [memory_iterate]

/-- **An activation counts one iteration at most**, whatever it leads to. -/
theorem iterations_evaluate_le (l : LoopOperator) (ctx : TaskContext) :
    (l.evaluate ctx).memory.iterations ≤ l.iterations + 1 := by
  rcases evaluate_cases l ctx with ⟨e, heval, -⟩ | ⟨d, c, -, heval⟩
  · rw [heval]
    exact Nat.le_succ l.iterations
  · rw [heval, iterations_decide]
    cases ctx.activation with
    | plain | loopInitialization => exact Nat.le_succ l.iterations
    | loopIteration => exact Nat.le_refl _

/-! ## A decision that succeeds -/

/-- Whether the loop ends after some iterations, on these convergence data. -/
def EndsOn (l : LoopOperator) (k : Nat) (c : Payload) : Prop :=
  (∃ max, l.maxIterations = some max ∧ max ≤ k) ∨ l.criterion.holds c = some true

instance (l : LoopOperator) (k : Nat) (c : Payload) : Decidable (l.EndsOn k c) :=
  decidable_of_iff (l.maxIterations.any (· ≤ k) = true ∨ l.criterion.holds c = some true) <|
    or_congr (by cases l.maxIterations <;> simp) Iff.rfl

theorem hasConverged_eq {c : Payload} (hc : (l.criterion.holds c).isSome = true) :
    l.hasConverged c = .ok (Decidable.decide (l.EndsOn l.iterations c)) := by
  obtain ⟨holds, hholds⟩ := Option.isSome_iff_exists.mp hc
  unfold hasConverged isExhausted Criterion.check
  rw [hholds]
  by_cases hmax : ∃ max, l.maxIterations = some max ∧ max ≤ l.iterations
  · have hends : l.EndsOn l.iterations c := Or.inl hmax
    obtain ⟨max, hmax, hle⟩ := hmax
    simp [hmax, hle, hends]
  · have hends : l.EndsOn l.iterations c ↔ holds = true := by simp [EndsOn, hmax, hholds]
    have hany : ¬ (l.maxIterations.any fun max => l.iterations ≥ max) = true := fun hany =>
      hmax (by simpa using (Option.any_eq_true _ _).mp hany)
    rw [if_neg hany]
    cases holds <;> simp [hends]

/-- A loop that ends emits the result and finishes. -/
theorem decide_ends {d c : Payload} (hends : l.EndsOn l.iterations c)
    (hc : (l.criterion.holds c).isSome = true) (hout : 2 < ctx.outputCount) :
    l.decide ctx d c =
      { result := .ok ()
        emissions := (Emissions.none ctx.outputCount).set 2 (some ⟨d, none⟩)
        memory := { l with state := .finished } } := by
  unfold decide
  rw [hasConverged_eq hc, decide_eq_true hends]
  simp [finish, advance_of_le (LoopState.le_finished _), Emissions.emit, Emissions.none, hout]

/-- A loop that goes on emits the data of the next iteration. -/
theorem decide_goes_on {d c : Payload} (hends : ¬ l.EndsOn l.iterations c)
    (hc : (l.criterion.holds c).isSome = true) (hout : 2 < ctx.outputCount) :
    l.decide ctx d c =
      { result := .ok ()
        emissions := ((Emissions.none ctx.outputCount).set 0 (some ⟨d, none⟩)).set 1
          (some ⟨c, none⟩)
        memory := l } := by
  have h0 : 0 < ctx.outputCount := by omega
  have h1 : 1 < ctx.outputCount := by omega
  unfold decide
  rw [hasConverged_eq hc, decide_eq_false hends]
  simp [iterate, Emissions.emit, Emissions.none, h0, h1]

/-! ## A sequence of activations -/

section Stream

/-- The loop operator after the first `k` activations of a sequence. -/
def after (l : LoopOperator) (ctx : Nat → TaskContext) : Nat → LoopOperator
  | 0 => l
  | k + 1 => ((l.after ctx k).evaluate (ctx k)).memory

theorem iterations_after_le (l : LoopOperator) (ctx : Nat → TaskContext) (k : Nat) :
    (l.after ctx k).iterations ≤ l.iterations + k := by
  induction k with
  | zero => exact Nat.le_refl _
  | succ k ih =>
    calc (l.after ctx (k + 1)).iterations ≤ (l.after ctx k).iterations + 1 :=
          iterations_evaluate_le (l.after ctx k) (ctx k)
      _ ≤ l.iterations + (k + 1) := Nat.succ_le_succ ih

/-- **The count fits in 64 bits** as long as there are fewer activations than that, in any sequence of
activations of a loop operator that has counted nothing yet. -/
theorem iterations_after_lt (l : LoopOperator) (ctx : Nat → TaskContext) {k : Nat}
    (hl : l.iterations = 0) (hk : k < UInt64.size) : (l.after ctx k).iterations < UInt64.size := by
  have hle := l.iterations_after_le ctx k
  rw [hl, Nat.zero_add] at hle
  exact Nat.lt_of_le_of_lt hle hk

/-- Its reply to activation `k`. -/
def reply (l : LoopOperator) (ctx : Nat → TaskContext) (k : Nat) : Reply LoopOperator :=
  (l.after ctx k).evaluate (ctx k)

/-- Activation `k` takes place if all earlier ones have left the loop running. -/
def Reaches (l : LoopOperator) (ctx : Nat → TaskContext) (k : Nat) : Prop :=
  ∀ j < k, (l.reply ctx j).memory.state = .running

/-- Activation `k` emits data on an output. -/
def EmitsOn (l : LoopOperator) (ctx : Nat → TaskContext) (k o : Nat) : Prop :=
  ∃ x, (l.reply ctx k).emissions[o]? = some (some x)

/-- An initialization and then iterations. Activation `k` finds data `d k` and convergence data `c k`
on its inputs, which the criterion of the loop operator reads. -/
structure Streams (l : LoopOperator) (ctx : Nat → TaskContext) (d c : Nat → Payload) : Prop where
  activation : ∀ k, (ctx k).activation = activationIn k
  data : ∀ k, (ctx k).payload (dataInput (ctx k).activation) = .ok (d k)
  convergence : ∀ k, (ctx k).payload (convergenceInput (ctx k).activation) = .ok (c k)
  readable : ∀ k, (l.criterion.holds (c k)).isSome = true
  outputs : ∀ k, 2 < (ctx k).outputCount

variable {ctx : Nat → TaskContext} {d c : Nat → Payload}

theorem Reaches.of_le {j k : Nat} (h : l.Reaches ctx k) (hjk : j ≤ k) : l.Reaches ctx j :=
  fun i hi => h i (Nat.lt_of_lt_of_le hi hjk)

/-- What activation `k` leads to when it has been taken up as one of a loop that is running. -/
def outcome (l : LoopOperator) (n k : Nat) (d c : Payload) : Reply LoopOperator :=
  if l.EndsOn k c then
    { result := .ok ()
      emissions := (Emissions.none n).set 2 (some ⟨d, none⟩)
      memory := { l with iterations := k, state := .finished } }
  else
    { result := .ok ()
      emissions := ((Emissions.none n).set 0 (some ⟨d, none⟩)).set 1 (some ⟨c, none⟩)
      memory := { l with iterations := k, state := .running } }

theorem outcome_running_iff {n k : Nat} {d c : Payload} :
    (l.outcome n k d c).memory.state = .running ↔ ¬ l.EndsOn k c := by
  unfold outcome
  split <;> simp_all

/-- The result is emitted by an activation that ends the loop, and by no other. -/
theorem outcome_emits_iff {n k : Nat} {d c : Payload} (hn : 2 < n) :
    (∃ x, (l.outcome n k d c).emissions[2]? = some (some x)) ↔ l.EndsOn k c := by
  unfold outcome
  split
  · simp [Emissions.none, hn, ‹l.EndsOn k c›]
  · simp [Emissions.none, hn, ‹¬ l.EndsOn k c›]

/-- **One activation of a sequence**, of a loop operator that was left running by the one before. -/
theorem reply_eq_of_after (hs : l.Streams ctx d c) {k : Nat}
    (hafter : l.after ctx k =
      { l with iterations := k - 1, state := if k = 0 then .notStarted else .running }) :
    l.reply ctx k = l.outcome (ctx k).outputCount k (d k) (c k) := by
  have hplain : (ctx k).activation ≠ .plain := by
    rw [hs.activation, activationIn]
    split <;> simp
  have hstart : (l.after ctx k).state ≤ .running := by
    rw [hafter]
    simp only
    split <;> decide
  have htaken : (l.after ctx k).takenUp (ctx k).activation =
      { l with iterations := k, state := .running } := by
    rw [hafter, hs.activation, activationIn]
    by_cases hk : k = 0
    · simp [takenUp, hk]
    · simp [takenUp, hk, Nat.sub_add_cancel (Nat.pos_of_ne_zero hk)]
  unfold reply outcome
  rw [evaluate_eq hplain (fun _ => hstart) (hs.data k) (hs.convergence k), htaken]
  by_cases hends : l.EndsOn k (c k)
  · rw [if_pos hends]
    exact decide_ends hends (hs.readable k) (hs.outputs k)
  · rw [if_neg hends]
    exact decide_goes_on hends (hs.readable k) (hs.outputs k)

/-- A loop operator that is not in use yet. -/
structure IsFresh (l : LoopOperator) : Prop where
  iterations : l.iterations = 0
  state : l.state = .notStarted

/-- A fresh loop operator is, whenever the sequence goes on, one that is running and has counted the
iterations. -/
theorem after_eq (hl : l.IsFresh) (hs : l.Streams ctx d c) {k : Nat} (hk : l.Reaches ctx k) :
    l.after ctx k =
      { l with iterations := k - 1, state := if k = 0 then .notStarted else .running } := by
  induction k with
  | zero =>
    change l = _
    rw [if_pos rfl, ← hl.state, Nat.zero_sub, ← hl.iterations]
  | succ k ih =>
    have hrunning := hk k (Nat.lt_succ_self k)
    have hreply := reply_eq_of_after hs (ih (hk.of_le (Nat.le_succ k)))
    rw [hreply] at hrunning
    change (l.reply ctx k).memory = _
    rw [hreply, outcome, if_neg (outcome_running_iff.mp hrunning)]
    rfl

theorem reply_eq (hl : l.IsFresh) (hs : l.Streams ctx d c) {k : Nat} (hk : l.Reaches ctx k) :
    l.reply ctx k = l.outcome (ctx k).outputCount k (d k) (c k) :=
  reply_eq_of_after hs (after_eq hl hs hk)

/-- Activation `k` takes place iff none of the earlier ones ends the loop. -/
theorem reaches_iff (hl : l.IsFresh) (hs : l.Streams ctx d c) {k : Nat} :
    l.Reaches ctx k ↔ ∀ j < k, ¬ l.EndsOn j (c j) := by
  constructor
  · intro hk j hj
    have hrunning := hk j hj
    rw [reply_eq hl hs (hk.of_le (Nat.le_of_lt hj))] at hrunning
    exact outcome_running_iff.mp hrunning
  · intro hgoes
    induction k with
    | zero => exact fun j hj => absurd hj (Nat.not_lt_zero j)
    | succ k ih =>
      have hk := ih fun j hj => hgoes j (Nat.lt_succ_of_lt hj)
      intro j hj
      rcases Nat.lt_succ_iff_lt_or_eq.mp hj with hlt | rfl
      · exact hk j hlt
      · rw [reply_eq hl hs hk]
        exact outcome_running_iff.mpr (hgoes j hj)

theorem emitsOn_result_iff (hl : l.IsFresh) (hs : l.Streams ctx d c) {k : Nat}
    (hk : l.Reaches ctx k) : l.EmitsOn ctx k 2 ↔ l.EndsOn k (c k) := by
  unfold EmitsOn
  rw [reply_eq hl hs hk]
  exact outcome_emits_iff (hs.outputs k)

/-- Of the activations that take place, one ends the loop at most. -/
theorem eq_of_endsOn (hl : l.IsFresh) (hs : l.Streams ctx d c) {j k : Nat}
    (hj : l.Reaches ctx j) (hk : l.Reaches ctx k) (hjends : l.EndsOn j (c j))
    (hkends : l.EndsOn k (c k)) : j = k := by
  rcases Nat.lt_trichotomy j k with hlt | heq | hlt
  · exact absurd hjends ((reaches_iff hl hs).mp hk j hlt)
  · exact heq
  · exact absurd hkends ((reaches_iff hl hs).mp hj k hlt)

/-- If the loop would end at some time, then an activation that takes place ends it. -/
theorem existsUnique_result (hl : l.IsFresh) (hs : l.Streams ctx d c)
    (hends : ∃ k, l.EndsOn k (c k)) : ∃! k, l.Reaches ctx k ∧ l.EmitsOn ctx k 2 := by
  have hreached : l.Reaches ctx (Nat.find hends) :=
    (reaches_iff hl hs).mpr fun j hj => Nat.find_min hends hj
  refine ⟨Nat.find hends, ⟨hreached, (emitsOn_result_iff hl hs hreached).mpr (Nat.find_spec hends)⟩,
    fun k hk => ?_⟩
  exact eq_of_endsOn hl hs hk.1 hreached ((emitsOn_result_iff hl hs hk.1).mp hk.2)
    (Nat.find_spec hends)

/-- **A loop operator over a stream of data**: activation `k` ends the loop iff the allowed number of
iterations is reached or the criterion holds, and then emits the result and nothing else; otherwise it
emits the data of the next iteration. It has then counted `k` iterations. So there are no more
iterations than are allowed, the result is never emitted twice, and it is emitted if the sequence comes
to an end, as it does when the number of iterations is limited. -/
theorem evaluate_stream (l : LoopOperator) (ctx : Nat → TaskContext) (d c : Nat → Payload)
    (hl : l.IsFresh) (hs : l.Streams ctx d c) :
    (∀ k, l.Reaches ctx k → (l.reply ctx k).result = .ok () ∧
      (l.reply ctx k).memory.iterations = k ∧
      (l.EndsOn k (c k) → (l.reply ctx k).memory.state = .finished ∧ (l.reply ctx k).emissions =
        (Emissions.none (ctx k).outputCount).set 2 (some ⟨d k, none⟩)) ∧
      (¬ l.EndsOn k (c k) → (l.reply ctx k).memory.state = .running ∧ (l.reply ctx k).emissions =
        ((Emissions.none (ctx k).outputCount).set 0 (some ⟨d k, none⟩)).set 1
          (some ⟨c k, none⟩))) ∧
    (∀ max, l.maxIterations = some max → (∀ k, l.Reaches ctx k → k ≤ max) ∧
      ∃! k, l.Reaches ctx k ∧ l.EmitsOn ctx k 2) ∧
    (∀ j k, l.Reaches ctx j → l.Reaches ctx k → l.EmitsOn ctx j 2 → l.EmitsOn ctx k 2 → j = k) ∧
    ((∃ k, l.Reaches ctx k ∧ (l.reply ctx k).memory.state ≠ .running) →
      ∃! k, l.Reaches ctx k ∧ l.EmitsOn ctx k 2) := by
  refine ⟨fun k hk => ?_, fun max hmax => ⟨fun k hk => ?_, ?_⟩, fun j k hj hk hje hke => ?_, ?_⟩
  · rw [reply_eq hl hs hk]
    by_cases hends : l.EndsOn k (c k)
    · simp [outcome, hends]
    · simp [outcome, hends]
  · refine Nat.le_of_not_lt fun hlt => ?_
    exact (reaches_iff hl hs).mp hk max hlt (Or.inl ⟨max, hmax, Nat.le_refl max⟩)
  · exact existsUnique_result hl hs ⟨max, Or.inl ⟨max, hmax, Nat.le_refl max⟩⟩
  · exact eq_of_endsOn hl hs hj hk ((emitsOn_result_iff hl hs hj).mp hje)
      ((emitsOn_result_iff hl hs hk).mp hke)
  · rintro ⟨k, hk, hstate⟩
    rw [reply_eq hl hs hk, ne_eq, outcome_running_iff, not_not] at hstate
    exact existsUnique_result hl hs ⟨k, hstate⟩

/-- The activations of a loop that counts. -/
def rounds (k : Nat) : TaskContext :=
  uniformContext (activationIn k) (.number (UInt64.ofNat k))

theorem streams_rounds : untilTwo.Streams rounds (fun k => .number (UInt64.ofNat k))
    fun k => .number (UInt64.ofNat k) where
  activation _ := rfl
  data k := by cases k <;> rfl
  convergence k := by cases k <;> rfl
  readable _ := rfl
  outputs _ := (by decide : 2 < 3)

/-- A loop that counts ends with two, and emits nothing else than its data before. -/
theorem untilTwo_stream : untilTwo.IsFresh ∧ untilTwo.Reaches rounds 2 ∧
    (untilTwo.reply rounds 2).emissions = [none, none, some ⟨.number 2, none⟩] ∧
    (untilTwo.reply rounds 2).memory.iterations = 2 ∧
    ∃! k, untilTwo.Reaches rounds k ∧ untilTwo.EmitsOn rounds k 2 := by
  have hl : untilTwo.IsFresh := ⟨rfl, rfl⟩
  obtain ⟨hactivation, hlimit, -, -⟩ := evaluate_stream untilTwo rounds _ _ hl streams_rounds
  have hreached : untilTwo.Reaches rounds 2 :=
    (reaches_iff hl streams_rounds).mpr (by decide)
  obtain ⟨-, hiterations, hends, -⟩ := hactivation 2 hreached
  exact ⟨hl, hreached, (hends (by decide)).2, hiterations, (hlimit 5 rfl).2⟩

end Stream

end LoopOperator

end Dataflow
