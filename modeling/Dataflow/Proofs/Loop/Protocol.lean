import Dataflow.Proofs.Execution.Latest
import Dataflow.Proofs.Execution.Mirror
import Dataflow.Proofs.Loop.Nested.Outcome

/-!
# How a loop head is called

A loop head keeps its state in a cell that its own evaluations move on, and that the engine moves on
after an initialization that has succeeded. Whatever stages are executed, in whatever order and with
whatever outcome, a loop head is activated as its state asks for when it becomes ready, and nothing
happens to the state between that and the evaluation: a loop head is alone in its stage.

The evaluations of an operator are not part of what a machine keeps. They are seen by watching the
operator (`Behaviour.watching`), which keeps a list of them beside the memory of all operators and
changes nothing of what is executed (`Behaviour.mirrors_watching`), so that the result is about
operators of any kind.

* `Protocol`, `Protocol.call`: what is known of the evaluations of a loop head, and one more of them.
* `Behaviour.Turns`: what a stage execution does to a loop head, which is one evaluation at most.
* `push_watched`, **`executeStage_turns`**: one stage execution.
* `PreliminaryPlan.protocol_of_logs`: any number of them, by induction.
* **`PreliminaryPlan.reaches_protocol`**: the same for whoever watches.

Several tasks may have the operator, and they may be in different stages; the calls are those of all
of them together. The state is asked for when a task becomes ready and the evaluation comes later, so
it has to be seen that no other task with the operator is evaluated in between. It is not, because
each of them is a loop head and so alone in its stage.

The cell has to be the operator's own (`Behaviour.OwnsCell`): evaluations of other operators leave it
where it is. Nothing is asked of the outcome of stage executions. An initialization that fails leaves
the head as its own evaluation has left it, and if that has not started it, it may be initialized
again.
-/

namespace Dataflow

/-- What a loop head in some state is activated for. -/
def LoopState.activation? : LoopState → Option Activation
  | .notStarted => some .loopInitialization
  | .running => some .loopIteration
  | .finished => none

/-! ## Evaluations -/

/-- One evaluation of a loop head. -/
structure Call where
  activation : Activation
  succeeded : Bool
  /-- Where the loop head stood when it was evaluated. -/
  before : LoopState
  /-- Where its operator has left it. -/
  after : LoopState
  deriving DecidableEq, Repr

namespace Call

/-- An initialization that has succeeded. -/
def initializes (c : Call) : Bool := c.activation == .loopInitialization && c.succeeded

/-- Where the loop head stands when the engine has seen that it has started. -/
def settled (c : Call) : LoopState :=
  if c.initializes = true ∧ c.after = .notStarted then .running else c.after

variable {c : Call}

theorem after_le_settled : c.after ≤ c.settled := by
  unfold settled
  split
  · rename_i h
    rw [h.2]
    decide
  · exact LoopState.le_refl _

theorem running_le_settled (h : c.initializes = true) : .running ≤ c.settled := by
  unfold settled
  split
  · exact LoopState.le_refl _
  · rename_i hno
    exact LoopState.running_le fun hafter => hno ⟨h, hafter⟩

theorem activation_of_initializes (h : c.initializes = true) :
    c.activation = .loopInitialization := beq_iff_eq.mp (Bool.and_eq_true_iff.mp h).1

end Call

/-- The evaluations of a loop head so far, in order, and where it stands now. -/
structure Protocol (calls : List Call) (state : LoopState) : Prop where
  /-- The state never decreases, in an evaluation or otherwise. -/
  rises : ∀ c ∈ calls, c.before ≤ c.after ∧ c.after ≤ state
  ordered : calls.Pairwise fun c d => c.after ≤ d.before
  notPlain : ∀ c ∈ calls, c.activation ≠ .plain
  /-- A loop head is moved on by its initialization first. -/
  moved : state ≠ .notStarted → ∃ c ∈ calls, c.activation = .loopInitialization
  iterates : ∀ past c, past ++ [c] <+: calls → c.activation = .loopIteration →
    ∃ d ∈ past, d.activation = .loopInitialization
  once : calls.countP Call.initializes ≤ 1
  /-- After an initialization that has succeeded the loop head is running or has finished. -/
  started : (∃ c ∈ calls, c.initializes = true) → .running ≤ state
  starts : calls.Pairwise fun c d => c.initializes = true → .running ≤ d.before
  finished : ∀ c ∈ calls, c.before ≠ .finished

theorem protocol_nil : Protocol [] .notStarted :=
  ⟨nofun, List.Pairwise.nil, nofun, fun h => absurd rfl h,
    fun past c hc => absurd (List.prefix_nil.mp hc) (by simp), Nat.zero_le _, nofun,
    List.Pairwise.nil, nofun⟩

/-- **One more evaluation** of a loop head that is activated as its state asks for. -/
theorem Protocol.call {calls : List Call} {c : Call} (h : Protocol calls c.before)
    (hactivation : c.before.activation? = some c.activation) (hrises : c.before ≤ c.after) :
    Protocol (calls ++ [c]) c.settled := by
  have hnew : ∀ {P : Call → Prop}, (∀ d ∈ calls, P d) → P c → ∀ d ∈ calls ++ [c], P d :=
    fun hold hc d hd => (List.mem_append.mp hd).elim (hold d) fun hd => List.mem_singleton.mp hd ▸ hc
  have hlate : ∀ d ∈ calls, d.after ≤ c.before := fun d hd => (h.rises d hd).2
  -- an initialization finds the loop head where it was, and an iteration finds it running
  have hinit : c.activation = .loopInitialization → c.before = .notStarted := fun hc => by
    cases hb : c.before <;> simp [hb, hc, LoopState.activation?] at hactivation ⊢
  have hiterate : c.activation = .loopIteration → c.before ≠ .notStarted := fun hc hb => by
    simp [hb, hc, LoopState.activation?] at hactivation
  refine {
    rises := hnew (fun d hd => ⟨(h.rises d hd).1, ?rises⟩) ⟨hrises, Call.after_le_settled⟩
    ordered := ?ordered
    notPlain := hnew h.notPlain ?notPlain
    moved := fun _ => ?moved
    iterates := fun past d hd hit => ?iterates
    once := ?once
    started := ?started
    starts := ?starts
    finished := hnew h.finished ?unfinished }
  case rises =>
    exact LoopState.le_trans (hlate d hd) (LoopState.le_trans hrises Call.after_le_settled)
  case ordered =>
    exact List.pairwise_append.mpr ⟨h.ordered, List.pairwise_singleton _ _, fun d hd e he =>
      List.mem_singleton.mp he ▸ hlate d hd⟩
  case notPlain =>
    intro hplain
    cases hb : c.before <;> simp [hb, hplain, LoopState.activation?] at hactivation
  case moved =>
    by_cases hb : c.before = .notStarted
    · refine ⟨c, List.mem_append_right _ List.mem_cons_self, ?_⟩
      rw [hb] at hactivation
      exact (Option.some.inj hactivation).symm
    · obtain ⟨d, hd, hinit⟩ := h.moved hb
      exact ⟨d, List.mem_append_left _ hd, hinit⟩
  case iterates =>
    rcases List.prefix_concat_iff.mp hd with heq | hpast
    · obtain ⟨rfl, hcd⟩ := List.append_inj' heq rfl
      obtain rfl := List.singleton_inj.mp hcd
      exact h.moved (hiterate hit)
    · exact h.iterates past d hpast hit
  case once =>
    rw [List.countP_append, List.countP_singleton]
    split
    · rename_i hc
      have hnone : calls.countP Call.initializes = 0 := List.countP_eq_zero.mpr fun d hd hdi => by
        have hle := h.started ⟨d, hd, hdi⟩
        rw [hinit (Call.activation_of_initializes hc)] at hle
        exact absurd hle (by decide)
      rw [hnone]
    · exact h.once
  case started =>
    rintro ⟨d, hd, hdi⟩
    rcases List.mem_append.mp hd with hd | hd
    · exact LoopState.le_trans (h.started ⟨d, hd, hdi⟩)
        (LoopState.le_trans hrises Call.after_le_settled)
    · exact Call.running_le_settled (List.mem_singleton.mp hd ▸ hdi)
  case starts =>
    exact List.pairwise_append.mpr ⟨h.starts, List.pairwise_singleton _ _, fun d hd e he hdi =>
      List.mem_singleton.mp he ▸ h.started ⟨d, hd, hdi⟩⟩
  case unfinished =>
    intro hb
    rw [hb] at hactivation
    exact absurd hactivation nofun

/-! ## Watching an operator -/

/-- The operators' memory has a record of the evaluations of an operator, in order. -/
structure Behaviour.LogsCalls {ω : Type} (b : Behaviour ω) (o : ObjectId) (log : ω → List Call) :
    Prop where
  prepare : ∀ k ctx m, log (b.prepare k ctx m).memory = log m
  evaluate : ∀ ctx m, log (b.evaluate o ctx m).memory = log m ++
    [⟨ctx.activation, (b.evaluate o ctx m).result.isOk, b.loopState o m,
      b.loopState o (b.evaluate o ctx m).memory⟩]
  others : ∀ k, k ≠ o → ∀ ctx m, log (b.evaluate k ctx m).memory = log m
  advance : ∀ k s m, log (b.advance k s m).2 = log m

/-- An operator has its state as a loop head in a cell of its own: besides the engine only its
evaluations move it, and not back. -/
structure Behaviour.OwnsCell {ω : Type} (b : Behaviour ω) (o : ObjectId) : Prop where
  cell : b.HasCell o
  prepare : ∀ k ctx m, b.loopState o (b.prepare k ctx m).memory = b.loopState o m
  evaluate : ∀ ctx m, b.loopState o m ≤ b.loopState o (b.evaluate o ctx m).memory
  others : ∀ k, k ≠ o → ∀ ctx m, b.loopState o (b.evaluate k ctx m).memory = b.loopState o m
  advance : ∀ k, k ≠ o → ∀ s m, b.loopState o (b.advance k s m).2 = b.loopState o m

/-- The same operators, with a record of the evaluations of one of them beside their memory. -/
def Behaviour.watching {ω : Type} (b : Behaviour ω) (o : ObjectId) : Behaviour (ω × List Call) where
  prepare k ctx m :=
    let r := b.prepare k ctx m.1
    { result := r.result, emissions := r.emissions, touches := r.touches,
      memory := (r.memory, m.2) }
  evaluate k ctx m :=
    let r := b.evaluate k ctx m.1
    { result := r.result, emissions := r.emissions, touches := r.touches
      memory := (r.memory, if k = o then
        m.2 ++ [⟨ctx.activation, r.result.isOk, b.loopState o m.1, b.loopState o r.memory⟩]
        else m.2) }
  loopState k m := b.loopState k m.1
  advance k s m := ((b.advance k s m.1).1, (b.advance k s m.1).2, m.2)

/-- Every operator can be watched. -/
theorem Behaviour.logsCalls_watching {ω : Type} (b : Behaviour ω) (o : ObjectId) :
    (b.watching o).LogsCalls o Prod.snd :=
  ⟨fun _ _ _ => rfl, fun _ _ => if_pos rfl, fun _ hne _ _ => if_neg hne, fun _ _ _ => rfl⟩

/-- Being watched changes nothing of what is executed. -/
theorem Behaviour.mirrors_watching {ω : Type} (b : Behaviour ω) (o : ObjectId) :
    (b.watching o).Mirrors b Prod.fst :=
  ⟨fun _ _ _ => rfl, fun _ _ _ => rfl, fun _ _ => rfl, fun _ _ _ => rfl⟩

theorem Behaviour.OwnsCell.watching {ω : Type} {b : Behaviour ω} {o : ObjectId} (h : b.OwnsCell o)
    (k : ObjectId) : (b.watching k).OwnsCell o :=
  ⟨⟨fun s m hs => h.cell.advance s m.1 hs, fun s m hs => ⟨(h.cell.refuse s m.1 hs).1,
      Prod.ext (h.cell.refuse s m.1 hs).2 rfl⟩⟩,
    fun k ctx m => h.prepare k ctx m.1, fun ctx m => h.evaluate ctx m.1,
    fun k hne ctx m => h.others k hne ctx m.1, fun k hne s m => h.advance k hne s m.1⟩

/-! ## One stage execution -/

section Turns

variable {ω : Type} {b : Behaviour ω} {o : ObjectId} {log : ω → List Call} {m m₁ m' : ω}

/-- An operator is not evaluated and stays where it stands. -/
structure Behaviour.Rests (b : Behaviour ω) (o : ObjectId) (log : ω → List Call) (m m' : ω) :
    Prop where
  log : log m' = log m
  state : b.loopState o m' = b.loopState o m

/-- A loop head is evaluated once, as its state asks for, or not at all. -/
inductive Behaviour.Turns (b : Behaviour ω) (o : ObjectId) (log : ω → List Call) (m m' : ω) : Prop
  | rests (h : b.Rests o log m m')
  | called (c : Call) (hbefore : c.before = b.loopState o m)
      (hactivation : c.before.activation? = some c.activation) (hrises : c.before ≤ c.after)
      (hlog : log m' = log m ++ [c]) (hstate : b.loopState o m' = c.settled)

namespace Behaviour

theorem Rests.refl : b.Rests o log m m := ⟨rfl, rfl⟩

theorem Rests.trans (h : b.Rests o log m m₁) (h' : b.Rests o log m₁ m') : b.Rests o log m m' :=
  ⟨h'.log.trans h.log, h'.state.trans h.state⟩

theorem Rests.turns (h : b.Rests o log m m₁) (h' : b.Turns o log m₁ m') : b.Turns o log m m' := by
  cases h' with
  | rests h' => exact .rests (h.trans h')
  | called c hbefore hactivation hrises hlog hstate =>
    exact .called c (hbefore.trans h.state) hactivation hrises (hlog.trans (by rw [h.log])) hstate

theorem Turns.rests_after (h : b.Turns o log m m₁) (h' : b.Rests o log m₁ m') :
    b.Turns o log m m' := by
  cases h with
  | rests h => exact .rests (h.trans h')
  | called c hbefore hactivation hrises hlog hstate =>
    exact .called c hbefore hactivation hrises (h'.log.trans hlog) (h'.state.trans hstate)

theorem Turns.protocol (h : b.Turns o log m m') (hm : Protocol (log m) (b.loopState o m)) :
    Protocol (log m') (b.loopState o m') := by
  cases h with
  | rests h =>
    rw [h.log, h.state]
    exact hm
  | called c hbefore hactivation hrises hlog hstate =>
    rw [hlog, hstate]
    rw [← hbefore] at hm
    exact hm.call hactivation hrises

/-- Whatever happens to a loop head, it is not taken back, and once it has finished it is not
evaluated any more. -/
theorem Turns.onward (h : b.Turns o log m m') : log m <+: log m' ∧
    b.loopState o m ≤ b.loopState o m' ∧ (b.loopState o m = .finished → log m' = log m) := by
  cases h with
  | rests h =>
    rw [h.log, h.state]
    exact ⟨List.prefix_rfl, LoopState.le_refl _, fun _ => rfl⟩
  | called c hbefore hactivation hrises hlog hstate =>
    rw [hlog, hstate, ← hbefore]
    refine ⟨List.prefix_append _ _, LoopState.le_trans hrises Call.after_le_settled, fun hb => ?_⟩
    rw [hb] at hactivation
    exact absurd hactivation nofun

end Behaviour

end Turns

namespace Workspace

section Watched

variable {ω : Type} {p : Plan} {b : Behaviour ω} {s : StageId} {state : ExecutionState}
  {l₀ : Ledger} {fed : Consumer → Prop} {done : List TaskId} {w w' : Workspace ω} {a : Activator}
  {activation : Activation} {o : ObjectId} {log : ω → List Call} {m m₀ : ω} {e : ExecutionError}
  {reply : Except OperatorError Emissions} {out : Emissions}

/-- A loop head becomes ready for what its state asks for. -/
theorem activation_of_readiness (hhead : (p.graph.task a.task).isLoopHead = true)
    (h : a.readiness p.graph b m = some activation) :
    (p.loopState b m a.task).activation? = some activation := by
  obtain ⟨roles, hroles⟩ := Option.isSome_iff_exists.mp hhead
  unfold Activator.readiness readiness at h
  rw [hroles] at h
  change (p.graph.loopState b m a.task).activation? = _
  cases hstate : p.graph.loopState b m a.task <;> rw [hstate] at h <;> simp only at h
  · split at h
    · exact h
    · exact absurd h nofun
  · split at h
    · exact h
    · exact absurd h nofun
  · exact absurd h nofun

section Operators

variable (hcell : b.OwnsCell o) (hlog : b.LogsCalls o log)
include hcell hlog

/-! ### Other operators -/

theorem Computes.rests (hne : (p.graph.task a.task).operator.object ≠ o)
    (h : Computes p b a activation w w' reply) : b.Rests o log w.memory w'.memory := by
  cases h with
  | prepared _ _ hmemory =>
    rw [hmemory]
    exact ⟨hlog.prepare _ _ _, hcell.prepare _ _ _⟩
  | evaluated _ _ hm _ _ _ hr hmemory =>
    rw [hmemory, hr, hm]
    exact ⟨(hlog.others _ hne _ _).trans (hlog.prepare _ _ _),
      (hcell.others _ hne _ _).trans (hcell.prepare _ _ _)⟩

theorem Performs.rests (hne : (p.graph.task a.task).operator.object ≠ o)
    (h : Performs p b a activation w out m) : b.Rests o log w.memory m := by
  obtain ⟨w₁, hcomputes, hfollowed⟩ := h
  have h₁ := hcomputes.rests hcell hlog hne
  unfold Followed at hfollowed
  split at hfollowed
  · split at hfollowed
    · obtain ⟨old, hadvance⟩ := hfollowed
      have hl := hlog.advance (p.graph.task a.task).operator.object .running w₁.memory
      have hs := hcell.advance _ hne .running w₁.memory
      rw [hadvance] at hl hs
      exact h₁.trans ⟨hl, hs⟩
    · exact hfollowed ▸ h₁
  · exact hfollowed ▸ h₁

theorem Refuses.rests (hne : (p.graph.task a.task).operator.object ≠ o)
    (h : Refuses p b s a activation w m e) : b.Rests o log w.memory m := by
  cases h with
  | operator hcomputes hm => exact hm ▸ hcomputes.rests hcell hlog hne
  | @start _ w₁ _ hcomputes _ _ _ hadvance =>
    have hl := hlog.advance (p.graph.task a.task).operator.object .running w₁.memory
    have hs := hcell.advance _ hne .running w₁.memory
    rw [hadvance] at hl hs
    exact (hcomputes.rests hcell hlog hne).trans ⟨hl, hs⟩
  | giveBack hcomputes hm => exact hm ▸ hcomputes.rests hcell hlog hne
  | giveBackDone hperforms => exact hperforms.rests hcell hlog hne

/-! ### The loop head -/

/-- The operator of the loop head is not ready for it, or it is evaluated. -/
theorem Computes.called (heq : (p.graph.task a.task).operator.object = o)
    (h : Computes p b a activation w w' reply) :
    (b.Rests o log w.memory w'.memory ∧ reply.isOk = false) ∨
      ∃ c : Call, c.activation = activation ∧ c.succeeded = reply.isOk ∧
        c.before = b.loopState o w.memory ∧ c.before ≤ c.after ∧
        log w'.memory = log w.memory ++ [c] ∧ b.loopState o w'.memory = c.after := by
  cases h with
  | prepared _ _ hmemory =>
    rw [hmemory]
    exact Or.inl ⟨⟨hlog.prepare _ _ _, hcell.prepare _ _ _⟩, rfl⟩
  | @evaluated _ ctx _ m r _ _ hm _ _ hshown hr hmemory =>
    rw [heq] at hr
    refine Or.inr ⟨⟨ctx.activation, r.result.isOk, b.loopState o m, b.loopState o r.memory⟩,
      hshown.activation, ?_, ?_, ?_, ?_, by rw [hmemory]⟩
    · cases r.result <;> rfl
    · rw [hm]
      exact hcell.prepare _ _ _
    · rw [hr]
      exact hcell.evaluate _ _
    · rw [hmemory, hr, hlog.evaluate, hm, hlog.prepare]

theorem Performs.turns (heq : (p.graph.task a.task).operator.object = o)
    (hhead : (p.graph.task a.task).isLoopHead = true)
    (hfits : (b.loopState o w.memory).activation? = some activation)
    (h : Performs p b a activation w out m) : b.Turns o log w.memory m := by
  obtain ⟨w₁, hcomputes, hfollowed⟩ := h
  rcases hcomputes.called hcell hlog heq with ⟨-, hno⟩ | ⟨c, rfl, hok, hbefore, hrises, hl, hs⟩
  · exact absurd hno nofun
  have hok' : c.succeeded = true := hok
  have hinit : c.initializes = true ↔ c.activation = .loopInitialization := by
    unfold Call.initializes
    rw [hok', Bool.and_true, beq_iff_eq]
  rw [if_pos hhead] at hfollowed
  unfold Followed at hfollowed
  rw [heq, hs] at hfollowed
  split at hfollowed
  · rename_i hstart
    obtain ⟨old, hadvance⟩ := hfollowed
    -- the engine starts the loop head itself
    have hmoved := (hcell.cell.advance .running w₁.memory (by rw [hs, hstart.2]; decide)).2
    have hlogged := hlog.advance o .running w₁.memory
    rw [hadvance] at hmoved hlogged
    refine .called c hbefore (hbefore ▸ hfits) hrises (hlogged.trans hl) (hmoved.trans ?_)
    exact (if_pos ⟨hinit.mpr hstart.1, hstart.2⟩).symm
  · rename_i hno
    rw [hfollowed]
    exact .called c hbefore (hbefore ▸ hfits) hrises hl
      (hs.trans (if_neg fun h => hno ⟨hinit.mp h.1, h.2⟩).symm)

theorem Refuses.turns (heq : (p.graph.task a.task).operator.object = o)
    (hhead : (p.graph.task a.task).isLoopHead = true)
    (hfits : (b.loopState o w.memory).activation? = some activation)
    (h : Refuses p b s a activation w m e) : b.Turns o log w.memory m := by
  have hfailed : ∀ {cause : OperatorError} {w₁ : Workspace ω},
      Computes p b a activation w w₁ (.error cause) → b.Turns o log w.memory w₁.memory := by
    intro cause w₁ hcomputes
    rcases hcomputes.called hcell hlog heq with ⟨hrests, -⟩ | ⟨c, rfl, hok, hbefore, hrises, hl, hs⟩
    · exact .rests hrests
    · refine .called c hbefore (hbefore ▸ hfits) hrises hl (hs.trans (if_neg fun h => ?_).symm)
      have hsucceeded := (Bool.and_eq_true_iff.mp h.1).2
      exact absurd (hok.symm.trans hsucceeded) nofun
  cases h with
  | operator hcomputes hm => exact hm ▸ hfailed hcomputes
  | @start _ w₁ _ _ _ _ hstate hadvance =>
    -- a cell does not refuse to be started
    rw [heq] at hstate hadvance
    have hok := (hcell.cell.advance .running w₁.memory (by rw [hstate]; decide)).1
    rw [hadvance] at hok
    exact absurd hok nofun
  | giveBack hcomputes hm => exact hm ▸ hfailed hcomputes
  | giveBackDone hperforms => exact hperforms.turns hcell hlog heq hhead hfits

end Operators

/-! ### The push -/

/-- A task of an operator is a loop head and alone in its stage. -/
def Solitary (p : Plan) (s : StageId) (o : ObjectId) : Prop :=
  ∀ t ∈ (p.stage s).tasks, (p.graph.task t).operator.object = o →
    (p.graph.task t).isLoopHead = true ∧ ∀ u ∈ (p.stage s).tasks, u = t

/-- What is known of a loop head in a push that began with the memory `m₀`. While it is ready, nothing
has happened to it, and it is ready for what its state asks for. -/
structure Watched (p : Plan) (b : Behaviour ω) (o : ObjectId) (log : ω → List Call) (m₀ : ω)
    (w : Workspace ω) : Prop where
  turns : b.Turns o log m₀ w.memory
  ready : ∀ r ∈ w.run.ready, (p.graph.task r.1.task).operator.object = o →
    b.Rests o log m₀ w.memory ∧ (b.loopState o w.memory).activation? = some r.2

theorem Watched.of_ready (h : Watched p b o log m₀ w) (hmemory : w'.memory = w.memory)
    (hready : ∀ r ∈ w'.run.ready, r ∈ w.run.ready ∨
      (p.graph.task r.1.task).operator.object ≠ o) : Watched p b o log m₀ w' := by
  refine ⟨hmemory ▸ h.turns, fun r hr heq => ?_⟩
  rw [hmemory]
  exact h.ready r ((hready r hr).resolve_right fun hne => hne heq) heq

/-- Feeding an input of another task. -/
theorem feed_watched {k : Consumer} {x : InstanceId} (h : Watched p b o log m₀ w)
    (hne : (p.graph.task k.task).operator.object ≠ o) :
    Ends (feed p b state k.task k.input x) w (fun _ w' => Watched p b o log m₀ w')
      fun _ w' => b.Turns o log m₀ w'.memory := by
  refine feed_ends (fun {a w₁ l} hw _ _ => h.of_ready hw.memory fun r hr => ?_)
    fun _ _ hmemory => hmemory ▸ h.turns
  have htask : a.task = k.task := by
    cases hw with
    | found hfind => simpa using List.find?_some hfind
    | made _ htask => exact htask
  rcases mem_ready_settle.mp hr with hr | ⟨hr, -⟩
  · cases hw with
    | found => exact Or.inl hr
    | made => exact Or.inl hr
  · refine Or.inr ?_
    rw [hr]
    exact htask ▸ hne

/-- A task that waits for an input from its stage is not the loop head. -/
theorem Awaited.object_ne (hp : p.IsOrderly s) (hs : Solitary p s o) {c : ChannelId} {k : Consumer}
    (hk : Awaited p s fed c k) : (p.graph.task k.task).operator.object ≠ o := fun heq => by
  have hhead := (hs _ hk.mem heq).1
  unfold Task.isLoopHead Operator.isLoopHead at hhead
  rw [hk.plain hp] at hhead
  exact absurd hhead nofun

section Push

variable (hcell : b.OwnsCell o) (hlog : b.LogsCalls o log) (hp : p.IsOrderly s)
  (hs : Solitary p s o)
include hcell hlog hp hs

/-- Executing the first ready activator. -/
theorem executeTask_watched (ho : Once p s state l₀ (fedBy p s done) done w)
    (h : Watched p b o log m₀ w) {rest : List (Activator × Activation)}
    (hready : w.run.ready = (a, activation) :: rest) :
    Ends (executeTask p b s state a activation) { w with run := { w.run with ready := rest } }
      (fun _ w' => Watched p b o log m₀ w') fun _ w' => b.Turns o log m₀ w'.memory := by
  obtain ⟨-, ht, hnodup⟩ := ho.head_ready hready
  refine executeTask_ends hp.wired (fun is w' hd => ?_) fun e w' hr => ?_
  · obtain ⟨out, hperforms, -⟩ := hd.performs
    have hrest : ∀ r ∈ w'.run.ready, r ∈ rest := fun r hr => by rwa [hd.run] at hr
    have hnext : Watched p b o log m₀ w' := by
      by_cases heq : (p.graph.task a.task).operator.object = o
      · obtain ⟨hrests, hfits⟩ := h.ready _ (hready ▸ List.mem_cons_self) heq
        obtain ⟨hhead, halone⟩ := hs _ ht heq
        refine ⟨hrests.turns (hperforms.turns hcell hlog heq hhead hfits), fun r hr _ => ?_⟩
        -- there is no other task in the stage
        have hmem : r.1 ∈ w.run.staged ++ rest.map Prod.fst :=
          List.mem_append_right _ (List.mem_map_of_mem (hrest r hr))
        have hin : r.1.task ∈ (p.stage s).tasks := ho.tasks _ (List.mem_append_right _ (by
          unfold StageRun.activators
          rw [hready]
          exact List.mem_map_of_mem (List.mem_append_right _
            (List.mem_cons_of_mem _ (List.mem_map_of_mem (hrest r hr))))))
        have hsame := halone _ hin
        exact absurd hsame.symm ((List.nodup_append.mp hnodup).2.2 _
          (List.mem_append_right _ List.mem_cons_self) _ (List.mem_map_of_mem hmem))
      · have hrests := hperforms.rests hcell hlog heq
        refine ⟨h.turns.rests_after hrests, fun r hr heq' => ?_⟩
        obtain ⟨hold, hfits⟩ := h.ready r (hready ▸ List.mem_cons_of_mem _ (hrest r hr)) heq'
        exact ⟨hold.trans hrests, hrests.state ▸ hfits⟩
    exact (ho.feedAll_ends hp hready hd (I := fun _ w => Watched p b o log m₀ w)
      (fun _ _ hwatched hk => feed_watched hwatched (hk.object_ne hp hs)) hnext).mono
      (fun _ _ h' => h'.2.1) fun _ _ h' => h'
  · by_cases heq : (p.graph.task a.task).operator.object = o
    · obtain ⟨hrests, hfits⟩ := h.ready _ (hready ▸ List.mem_cons_self) heq
      exact hrests.turns (hr.refuses.turns hcell hlog heq (hs _ ht heq).1 hfits)
    · exact h.turns.rests_after (hr.refuses.rests hcell hlog heq)

/-- **A push evaluates a loop head at most once**, and then as its state asks for. -/
theorem push_watched (hrun : w.run = {}) : Ends (push p b s state) w
    (fun _ w' => b.Turns o log w.memory w'.memory) fun _ w' => b.Turns o log w.memory w'.memory := by
  have hseed : Ends (seed p b s state (p.stage s).startTasks) w
      (fun _ w' => Watched p b o log w.memory w') fun _ w' => b.Turns o log w.memory w'.memory := by
    refine (seed_ends (I := fun ts w' => (∀ t ∈ ts, t ∈ (p.stage s).tasks) ∧
      w'.memory = w.memory ∧ Watched p b o log w.memory w') ?_ ?_ ⟨hp.start, rfl, .rests .refl, ?_⟩).mono
        (fun _ _ h => h.2.2) fun _ _ h => h
    · rintro ts w₁ a l activation ⟨hts, hmemory, h⟩ - - hnext
      refine ⟨fun t ht => hts t (List.mem_cons_of_mem _ ht), hmemory, h.turns, fun r hr heq => ?_⟩
      rcases List.mem_append.mp hr with hr | hr
      · exact h.ready r hr heq
      · obtain rfl := List.mem_singleton.mp hr
        have hhead := (hs _ (hts _ List.mem_cons_self) heq).1
        refine ⟨?_, ?_⟩
        · change b.Rests o log w.memory w₁.memory
          exact hmemory ▸ .refl
        · subst heq
          exact activation_of_readiness hhead hnext
    · rintro ts e w₁ w' ⟨-, -, h⟩ - - hmemory
      exact hmemory ▸ h.turns
    · rw [hrun]
      exact nofun
  refine Ends.bind (((seed_start (fedBy p s []) hp hrun).and hseed).mono (fun _ _ h => h)
    fun _ _ h => h.2) ?_
  rintro _ w₁ ⟨ho, h⟩
  refine (drain_ends (I := fun _ w' => (∃ done, Once p s state w.ledger (fedBy p s done) done w') ∧
    Watched p b o log w.memory w') (E := fun _ w' => b.Turns o log w.memory w'.memory) ?_
    ⟨⟨[], ho⟩, h⟩).mono ?_ fun _ _ h => h
  · rintro _ w₂ a activation rest ⟨⟨done, ho⟩, h⟩ hready
    refine ((executeTask_once hp ho hready).and
      (executeTask_watched hcell hlog hp hs ho h hready)).mono ?_ fun _ _ h => h.2
    exact fun _ _ h => ⟨⟨_, h.1⟩, h.2⟩
  · rintro _ w' ⟨-, ⟨-, h⟩, -⟩
    exact h.turns

end Push

end Watched

end Workspace

/-- **A stage execution evaluates a loop head at most once**, and then as its state asks for, however
it ends. -/
theorem executeStage_turns {ω : Type} {p : Plan} {b : Behaviour ω} {s : StageId} {o : ObjectId}
    {log : ω → List Call} (hcell : b.OwnsCell o) (hlog : b.LogsCalls o log) (hp : p.IsOrderly s)
    (hs : Workspace.Solitary p s o) (config : ExecutorConfig) (m : Machine ω) :
    b.Turns o log m.memory (p.executeStage b config s m).2.memory :=
  executeStage_memory hp (C := fun memory => b.Turns o log m.memory memory)
    (Workspace.push_watched (w := m.entering p s) hcell hlog hp hs rfl)

/-! ## All stage executions -/

namespace PreliminaryPlan

variable {ω : Type} {p : PreliminaryPlan} {plan : Plan} {b : Behaviour ω} {m₀ m : Machine ω}
  {o : ObjectId} {log : ω → List Call}

/-- A loop head is alone in its stage. -/
theorem solitary_of_assign (hg : p.graph.Built) (h : p.assign = .ok plan)
    (hheads : ∀ t, p.Needs t → (p.graph.task t).operator.object = o →
      (p.graph.task t).isLoopHead = true) {s : StageId} (hlt : s < plan.stages.length) :
    Workspace.Solitary plan s o := by
  obtain ⟨hs, -⟩ := assign_eq_ok hg h
  obtain ⟨r, -, hfin⟩ := finished_of_assign hg h
  intro t ht heq
  have hhead : (plan.graph.task t).isLoopHead = true := by
    rw [hfin.isLoopHead]
    exact hheads t (needs_of_mem_stage hg h ht) (hfin.operator t ▸ heq)
  refine ⟨hhead, fun u hu => ?_⟩
  rw [hfin.tasks_eq_singleton (isScope_plannedTasks hg.wired hs) (hfin.length_stages ▸ hlt) ht hhead]
    at hu
  exact List.mem_singleton.mp hu

/-- What operators record of the evaluations of a loop head among them, by whatever stage executions. -/
theorem protocol_of_logs (hg : p.graph.Built) (h : p.assign = .ok plan)
    (hheads : ∀ t, p.Needs t → (p.graph.task t).operator.object = o →
      (p.graph.task t).isLoopHead = true)
    (hcell : b.OwnsCell o) (hlog : b.LogsCalls o log) (hstart : b.loopState o m₀.memory = .notStarted)
    (hnone : log m₀.memory = []) (hm : plan.Reaches b m₀ m) :
    Protocol (log m.memory) (b.loopState o m.memory) ∧ ∀ m', plan.Reaches b m m' →
      log m.memory <+: log m'.memory ∧ b.loopState o m.memory ≤ b.loopState o m'.memory ∧
      (b.loopState o m.memory = .finished → log m'.memory = log m.memory) := by
  have hturns : ∀ (config : ExecutorConfig) {s : StageId}, s < plan.stages.length →
      ∀ m : Machine ω, b.Turns o log m.memory (plan.executeStage b config s m).2.memory :=
    fun config s hlt m => executeStage_turns hcell hlog (isOrderly_of_assign hg h hlt).1
      (solitary_of_assign hg h hheads hlt) config m
  refine ⟨?_, fun m' hm' => ?_⟩
  · induction hm with
    | refl =>
      rw [hnone, hstart]
      exact protocol_nil
    | step config hlt _ ih => exact (hturns config hlt _).protocol ih
  · induction hm' with
    | refl => exact ⟨List.prefix_rfl, LoopState.le_refl _, fun _ => rfl⟩
    | step config hlt _ ih =>
      obtain ⟨hpast, hle, hdone⟩ := ih
      obtain ⟨hpast', hle', hdone'⟩ := (hturns config hlt _).onward
      refine ⟨hpast.trans hpast', LoopState.le_trans hle hle', fun hfinished => ?_⟩
      rw [hfinished] at hle
      exact (hdone' (LoopState.le_antisymm (LoopState.le_finished _) hle)).trans (hdone hfinished)

/-- **How a loop head is called**: by whatever stage executions, in whatever order and with whatever
outcome, and however many tasks have its operator. It is initialized first, and only once with
success, which starts it; then it iterates until it has finished, and after that it is not evaluated
any more. This is what one sees who watches the loop head, and what operators record that keep a
record of it themselves. -/
theorem reaches_protocol (hg : p.graph.Built) (h : p.assign = .ok plan)
    (hheads : ∀ t, p.Needs t → (p.graph.task t).operator.object = o →
      (p.graph.task t).isLoopHead = true)
    (hcell : b.OwnsCell o) (hstart : b.loopState o m₀.memory = .notStarted)
    (hm : plan.Reaches b m₀ m) :
    (∃ calls, plan.Reaches (b.watching o) (m₀.beside []) (m.beside calls) ∧
      Protocol calls (b.loopState o m.memory) ∧ ∀ m', plan.Reaches b m m' →
        ∃ later, plan.Reaches (b.watching o) (m.beside calls) (m'.beside (calls ++ later)) ∧
          b.loopState o m.memory ≤ b.loopState o m'.memory ∧
          (b.loopState o m.memory = .finished → later = [])) ∧
    ∀ log, b.LogsCalls o log → log m₀.memory = [] →
      Protocol (log m.memory) (b.loopState o m.memory) ∧ ∀ m', plan.Reaches b m m' →
        log m.memory <+: log m'.memory ∧ b.loopState o m.memory ≤ b.loopState o m'.memory ∧
        (b.loopState o m.memory = .finished → log m'.memory = log m.memory) := by
  refine ⟨?_, fun log hlog hnone => protocol_of_logs hg h hheads hcell hlog hstart hnone hm⟩
  have hmirrors : (b.watching o).Mirrors b Prod.fst := b.mirrors_watching o
  have hunwatched : plan.Reaches b ((m₀.beside ([] : List Call)).map Prod.fst) m := hm
  have hfresh : (b.watching o).loopState o (m₀.beside ([] : List Call)).memory = .notStarted := hstart
  obtain ⟨w, hw, rfl⟩ := hmirrors.exists_reaches hunwatched
  obtain ⟨hprotocol, hlater⟩ := protocol_of_logs hg h hheads (hcell.watching o)
    (b.logsCalls_watching o) hfresh rfl hw
  refine ⟨w.memory.2, hw, hprotocol, fun m' hm' => ?_⟩
  obtain ⟨w', hw', rfl⟩ := hmirrors.exists_reaches hm'
  obtain ⟨⟨later, hcalls⟩, hle, hdone⟩ := hlater w' hw'
  refine ⟨later, ?_, hle, fun hfinished => ?_⟩
  · rw [hcalls]
    exact hw'
  · have hsame := hdone hfinished
    rw [← hcalls] at hsame
    exact List.append_right_eq_self.mp hsame

end PreliminaryPlan

/-! ## Two tasks with one loop head -/

section WithLoops

variable {b : Behaviour Unit} {os : List ObjectId} {o : ObjectId}

theorem hasCell_withLoops : (b.withLoops os).HasCell o := by
  refine ⟨fun s ls h => ?_, fun s ls h => ?_⟩
  · have hadvance : (ls o).state.advance s = .ok s := LoopState.advance_eq_ok_iff.mpr ⟨h, rfl⟩
    unfold Behaviour.withLoops
    simp only [hadvance, Function.update_self]
    exact ⟨trivial, trivial⟩
  · have hadvance : (ls o).state.advance s = .error ⟨(ls o).state, s⟩ := if_neg h
    unfold Behaviour.withLoops
    simp only [hadvance]
    exact ⟨trivial, trivial⟩

/-- Loop operators beside each other have their states for themselves. -/
theorem ownsCell_withLoops (ho : o ∈ os) : (b.withLoops os).OwnsCell o := by
  refine ⟨hasCell_withLoops, fun k ctx ls => ?_, fun ctx ls => ?_, fun k hne ctx ls => ?_,
    fun k hne s ls => ?_⟩
  · unfold Behaviour.withLoops
    simp only
    split <;> rfl
  · unfold Behaviour.withLoops
    simp only [ho, if_true, Function.update_self]
    exact (ls o).state_le_evaluate ctx
  · exact congrArg LoopOperator.state (Behaviour.keeps_withLoops hne ctx ls).2
  · unfold Behaviour.withLoops
    simp only
    split
    · exact congrArg LoopOperator.state (Function.update_of_ne hne.symm _ _)
    · rfl

end WithLoops

/-- Two tasks have the same operator, which reads everything from a third one. -/
def shared : PreliminaryPlan := .ofGraph
  (((((((((((TaskGraph.empty.addTask
    { object := 0, name := "read", platform := ⟨"a"⟩, inputs := [], outputs := [.any] }).addTask
    (twice.declaration 1)).addTask (twice.declaration 1)).wire
      0 0 1 0 .collection).wire 0 0 1 1 .collection).wire 0 0 1 2 .collection).wire
      0 0 1 3 .collection).wire 0 0 2 0 .collection).wire 0 0 2 1 .collection).wire
      0 0 2 2 .collection).wire 0 0 2 3 .collection)

theorem built_shared : shared.graph.Built :=
  .wire (.wire (.wire (.wire (.wire (.wire (.wire (.wire (.addTask _ (.addTask _ (.addTask _
    .empty))) rfl) rfl) rfl) rfl) rfl) rfl) rfl) rfl

/-- Of six stage executions the first and the last one fail. The loop is started through one task and
goes on through the other one. -/
theorem shared_protocol : ∃ plan m, shared.assign = .ok plan ∧
    plan.executeEach ((adding.withLoops [1]).watching 1) {} [1, 0, 1, 2, 1, 2]
      { memory := (fun _ => twice, []) } = m ∧
    m.2.memory.2.map Call.activation = [.loopInitialization, .loopIteration, .loopIteration] ∧
    Protocol m.2.memory.2 (((adding.withLoops [1]).watching 1).loopState 1 m.2.memory) := by
  obtain ⟨plan, hplan, hlen, hcalls⟩ : ∃ plan, shared.assign = .ok plan ∧ plan.stages.length = 3 ∧
      (plan.executeEach ((adding.withLoops [1]).watching 1) {} [1, 0, 1, 2, 1, 2]
        { memory := (fun _ => twice, []) }).2.memory.2.map Call.activation =
          [.loopInitialization, .loopIteration, .loopIteration] :=
    PreliminaryPlan.exists_assign_of_decide (by decide +kernel)
  have hstages : ∀ s ∈ [1, 0, 1, 2, 1, 2], s < plan.stages.length := by
    rw [hlen]
    decide
  have hheads : ∀ t, shared.Needs t → (shared.graph.task t).operator.object = 1 →
      (shared.graph.task t).isLoopHead = true := fun t _ ht => by
    rcases t with _ | _ | _ | t
    · exact absurd ht (by decide)
    · rfl
    · rfl
    · exact absurd ht Nat.zero_ne_one
  have hreaches : plan.Reaches ((adding.withLoops [1]).watching 1) { memory := (fun _ => twice, []) }
      (plan.executeEach ((adding.withLoops [1]).watching 1) {} [1, 0, 1, 2, 1, 2]
        { memory := (fun _ => twice, []) }).2 := .executeEach {} hstages .refl
  obtain ⟨-, hlogs⟩ := PreliminaryPlan.reaches_protocol built_shared hplan hheads
    ((ownsCell_withLoops List.mem_cons_self).watching 1) rfl hreaches
  exact ⟨plan, _, hplan, rfl, hcalls,
    (hlogs Prod.snd (Behaviour.logsCalls_watching (adding.withLoops [1]) 1) rfl).1⟩

end Dataflow
