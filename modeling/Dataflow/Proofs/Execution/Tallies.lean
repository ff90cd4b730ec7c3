import Dataflow.Proofs.Execution.Handling
import Dataflow.Proofs.Execution.Idle

/-!
# What a push owes

Operators may obtain references and release others that are not theirs, so that on some instance
there can be fewer references than a stage execution holds. The count is right all the same, if what
operators did is counted with its sign (`Ledger.Tallies`). As long as a push succeeds it holds what
it has obtained and created. It fails with less in hand only where an operator's release has left an
instance short (`Overdrawn`), or by the references on the inputs of a loop head that has refused to
start.

* `Ledger.Tallies`, `Overdrawn`: a count with a sign, and what makes the engine's operations fail.
* `Books`: the accounts of a push, with the number of references that were obtained.
* `feedAll_owes`, `executeTask_books`, `seed_books`: the steps.
* **`push_books`**: a whole push, whatever the operators do.
-/

namespace Dataflow

open Handling

/-! ## Counts with a sign -/

/-- Every instance has the references that `due` says and one for each time that it is in `held`. -/
def Ledger.Tallies (l : Ledger) (due : InstanceId → Int) (held : List InstanceId) : Prop :=
  ∀ i, ((l.get i).references : Int) = due i + held.count i

/-- Not even the references are left that are nobody's in a stage execution: fewer than none on some
instance, or none on one that is published. -/
def Overdrawn (state : ExecutionState) (due : InstanceId → Int) : Prop :=
  ∃ i, due i < 0 ∨ (∃ c, state.get? c = some i) ∧ due i ≤ 0

section Tallies

variable {l l' : Ledger} {due due' : InstanceId → Int} {held held' is : List InstanceId}
  {hs : List Handling} {state : ExecutionState}

theorem due_nonneg (h : ¬ Overdrawn state due) (i : InstanceId) : 0 ≤ due i := by
  by_contra hneg
  exact h ⟨i, Or.inl (not_le.mp hneg)⟩

theorem due_published (h : ¬ Overdrawn state due) (c : ChannelId) (i : InstanceId)
    (hi : state.get? c = some i) : (due i).toNat ≠ 0 := by
  intro h0
  exact h ⟨i, Or.inr ⟨⟨c, hi⟩, Int.toNat_eq_zero.mp h0⟩⟩

namespace Ledger

namespace Tallies

theorem perm (h : l.Tallies due held) (hp : held'.Perm held) : l.Tallies due held' :=
  fun i => hp.count_eq i ▸ h i

theorem handled (h : l.Tallies due held) (hl : l.Handled l' hs)
    (heq : ∀ i, due' i + held'.count i = due i + held.count i + net hs i) : l'.Tallies due' held' := by
  intro i
  rw [hl.references, h i, heq]

/-- Where nothing is overdrawn it is a count. -/
theorem balanced (h : l.Tallies due held) (hdue : ∀ i, 0 ≤ due i) :
    l.Balanced (fun i => (due i).toNat) held := by
  intro i
  have := h i
  have := hdue i
  change (l.get i).references = (due i).toNat + held.count i
  omega

theorem of_balanced (h : l.Balanced (fun i => (due i).toNat) held) (hdue : ∀ i, 0 ≤ due i) :
    l.Tallies due held := by
  intro i
  have hcount : (l.get i).references = (due i).toNat + held.count i := h i
  have := hdue i
  omega

/-- Giving references back fails only where there are too few. -/
theorem releaseEach (h : l.Tallies due (is ++ held)) : Ends (Ledger.releaseEach is) l
    (fun _ l' => l.Handled l' (is.map .released) ∧ l'.Tallies due held)
    fun _ _ => ∃ i, due i < 0 := by
  by_cases hdue : ∀ i, 0 ≤ due i
  · refine (((h.balanced hdue).releaseEach).and_ends releaseEach_handled).ends.mono ?_ fun _ _ h => h
    rintro _ l' ⟨⟨-, hb⟩, hl⟩
    exact ⟨hl, of_balanced hb hdue⟩
  · obtain ⟨i, hi⟩ := not_forall.mp hdue
    refine releaseEach_handled.mono (fun _ l' hl => ⟨hl, h.handled hl fun i => ?_⟩) fun _ _ _ =>
      ⟨i, not_le.mp hi⟩
    rw [net_released, List.count_append]
    omega

end Tallies

end Ledger

/-- Gathering what is published fails only where too little is left of it. -/
theorem Activator.ofState_tallies {p : Plan} {t : TaskId} (h : l.Tallies due held) :
    Ends (ofState p t state) l (fun a l' => a.task = t ∧ (∀ x ∈ a.bound, ∃ c, state.get? c = some x) ∧
      l.Handled l' (a.bound.map .obtained) ∧ l'.Tallies due (a.bound ++ held))
      fun _ _ => Overdrawn state due := by
  by_cases hover : Overdrawn state due
  · refine ofState_handled.mono ?_ fun _ _ _ => hover
    rintro a l' ⟨ht, hpublished, hl⟩
    refine ⟨ht, hpublished, hl, h.handled hl fun i => ?_⟩
    rw [net_obtained, List.count_append]
    omega
  · refine ((ofState_balanced (due_published hover) (h.balanced (due_nonneg hover))).and_ends
      ofState_handled).ends.mono ?_ fun _ _ h => h
    rintro a l' ⟨hb, ht, hpublished, hl⟩
    exact ⟨ht, hpublished, hl, Ledger.Tallies.of_balanced hb (due_nonneg hover)⟩

end Tallies

namespace Workspace

variable {ω : Type} {p : Plan} {b : Behaviour ω} {s : StageId} {state : ExecutionState}
  {due₀ : InstanceId → Int} {log : ω → List Handling} {n : Nat} {w w' : Workspace ω}

/-- The references that the stage execution does not hold: those `due₀` that there were before it,
and what operators did. -/
def due (due₀ : InstanceId → Int) (log : ω → List Handling) (m : ω) (i : InstanceId) : Int :=
  due₀ i + net (log m) i

/-- The accounts of a push that began when there were `n` instances. It holds `held`, and it has fed
the instances `read` to their readers in the stage. Each instance was obtained once for each of these,
apart from what operators did. -/
structure Books (p : Plan) (s : StageId) (due₀ : InstanceId → Int) (log : ω → List Handling) (n : Nat)
    (held read : List InstanceId) (w : Workspace ω) : Prop where
  isOf : w.run.IsOf p s
  tallies : w.ledger.Tallies (due due₀ log w.memory) held
  known : ∀ i ∈ read, i < w.ledger.cells.size
  obtained : ∀ i, n ≤ i → (w.ledger.get i).obtained =
    (log w.memory).count (.obtained i) + (readings p s w.ledger read).count i

/-- What is left when a push fails: everything is accounted for, unless an operator has released too
much. The references `kept` are no longer held; there are such only if a loop head has refused to
start. -/
def Owes (state : ExecutionState) (due₀ : InstanceId → Int) (log : ω → List Handling)
    (e : ExecutionError) (w : Workspace ω) : Prop :=
  Overdrawn state (due due₀ log w.memory) ∨ ∃ kept : List InstanceId,
    (kept = [] ∨ ∃ cause, e = .illegalState cause) ∧
      w.ledger.Tallies (due due₀ log w.memory) (kept ++ w.run.held)

/-- Nothing is left over. -/
theorem owes_of_tallies {e : ExecutionError} (h : w.ledger.Tallies (due due₀ log w.memory) w.run.held) :
    Owes state due₀ log e w := Or.inr ⟨[], Or.inl rfl, h⟩

/-! ## Feeding -/

/-- Feeding instances to their readers fails with everything in hand. -/
theorem feedAll_owes (hp : p.IsOrderly s) {is : List InstanceId}
    (hknown : ∀ i ∈ is, i < w.ledger.cells.size) (h : w.run.IsOf p s)
    (ht : w.ledger.Tallies (due due₀ log w.memory) w.run.held) : Ends (feedAll p b s state is) w
      (fun _ w' => Takes p s state w (readings p s w.ledger is) w') (Owes state due₀ log) := by
  have htakes : Ends (feedAll p b s state is) w
      (fun _ w' => Takes p s state w (readings p s w.ledger is) w') fun _ _ => True :=
    feedAll_takes hp hknown h
  refine (htakes.and (idle_feedAll w)).known.mono (fun _ _ h => h.2.1) ?_
  rintro e w' ⟨hrun, -, hidle⟩
  have hm := hidle.memory
  by_cases hover : Overdrawn state (due due₀ log w.memory)
  · exact Or.inl (hm ▸ hover)
  · have hb := ht.balanced (due_nonneg hover)
    have hsound : Sound p s w.ledger (fun i => (due due₀ log w.memory i).toNat) w :=
      ⟨h.staged, h.tasks, Ledger.Later.refl _, hb⟩
    have hkeeps : Keeps p s w.ledger (fun i => (due due₀ log w.memory i).toNat)
        (feedAll p b s state is) w := feedAll_keeps hp (due_published hover) hsound
    refine owes_of_tallies ?_
    rw [hm]
    exact Ledger.Tallies.of_balanced (Ends.error hkeeps hrun).1.balanced (due_nonneg hover)

/-! ## Executing a task -/

/-- Asking an operator that has a record of what it does to references. -/
theorem consult_handled {inputs : List (Option InstanceId)} {ctx : TaskContext}
    {ask : TaskContext → ω → Reply ω} (hask : ∀ ctx m, log (ask ctx m).memory = log m ++
      handlingsOf ctx.bound ctx.references (ask ctx m).touches) :
    Succeeds (consult inputs ctx ask) w fun _ w' => w'.run = w.run ∧ ∃ hs,
      log w'.memory = log w.memory ++ hs ∧ w.ledger.Handled w'.ledger hs := by
  have hbound : ({ ctx with inputs := boundInputs w.ledger inputs } : TaskContext).bound = inputs := by
    unfold TaskContext.bound boundInputs
    simp only [List.map_map]
    conv_rhs => rw [← List.map_id inputs]
    exact List.map_congr_left fun o _ => by cases o <;> rfl
  have hreferences : ∀ x, some x ∈ inputs →
      ({ ctx with inputs := boundInputs w.ledger inputs } : TaskContext).references x =
        (w.ledger.get x).references := by
    intro x hx
    unfold TaskContext.references boundInputs
    simp only
    cases hfind : ((inputs.map fun i => i.map fun i => (⟨i, w.ledger.get i⟩ : BoundInput)).filterMap
        id).find? fun y => y.id == x with
    | none =>
      refine absurd (List.find?_eq_none.mp hfind ⟨x, w.ledger.get x⟩ ?_) (by simp)
      exact List.mem_filterMap.mpr ⟨_, List.mem_map_of_mem hx, rfl⟩
    | some y =>
      have hid : y.id = x := by simpa using List.find?_some hfind
      obtain ⟨o, ho, hoy⟩ := List.mem_filterMap.mp (List.mem_of_find?_eq_some hfind)
      obtain ⟨i, -, rfl⟩ := List.mem_map.mp ho
      obtain ⟨j, -, rfl⟩ := Option.map_eq_some_iff.mp hoy
      rw [← hid]
  refine ⟨_, _, rfl, rfl, _, hask _ _, ?_⟩
  rw [hbound]
  exact Ledger.touches_handled hreferences

theorem activate_handled {stage : Stage} {a : Activator} {activation : Activation}
    (hb : b.LogsHandlings (p.graph.task a.task).operator.object log) :
    Succeeds (activate p b stage a activation) w fun _ w' => w'.run = w.run ∧ ∃ hs,
      log w'.memory = log w.memory ++ hs ∧ w.ledger.Handled w'.ledger hs := by
  unfold activate
  refine Succeeds.bind (consult_handled hb.prepare) ?_
  rintro reply w₁ ⟨hrun₁, hs₁, hlog₁, hl₁⟩
  cases reply with
  | error cause => exact Succeeds.pure ⟨hrun₁, hs₁, hlog₁, hl₁⟩
  | ok _ =>
    refine (consult_handled hb.evaluate).mono ?_
    rintro _ w₂ ⟨hrun₂, hs₂, hlog₂, hl₂⟩
    refine ⟨hrun₂.trans hrun₁, hs₁ ++ hs₂, ?_, hl₁.trans hl₂⟩
    rw [hlog₂, hlog₁, List.append_assoc]

/-- What is made of emissions is created, each instance once. -/
theorem produce_handled {t : TaskId} : ∀ {out : Emissions} {output : Nat} {w : Workspace ω},
    Succeeds (produce p t output out) w fun is w' =>
      w.ledger.Handled w'.ledger (is.map .created)
  | [], _, w => Succeeds.pure (Ledger.Handled.refl _)
  | none :: rest, output, _ => by
    unfold produce
    exact produce_handled
  | some e :: rest, output, w => by
    unfold produce
    cases ho : (p.graph.task t).outputChannel output with
    | none => exact produce_handled
    | some c =>
      refine Succeeds.bind (enter_spec (emittedInstance p t c e)) ?_
      rintro _ _ ⟨rfl, rfl⟩
      have hcreate : w.ledger.Handled (w.ledger.create (emittedInstance p t c e)).1
          [.created (w.ledger.create (emittedInstance p t c e)).2] := Ledger.create_handled rfl rfl
      exact Succeeds.bind produce_handled fun _ _ h => Succeeds.pure (hcreate.trans h)

/-- What is done is entered in the books. -/
theorem Books.step {held held' read fed : List InstanceId} {hs : List Handling}
    (h : Books p s due₀ log n held read w) (hl : w.ledger.Handled w'.ledger hs)
    (hisOf : w'.run.IsOf p s) (hfed : ∀ i ∈ fed, i < w.ledger.cells.size)
    (hheld : ∀ i, net (log w'.memory) i + held'.count i =
      net (log w.memory) i + held.count i + net hs i)
    (hobtained : ∀ i, n ≤ i → (log w'.memory).count (.obtained i) +
      (readings p s w.ledger fed).count i =
        (log w.memory).count (.obtained i) + hs.count (.obtained i)) :
    Books p s due₀ log n held' (read ++ fed) w' := by
  have hknown : ∀ i ∈ read ++ fed, i < w.ledger.cells.size := fun i hi =>
    (List.mem_append.mp hi).elim (h.known i) (hfed i)
  refine ⟨hisOf, h.tallies.handled hl fun i => ?_, fun i hi => ?_, fun i hi => ?_⟩
  · have := hheld i
    unfold due
    omega
  · exact Nat.lt_of_lt_of_le (hknown i hi) hl.later.size
  · have := hobtained i hi
    have hsplit : readings p s w.ledger (read ++ fed) =
        readings p s w.ledger read ++ readings p s w.ledger fed := List.flatMap_append
    rw [hl.obtained, h.obtained i hi, readings_later hl.later hknown, hsplit, List.count_append]
    omega

/-- What was done by an operator. -/
theorem Books.consulted {held read : List InstanceId} {hs : List Handling}
    (h : Books p s due₀ log n held read w) (hrun : w'.run = w.run)
    (hlog : log w'.memory = log w.memory ++ hs) (hl : w.ledger.Handled w'.ledger hs) :
    Books p s due₀ log n held read w' := by
  have hstep : Books p s due₀ log n held (read ++ []) w' := by
    refine h.step hl (hrun ▸ h.isOf) nofun (fun i => ?_) fun i _ => ?_
    · rw [hlog, net_append]
      omega
    · rw [hlog, List.count_append]
      rfl
  rwa [List.append_nil] at hstep

/-- What was done by the engine apart from feeding. -/
theorem Books.moved {held held' read : List InstanceId} {hs : List Handling}
    (h : Books p s due₀ log n held read w) (hrun : w'.run.IsOf p s)
    (hlog : log w'.memory = log w.memory) (hl : w.ledger.Handled w'.ledger hs)
    (hheld : ∀ i, (held'.count i : Int) = held.count i + net hs i)
    (hnone : ∀ i, hs.count (.obtained i) = 0) : Books p s due₀ log n held' read w' := by
  have hstep : Books p s due₀ log n held' (read ++ []) w' := by
    refine h.step hl hrun nofun (fun i => ?_) fun i _ => ?_
    · have := hheld i
      rw [hlog]
      omega
    · rw [hlog, hnone]
      rfl
  rwa [List.append_nil] at hstep

/-- What was done when instances were fed to their readers. -/
theorem Books.takes {held read : List InstanceId} (h : Books p s due₀ log n held read w)
    (is : List InstanceId) (hheld : w.run.held.Perm held) (his : ∀ i ∈ is, i < w.ledger.cells.size)
    (hpublished : ∀ c i, state.get? c = some i → i < n)
    (ht : Takes p s state w (readings p s w.ledger is) w') :
    Books p s due₀ log n w'.run.held (read ++ is) w' := by
  obtain ⟨xs, hxs, hl, hp⟩ := ht.handled
  refine h.step hl ht.isOf his (fun i => ?_) fun i hi => ?_
  · rw [ht.memory, net_obtained, hp.count_eq, List.count_append, hheld.count_eq]
    omega
  · -- what is published was there before
    have hold : xs.count i = 0 := List.count_eq_zero.mpr fun hmem => by
      obtain ⟨c, hc⟩ := hxs i hmem
      exact absurd (hpublished c i hc) (Nat.not_lt_of_le hi)
    rw [ht.memory, count_map_obtained, List.count_append, hold, Nat.add_zero]

/-- What follows once the operator of a task has computed and a loop head is seen to have started: the
inputs are given back, and what was emitted feeds its readers. -/
theorem deliver_books (hp : p.IsOrderly s)
    (hpublished : ∀ c i, state.get? c = some i → i < n) {a : Activator} {activation : Activation}
    {w₁ : Workspace ω} {out : Emissions} {e : ExecutionEvent} (hrun₁ : w₁.run = w.run)
    (h₁ : Books p s due₀ log n (a.bound ++ w.run.held) w.run.instances w₁) :
    Ends (do
        let produced ← produce p a.task 0 out
        onLedger a.dispose
        modifyRun fun r => { r with
          instances := r.instances ++ produced
          executed := r.executed ++ [⟨a.task, activation⟩] }
        emit e
        feedAll p b s state produced) w₁
      (fun _ w' => Books p s due₀ log n w'.run.held w'.run.instances w') (Owes state due₀ log) := by
  refine Ends.bind (produce_handled.and_ends (E := fun _ _ => True) produce_makes.ends).ends ?_
  rintro is w₂ ⟨hl₂, -, hmakes⟩
  have h₂ : Books p s due₀ log n (a.bound ++ (is ++ w.run.held)) w.run.instances w₂ := by
    refine h₁.moved (hmakes.run ▸ h₁.isOf) (by rw [hmakes.memory]) hl₂ (fun i => ?_)
      fun i => count_map_created
    simp only [net_created, List.count_append]
    omega
  refine Ends.bind ((onLedger_ends h₂.tallies.releaseEach).mono (fun _ _ h => h) ?_) ?_
  · rintro _ _ ⟨_, _, ⟨i, hi⟩, rfl, rfl⟩
    exact Or.inl ⟨i, Or.inl hi⟩
  rintro _ _ ⟨l₃, ⟨hl₃, -⟩, rfl⟩
  refine Ends.bind (modifyRun_spec _).ends ?_
  rintro _ _ rfl
  refine Ends.bind (emit_spec _).ends ?_
  rintro _ _ ⟨events, rfl⟩
  have hrun₂ : w₂.run = w.run := hmakes.run.trans hrun₁
  have h₃ : Books p s due₀ log n (is ++ w.run.held) w.run.instances
      { w₂ with
        ledger := l₃
        events
        run := { w₂.run with
          instances := w₂.run.instances ++ is
          executed := w₂.run.executed ++ [⟨a.task, activation⟩] } } := by
    refine h₂.moved ⟨h₂.isOf.staged, h₂.isOf.tasks⟩ rfl hl₃ (fun i => ?_)
      fun i => count_map_released
    simp only [net_released, List.count_append]
    omega
  have hheld : ({ w₂.run with
      instances := w₂.run.instances ++ is
      executed := w₂.run.executed ++ [⟨a.task, activation⟩] } : StageRun).held.Perm
      (is ++ w.run.held) := by
    rw [hrun₂]
    unfold StageRun.held
    rw [← List.append_assoc]
    exact List.perm_append_comm
  have his : ∀ i ∈ is, i < l₃.cells.size := fun i hi =>
    Nat.lt_of_lt_of_le (hmakes.fresh i hi).2 hl₃.later.size
  refine (feedAll_owes hp his h₃.isOf (h₃.tallies.perm hheld)).mono (fun _ w' ht => ?_)
    fun _ _ he => he
  have hbooks := h₃.takes is hheld his hpublished ht
  rw [ht.instances]
  simp only
  rw [hrun₂]
  exact hbooks

/-- Executing an activator that has been taken from the ready ones. -/
theorem executeTask_books (hp : p.IsOrderly s)
    (hpublished : ∀ c i, state.get? c = some i → i < n) {a : Activator} {activation : Activation}
    (hb : b.LogsHandlings (p.graph.task a.task).operator.object log)
    (h : Books p s due₀ log n (a.bound ++ w.run.held) w.run.instances w) :
    Ends (executeTask p b s state a activation) w
      (fun _ w' => Books p s due₀ log n w'.run.held w'.run.instances w') (Owes state due₀ log) := by
  unfold executeTask
  refine Ends.bind Succeeds.get.ends ?_
  rintro _ _ ⟨rfl, rfl⟩
  refine Ends.bind (activate_handled hb).ends ?_
  rintro reply w₁ ⟨hrun₁, hs, hlog₁, hl₁⟩
  have h₁ := h.consulted hrun₁ hlog₁ hl₁
  cases reply with
  | error cause =>
    refine Ends.bind ((onLedger_ends h₁.tallies.releaseEach).mono (fun _ _ h => h) ?_) ?_
    · rintro _ _ ⟨_, _, ⟨i, hi⟩, rfl, rfl⟩
      exact Or.inl ⟨i, Or.inl hi⟩
    rintro _ _ ⟨l₂, ⟨-, ht⟩, rfl⟩
    refine Ends.throw (owes_of_tallies ?_)
    simp only [hrun₁]
    exact ht
  | ok out =>
    simp only
    split
    · refine Ends.bind (followLoopHead_ends.mono (fun _ _ h => h) ?_) ?_
      · -- the references on the inputs of the activator are neither given back nor held any longer
        rintro _ w₂ ⟨hl₂, hrun₂, -, -, cause, rfl, hadvance⟩
        have hlog₂ := hb.advance .running w₁.memory
        rw [hadvance] at hlog₂
        refine Or.inr ⟨a.bound, Or.inr ⟨cause, rfl⟩, ?_⟩
        unfold due
        rw [hl₂, hrun₂, hrun₁, hlog₂]
        exact h₁.tallies
      rintro _ w₂ ⟨hl₂, hrun₂, hfollowed⟩
      have hlog₂ : log w₂.memory = log w₁.memory := by
        unfold Followed at hfollowed
        split at hfollowed
        · obtain ⟨old, hadvance⟩ := hfollowed
          have := hb.advance .running w₁.memory
          rwa [hadvance] at this
        · rw [hfollowed]
      refine deliver_books hp hpublished (hrun₂.trans hrun₁) ?_
      have hsame : w₁.ledger.Handled w₂.ledger [] := hl₂ ▸ Ledger.Handled.refl _
      refine h₁.moved (hrun₂ ▸ h₁.isOf) hlog₂ hsame (fun i => ?_) fun i => rfl
      rw [net_nil, Int.add_zero]
    · exact deliver_books hp hpublished hrun₁ h₁

/-! ## The whole push -/

/-- Making start tasks ready. -/
theorem seed_books (hpublished : ∀ c i, state.get? c = some i → i < n) :
    ∀ {ts : List TaskId} {w : Workspace ω}, (∀ t ∈ ts, t ∈ (p.stage s).tasks) →
      Books p s due₀ log n w.run.held w.run.instances w → Ends (seed p b s state ts) w
        (fun _ w' => Books p s due₀ log n w'.run.held w'.run.instances w') (Owes state due₀ log)
  | [], _, _, h => Ends.pure h
  | t :: ts, w, hts, h => by
    unfold seed
    refine Ends.bind ((onLedger_ends (Activator.ofState_tallies h.tallies)).mono (fun _ _ h => h)
      ?_) ?_
    · rintro _ _ ⟨_, _, hover, rfl, rfl⟩
      exact Or.inl hover
    rintro a _ ⟨l, ⟨rfl, hbound, hl, ht⟩, rfl⟩
    refine Ends.bind Succeeds.get.ends ?_
    rintro _ _ ⟨rfl, rfl⟩
    cases hready : a.readiness p.graph b w.memory with
    | none =>
      simp only
      refine Ends.bind ((onLedger_ends ht.releaseEach).mono (fun _ _ h => h) ?_) ?_
      · rintro _ _ ⟨_, _, ⟨i, hi⟩, rfl, rfl⟩
        exact Or.inl ⟨i, Or.inl hi⟩
      rintro _ _ ⟨l', ⟨-, ht'⟩, rfl⟩
      exact Ends.throw (owes_of_tallies ht')
    | some activation =>
      simp only
      refine Ends.bind (modifyRun_spec _).ends ?_
      rintro _ _ rfl
      refine seed_books hpublished (fun u hu => hts u (List.mem_cons_of_mem _ hu)) ?_
      have htakes : Takes p s state w [] { w with
          ledger := l, run := { w.run with ready := w.run.ready ++ [(a, activation)] } } :=
        ⟨rfl, rfl, h.isOf.append_ready (hts _ List.mem_cons_self) activation, a.bound, hbound, hl,
          StageRun.held_append_ready w.run a activation⟩
      have hnext := h.takes [] (List.Perm.refl _) (List.forall_mem_nil _) hpublished htakes
      rwa [List.append_nil] at hnext

/-- Executing ready activators. -/
theorem drain_books (hp : p.IsOrderly s) (hpublished : ∀ c i, state.get? c = some i → i < n)
    (hb : ∀ t ∈ (p.stage s).tasks, b.LogsHandlings (p.graph.task t).operator.object log)
    {fuel : Nat} (h : Books p s due₀ log n w.run.held w.run.instances w) :
    Ends (drain p b s state fuel) w
      (fun _ w' => Books p s due₀ log n w'.run.held w'.run.instances w') (Owes state due₀ log) := by
  refine (drain_ends (I := fun _ w => Books p s due₀ log n w.run.held w.run.instances w) ?_ h).mono
    (fun _ _ ⟨_, h', _⟩ => h') fun _ _ he => he
  intro _ w a activation rest h hready
  have ha : a ∈ w.run.activators := by
    unfold StageRun.activators
    rw [hready]
    exact List.mem_append_right _ List.mem_cons_self
  refine executeTask_books hp hpublished (hb _ (h.isOf.tasks a ha)) ⟨⟨h.isOf.staged, fun x hx =>
    h.isOf.tasks x (mem_activators_rest hready hx)⟩, ?_, h.known, h.obtained⟩
  exact h.tallies.perm (held_ready hready).symm

/-- **A push keeps its books**, whatever the operators do. -/
theorem push_books (hp : p.IsOrderly s) (hpublished : ∀ c i, state.get? c = some i → i < n)
    (hb : ∀ t ∈ (p.stage s).tasks, b.LogsHandlings (p.graph.task t).operator.object log)
    (h : Books p s due₀ log n w.run.held w.run.instances w) : Ends (push p b s state) w
      (fun _ w' => Books p s due₀ log n w'.run.held w'.run.instances w') (Owes state due₀ log) :=
  Ends.bind (seed_books hpublished hp.start h) fun _ _ h' => drain_books hp hpublished hb h'

end Workspace

end Dataflow
