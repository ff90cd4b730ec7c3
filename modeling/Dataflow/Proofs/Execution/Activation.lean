import Dataflow.Proofs.Execution.Endings
import Dataflow.Proofs.TaskGraph.Wiring

/-!
# Activations

The steps of one activation, each with what it does to the references: gathering the published
inputs (`ofState_spec`), binding one more (`Activator.accept_spec`), having the operator compute
(`activate_spec`), making instances of what it emitted (`produce_spec`) and giving the inputs back
(`dispose_spec`).

There are up to three lemmas for a step. That with `ends` says what the step does whatever comes of
it, and with any operators; that with `balanced` says that the references are accounted for
afterwards, whether the step succeeds or not; and that with `spec` says that it succeeds, given what
it needs. The first kind carries the results about operators of any kind, the second those about
references, the third those about what is computed.

A failure in the middle of a step has been seen to here, once: what `ofState` has bound so far is lost
with it, while a failing operator leaves its inputs with the activation, which gives them back.
-/

namespace Dataflow

/-! ## Waiting for inputs -/

/-- The inputs that a task waits for, given where it stands as a loop head. -/
def Task.awaited (t : Task) (state : LoopState) : List Nat :=
  match t.operator.loopRoles with
  | none => List.range t.inputs.length
  | some roles =>
    match state with
    | .notStarted => roles.initialization
    | .running => roles.body
    | .finished => []

/-- A task that is ready is so when more of the inputs that it waits for are bound. -/
theorem readiness_mono {t : Task} {state : LoopState} {bound bound' : Nat → Bool}
    (h : ∀ i ∈ t.awaited state, bound i = true → bound' i = true)
    (hr : (readiness t state bound).isSome = true) : (readiness t state bound').isSome = true := by
  have hall : (t.awaited state).all bound = true → (t.awaited state).all bound' = true :=
    fun hb => List.all_eq_true.mpr fun i hi => h i hi (List.all_eq_true.mp hb i hi)
  unfold readiness at hr ⊢
  unfold Task.awaited at hall
  cases hroles : t.operator.loopRoles with
  | none =>
    simp only [hroles] at hr hall ⊢
    split at hr
    · rw [if_pos (hall ‹_›)]
      rfl
    · exact absurd hr Bool.false_ne_true
  | some roles =>
    simp only [hroles] at hr hall ⊢
    cases state with
    | notStarted =>
      simp only at hr hall ⊢
      split at hr
      · rw [if_pos (hall ‹_›)]
        rfl
      · exact absurd hr Bool.false_ne_true
    | running =>
      simp only at hr hall ⊢
      split at hr
      · rw [if_pos (hall ‹_›)]
        rfl
      · exact absurd hr Bool.false_ne_true
    | finished => exact absurd hr Bool.false_ne_true

/-! ## Gathering inputs -/

namespace Activator

theorem filterMap_set_perm : ∀ {xs : List (Option InstanceId)} {i : Nat} {x : InstanceId},
    xs[i]? = some none → ((xs.set i (some x)).filterMap id).Perm (x :: xs.filterMap id)
  | [], i, x, h => by simp at h
  | y :: ys, 0, x, h => by
    obtain rfl : y = none := by simpa using h
    exact List.Perm.refl _
  | y :: ys, i + 1, x, h => by
    have ih := filterMap_set_perm (x := x) (List.getElem?_cons_succ ▸ h)
    cases y with
    | none => exact ih
    | some y =>
      change (y :: (ys.set i (some x)).filterMap id).Perm (x :: y :: ys.filterMap id)
      exact (List.Perm.cons y ih).trans (List.Perm.swap x y _)

/-- The activator with one more input bound. -/
def bind (a : Activator) (input : Nat) (i : InstanceId) : Activator :=
  { a with inputs := a.inputs.set input (some i) }

theorem bound_bind {a : Activator} {input : Nat} (h : a.inputs[input]? = some none)
    (i : InstanceId) : (a.bind input i).bound.Perm (i :: a.bound) := filterMap_set_perm h

theorem bound_ofTask (t : TaskId) (task : Task) : (ofTask t task).bound = [] := by
  unfold ofTask bound
  simp

variable {l : Ledger} {own : InstanceId → Nat} {held : List InstanceId}

/-- An input that is not bound can be bound to a live instance. -/
theorem accept_balanced {a : Activator} {input : Nat} {i : InstanceId}
    (h : a.inputs[input]? = some none) (hi : (l.get i).references ≠ 0)
    (hc : l.Balanced own (a.bound ++ held)) :
    Succeeds (a.accept input i) l fun a' l' => a' = a.bind input i ∧ l.Later l' ∧
      l'.Balanced own ((a.bind input i).bound ++ held) := by
  unfold accept
  simp only [h]
  refine Succeeds.bind (R := fun _ l' => l' = l) ⟨l, l, rfl, rfl⟩ ?_
  rintro _ _ rfl
  refine Succeeds.bind (hc.obtain hi) fun _ l' ⟨hl, hc'⟩ => Succeeds.pure ⟨rfl, hl, ?_⟩
  exact hc'.perm ((bound_bind h i).append_right held)

theorem accept_live {a : Activator} {input : Nat} {i : InstanceId}
    (h : a.inputs[input]? = some none) (hi : (l.get i).references ≠ 0) :
    Succeeds (a.accept input i) l fun _ _ => True := by
  unfold accept
  simp only [h]
  refine Succeeds.bind (R := fun _ l' => l' = l) ⟨l, l, rfl, rfl⟩ ?_
  rintro _ _ rfl
  exact Succeeds.bind (Ledger.obtain_spec hi) fun _ _ _ => Succeeds.pure trivial

theorem accept_spec {a : Activator} {input : Nat} {i : InstanceId}
    (h : a.inputs[input]? = some none) (hi : (l.get i).references ≠ 0)
    (hc : l.Covers own (a.bound ++ held)) :
    Succeeds (a.accept input i) l fun a' l' => a' = a.bind input i ∧ l.Later l' ∧
      l'.Covers own ((a.bind input i).bound ++ held) := by
  obtain ⟨_, hle, hb⟩ := Ledger.covers_iff.mp hc
  exact (accept_balanced h hi hb).mono fun _ _ ⟨ha, hl, hb'⟩ => ⟨ha, hl, hb'.covers hle⟩

/-- Binding an input, whatever the instance is. -/
theorem accept_ends {a : Activator} {input : Nat} {i : InstanceId} :
    Ends (a.accept input i) l
      (fun a' l' => a' = a.bind input i ∧ a.inputs[input]? = some none ∧
        (l.get i).references ≠ 0 ∧ l.Later l')
      fun e l' => l' = l ∧ ∀ c, e ≠ .doubleRelease c := by
  unfold accept
  refine Ends.bind (R := fun s l' => s = l ∧ l' = l) ⟨rfl, rfl⟩ ?_
  rintro _ _ ⟨rfl, rfl⟩
  cases h : a.inputs[input]? with
  | none => exact Ends.throw ⟨rfl, nofun⟩
  | some o =>
    cases o with
    | some _ => exact Ends.throw ⟨rfl, nofun⟩
    | none =>
      refine Ends.bind (Ledger.obtain_ends.mono (fun _ _ h => h) ?_) fun _ _ h =>
        Ends.pure ⟨rfl, rfl, h.1, h.2.1⟩
      rintro _ _ ⟨rfl, -, rfl⟩
      exact ⟨rfl, nofun⟩

/-- Of the given inputs, those with a published instance are bound to it. -/
theorem bindPublished_ends {p : Plan} {state : ExecutionState} :
    ∀ {inputs : List Nat} {a : Activator} {l : Ledger}, inputs.Nodup →
      (∀ j ∈ inputs, a.inputs[j]? = some none) →
      Ends (bindPublished p state a inputs) l (fun a' l' => a'.task = a.task ∧
        a'.inputs.length = a.inputs.length ∧ (∀ j, a'.inputs[j]? = if j ∈ inputs then
          some (((p.graph.task a.task).inputChannel j).bind state.get?) else a.inputs[j]?) ∧
        l.Later l') fun _ l' => l.Later l'
  | [], a, l, _, _ => Ends.pure ⟨rfl, rfl, fun j => by simp, Ledger.Later.refl l⟩
  | input :: rest, a, l, hn, hfree => by
    obtain ⟨hnot, hn⟩ := List.nodup_cons.mp hn
    have hrest : ∀ j ∈ rest, j ≠ input := fun j hj he => hnot (he ▸ hj)
    unfold bindPublished
    cases hb : ((p.graph.task a.task).inputChannel input).bind state.get? with
    | none =>
      simp only [hb]
      refine (bindPublished_ends hn fun j hj => hfree j (List.mem_cons_of_mem _ hj)).mono
        (fun a' l' ⟨ht, hlen, hin, hl⟩ => ⟨ht, hlen, fun j => ?_, hl⟩) fun _ _ hl => hl
      rw [hin j]
      by_cases hj : j = input
      · rw [hj, if_neg hnot, if_pos List.mem_cons_self, hb, hfree input List.mem_cons_self]
      · simp [hj]
    | some i =>
      simp only [hb]
      refine Ends.bind (accept_ends.mono (fun _ _ h => h) fun _ _ h => h.1 ▸ Ledger.Later.refl l) ?_
      rintro _ l' ⟨rfl, -, -, hl⟩
      have hfree' : ∀ j ∈ rest, (a.bind input i).inputs[j]? = some none := fun j hj => by
        unfold bind
        rw [List.getElem?_set_ne (Ne.symm (hrest j hj))]
        exact hfree j (List.mem_cons_of_mem _ hj)
      refine (bindPublished_ends hn hfree').mono
        (fun a' l'' ⟨ht, hlen, hin, hl'⟩ => ⟨ht, hlen.trans List.length_set, fun j => ?_,
          hl.trans hl'⟩) fun _ _ hl' => hl.trans hl'
      rw [hin j]
      by_cases hj : j = input
      · have hlt : input < a.inputs.length := by
          by_contra hge
          have := hfree input List.mem_cons_self
          rw [List.getElem?_eq_none (Nat.le_of_not_lt hge)] at this
          exact absurd this (by simp)
        rw [hj, if_neg hnot, if_pos List.mem_cons_self, hb]
        exact List.getElem?_set_self hlt
      · have hset : (a.bind input i).inputs[j]? = a.inputs[j]? := List.getElem?_set_ne (Ne.symm hj)
        rw [hset]
        simp only [List.mem_cons, hj, false_or]
        rfl

/-- What is published and owned can be bound. -/
theorem bindPublished_balanced {p : Plan} {state : ExecutionState}
    (hown : ∀ c i, state.get? c = some i → own i ≠ 0) :
    ∀ {inputs : List Nat} {a : Activator} {l : Ledger}, inputs.Nodup →
      (∀ j ∈ inputs, a.inputs[j]? = some none) → l.Balanced own (a.bound ++ held) →
      Succeeds (bindPublished p state a inputs) l fun a' l' => l'.Balanced own (a'.bound ++ held)
  | [], _, _, _, _, hc => Succeeds.pure hc
  | input :: rest, a, l, hn, hfree, hc => by
    obtain ⟨hnot, hn⟩ := List.nodup_cons.mp hn
    have hfree' : ∀ j ∈ rest, a.inputs[j]? = some none := fun j hj =>
      hfree j (List.mem_cons_of_mem _ hj)
    unfold bindPublished
    cases hb : ((p.graph.task a.task).inputChannel input).bind state.get? with
    | none =>
      simp only [hb]
      exact bindPublished_balanced hown hn hfree' hc
    | some i =>
      have hlive : (l.get i).references ≠ 0 := by
        obtain ⟨c, -, hi⟩ := Option.bind_eq_some_iff.mp hb
        exact hc.references_of_own (hown c i hi)
      simp only [hb]
      refine Succeeds.bind (accept_balanced (hfree input List.mem_cons_self) hlive hc) ?_
      rintro _ l' ⟨rfl, -, hc'⟩
      refine bindPublished_balanced hown hn (fun j hj => ?_) hc'
      unfold bind
      rw [List.getElem?_set_ne (ne_of_mem_of_not_mem hj hnot).symm]
      exact hfree' j hj

section OfState

variable {p : Plan} {state : ExecutionState} {t : TaskId}

theorem ofTask_free (p : Plan) (t : TaskId) :
    ∀ j ∈ (List.range (p.graph.task t).inputs.length).filter (p.isFedExternally t),
      (ofTask t (p.graph.task t)).inputs[j]? = some none := fun _ hj =>
  List.getElem?_replicate_of_lt (List.mem_range.mp (List.mem_filter.mp hj).1)

/-- The activator of a task whose external inputs are gathered. -/
theorem ofState_ends : Ends (ofState p t state) l (fun a l' => a.task = t ∧
    a.inputs.length = (p.graph.task t).inputs.length ∧
    (∀ j < (p.graph.task t).inputs.length, a.inputs[j]? = some
      (if p.isFedExternally t j then ((p.graph.task t).inputChannel j).bind state.get?
        else none)) ∧
    l.Later l') fun _ l' => l.Later l' := by
  have hmem : ∀ j, j ∈ (List.range (p.graph.task t).inputs.length).filter (p.isFedExternally t) ↔
      j < (p.graph.task t).inputs.length ∧ p.isFedExternally t j = true := fun j => by
    rw [List.mem_filter, List.mem_range]
  refine (bindPublished_ends (List.nodup_range.filter _) (ofTask_free p t)).mono ?_
    fun _ _ hl => hl
  intro a l' ⟨ht, hlen, hin, hl⟩
  refine ⟨ht, hlen.trans List.length_replicate, fun j hj => ?_, hl⟩
  rw [hin j]
  by_cases hx : p.isFedExternally t j = true
  · rw [if_pos ((hmem j).mpr ⟨hj, hx⟩), if_pos hx]
    rfl
  · rw [if_neg fun h => hx ((hmem j).mp h).2, if_neg hx]
    exact List.getElem?_replicate_of_lt hj

theorem ofState_balanced (hown : ∀ c i, state.get? c = some i → own i ≠ 0)
    (hc : l.Balanced own held) :
    Succeeds (ofState p t state) l fun a l' => l'.Balanced own (a.bound ++ held) := by
  have hc' : l.Balanced own ((ofTask t (p.graph.task t)).bound ++ held) := by
    rw [bound_ofTask]
    exact hc
  exact bindPublished_balanced hown (List.nodup_range.filter _) (ofTask_free p t) hc'

/-- Gathering the external inputs when what is published is owned. -/
theorem ofState_spec (hown : ∀ c i, state.get? c = some i → own i ≠ 0) (hc : l.Covers own held) :
    Succeeds (ofState p t state) l fun a l' => a.task = t ∧
      a.inputs.length = (p.graph.task t).inputs.length ∧
      (∀ j < (p.graph.task t).inputs.length, a.inputs[j]? = some
        (if p.isFedExternally t j then ((p.graph.task t).inputChannel j).bind state.get?
          else none)) ∧
      l.Later l' ∧ l'.Covers own (a.bound ++ held) := by
  obtain ⟨own', hle, hb⟩ := Ledger.covers_iff.mp hc
  have hown' : ∀ c i, state.get? c = some i → own' i ≠ 0 := fun c i hi h =>
    hown c i hi (Nat.le_zero.mp (h ▸ hle i))
  refine ((ofState_balanced hown' hb).and_ends ofState_ends).mono ?_
  rintro _ _ ⟨hb', ht, hlen, hin, hl⟩
  exact ⟨ht, hlen, hin, hl, hb'.covers hle⟩

end OfState

theorem dispose_spec {a : Activator} (hc : l.Covers own (a.bound ++ held)) :
    Succeeds a.dispose l fun _ l' => l.Later l' ∧ l'.Covers own held := hc.releaseEach

end Activator

/-! ## Computing -/

/-- A loop head that keeps its state in a cell: it moves on as far as that is no step back, and
answers where it stood before. -/
structure Behaviour.HasCell {ω : Type} (b : Behaviour ω) (o : ObjectId) : Prop where
  advance : ∀ s m, b.loopState o m ≤ s →
    (b.advance o s m).1 = .ok (b.loopState o m) ∧ b.loopState o (b.advance o s m).2 = s
  refuse : ∀ s m, ¬ b.loopState o m ≤ s →
    (b.advance o s m).1 = .error (.loopStateRegression ⟨b.loopState o m, s⟩) ∧
      (b.advance o s m).2 = m

/-- The operator of a task neither obtains nor releases references, and that of a loop head keeps
its state in a cell. -/
structure Behaviour.Careful {ω : Type} (b : Behaviour ω) (g : TaskGraph) (t : TaskId) : Prop where
  prepare : ∀ ctx m, ∀ x ∈ (b.prepare (g.task t).operator.object ctx m).touches, Ledger.IsNote x
  evaluate : ∀ ctx m, ∀ x ∈ (b.evaluate (g.task t).operator.object ctx m).touches, Ledger.IsNote x
  cell : (g.task t).isLoopHead = true → b.HasCell (g.task t).operator.object

/-- A context shows a task, the reason of its activation and the data on its inputs. -/
structure Shows (p : Plan) (t : TaskId) (activation : Activation) (data : Nat → Option Payload)
    (ctx : TaskContext) : Prop where
  task : ctx.task = t
  activation : ctx.activation = activation
  outputCount : ctx.outputCount = (p.graph.task t).outputs.length
  inputCount : ctx.inputs.length = (p.graph.task t).inputs.length
  data : ∀ i, (ctx.input? i).bind (fun x => x.content.payload) = data i

/-- A reply that succeeds and leaves the references on the inputs alone. -/
structure Reply.Succeeds {ω : Type} (r : Reply ω) : Prop where
  result : r.result = .ok ()
  touches : ∀ t ∈ r.touches, Ledger.IsNote t

namespace Workspace

variable {ω : Type} {w : Workspace ω} {own : InstanceId → Nat} {held : List InstanceId}

theorem onLedger_spec {α : Type} {x : LedgerM α} {Q : α → Ledger → Prop}
    (h : Succeeds x w.ledger Q) :
    Succeeds (onLedger x) w fun a w' => ∃ l, Q a l ∧ w' = { w with ledger := l } := by
  obtain ⟨a, l, hx, hQ⟩ := h
  refine ⟨a, { w with ledger := l }, ?_, l, hQ, rfl⟩
  unfold onLedger
  simp only [hx]

theorem modifyRun_spec (f : StageRun → StageRun) :
    Succeeds (modifyRun f) w fun _ w' => w' = { w with run := f w.run } := ⟨(), _, rfl, rfl⟩

theorem emit_spec (e : ExecutionEvent) :
    Succeeds (emit e) w fun _ w' => ∃ events, w' = { w with events } := ⟨(), _, rfl, _, rfl⟩

/-- What an operator sees of bound instances. -/
theorem input?_boundInputs {ctx : TaskContext} {l : Ledger} {inputs : List (Option InstanceId)}
    {i : Nat} (h : ctx.inputs = boundInputs l inputs) :
    (ctx.input? i).bind (fun x => x.content.payload) =
      (inputs[i]?).join.bind fun x => (l.get x).payload := by
  unfold TaskContext.input? boundInputs at *
  rw [h, List.getElem?_map]
  cases inputs[i]? with
  | none => rfl
  | some o => cases o <;> rfl

/-- Asking an operator, whatever it replies. -/
theorem consult_replies {inputs : List (Option InstanceId)} {ctx : TaskContext}
    {ask : TaskContext → ω → Reply ω} :
    Succeeds (consult inputs ctx ask) w fun reply w' =>
      reply = (ask { ctx with inputs := boundInputs w.ledger inputs } w.memory).result.map
        (fun _ => (ask { ctx with inputs := boundInputs w.ledger inputs } w.memory).emissions) ∧
      w'.memory = (ask { ctx with inputs := boundInputs w.ledger inputs } w.memory).memory ∧
      w'.run = w.run ∧ w.ledger.Later w'.ledger :=
  ⟨_, _, rfl, rfl, rfl, rfl, Ledger.later_touches inputs _ w.ledger⟩

/-- A reply that is a success. -/
theorem map_eq_ok {result : Except OperatorError Unit} {out out' : Emissions}
    (h : (result.map fun _ => out) = .ok out') : result = .ok () ∧ out' = out := by
  cases result with
  | error e => exact absurd h nofun
  | ok _ => exact ⟨rfl, (Except.ok.inj h).symm⟩

/-- An operator that only notes cardinalities leaves the references alone. -/
theorem consult_balanced {inputs : List (Option InstanceId)} {ctx : TaskContext}
    {ask : TaskContext → ω → Reply ω} (hask : ∀ ctx m, ∀ t ∈ (ask ctx m).touches, Ledger.IsNote t)
    (hc : w.ledger.Balanced own held) :
    Succeeds (consult inputs ctx ask) w fun _ w' => w'.ledger.Balanced own held :=
  ⟨_, _, rfl, (hc.touches inputs (hask _ _)).2⟩

/-- An activation of such an operator, whether it succeeds or fails. -/
theorem activate_balanced {p : Plan} {b : Behaviour ω} {stage : Stage} {a : Activator}
    {activation : Activation} (hb : b.Careful p.graph a.task)
    (hc : w.ledger.Balanced own held) :
    Succeeds (activate p b stage a activation) w fun _ w' => w'.ledger.Balanced own held := by
  unfold activate
  refine Succeeds.bind (consult_balanced hb.prepare hc) ?_
  rintro e w₁ hc₁
  cases e with
  | error cause => exact Succeeds.pure hc₁
  | ok _ => exact consult_balanced hb.evaluate hc₁

/-- Asking an operator that replies well. -/
theorem consult_spec {inputs : List (Option InstanceId)} {ctx : TaskContext}
    {ask : TaskContext → ω → Reply ω} {K : Reply ω → Prop}
    (hask : (ask { ctx with inputs := boundInputs w.ledger inputs } w.memory).Succeeds ∧
      K (ask { ctx with inputs := boundInputs w.ledger inputs } w.memory))
    (hc : w.ledger.Covers own held) :
    Succeeds (consult inputs ctx ask) w fun e w' => ∃ r, K r ∧ e = .ok r.emissions ∧
      w'.memory = r.memory ∧ w'.run = w.run ∧ w.ledger.Later w'.ledger ∧
      w'.ledger.Covers own held := by
  obtain ⟨hr, hK⟩ := hask
  obtain ⟨hl, hc'⟩ := hc.touches inputs hr.touches
  refine ⟨_, _, rfl, _, hK, ?_, rfl, rfl, hl, hc'⟩
  rw [hr.result]
  rfl

/-- The inputs of an activator carry the given data, and references are held on them. -/
def Bears (l : Ledger) (own : InstanceId → Nat) (held : List InstanceId) (a : Activator)
    (data : Nat → Option Payload) : Prop :=
  l.Covers own held ∧ ∀ i, ((a.inputs[i]?).join.bind fun x => (l.get x).payload) = data i ∧
    ∀ x, (a.inputs[i]?).join = some x → (l.get x).references ≠ 0

theorem Bears.later {l l' : Ledger} {a : Activator} {data : Nat → Option Payload}
    (hb : Bears l own (a.bound ++ held) a data) (hl : l.Later l')
    (hc : l'.Covers own (a.bound ++ held)) : Bears l' own (a.bound ++ held) a data := by
  refine ⟨hc, fun i => ?_⟩
  obtain ⟨hd, hr⟩ := hb.2 i
  cases hx : (a.inputs[i]?).join with
  | none =>
    rw [hx] at hd
    exact ⟨hd, fun _ h => absurd h (by simp)⟩
  | some x =>
    have hmem : x ∈ a.bound ++ held := by
      refine List.mem_append_left _ (List.mem_filterMap.mpr ⟨some x, ?_, rfl⟩)
      exact List.mem_of_getElem? (Option.join_eq_some_iff.mp hx)
    have hr' := hc.references_of_mem hmem
    rw [hx] at hd
    refine ⟨?_, fun y hy => ?_⟩
    · rw [← hd]
      exact (hl.payload x (Ledger.lt_size_of_references (hr x hx)) hr').2
    · obtain rfl : x = y := Option.some.inj hy
      exact hr'

/-- An activation of an operator that replies well both times. -/
theorem activate_spec {p : Plan} {b : Behaviour ω} {stage : Stage} {a : Activator}
    {activation : Activation} {data : Nat → Option Payload} {J : ω → Prop} {K : Reply ω → Prop}
    (hlen : a.inputs.length = (p.graph.task a.task).inputs.length)
    (hb : Bears w.ledger own (a.bound ++ held) a data)
    (hprep : ∀ ctx, Shows p a.task activation data ctx →
      (b.prepare (p.graph.task a.task).operator.object ctx w.memory).Succeeds ∧
        J (b.prepare (p.graph.task a.task).operator.object ctx w.memory).memory)
    (heval : ∀ ctx m, Shows p a.task activation data ctx → J m →
      (b.evaluate (p.graph.task a.task).operator.object ctx m).Succeeds ∧
        K (b.evaluate (p.graph.task a.task).operator.object ctx m)) :
    Succeeds (activate p b stage a activation) w fun e w' => ∃ r, K r ∧ e = .ok r.emissions ∧
      w'.memory = r.memory ∧ w'.run = w.run ∧ w.ledger.Later w'.ledger ∧
      w'.ledger.Covers own (a.bound ++ held) := by
  have hshows : ∀ l : Ledger, Bears l own (a.bound ++ held) a data → Shows p a.task activation data
      { task := a.task, activation, forced := stage.terminalTasks.contains a.task,
        inputs := boundInputs l a.inputs, outputCount := (p.graph.task a.task).outputs.length } :=
    fun l hl => ⟨rfl, rfl, rfl, (List.length_map _).trans hlen, fun i => by
      rw [input?_boundInputs rfl]
      exact (hl.2 i).1⟩
  unfold activate
  refine Succeeds.bind (consult_spec (K := fun r => J r.memory) (hprep _ (hshows _ hb)) hb.1) ?_
  rintro _ w1 ⟨r, hJ, rfl, hm, hrun, hl, hc⟩
  have hb' := hb.later hl hc
  refine (consult_spec (heval _ _ (hshows _ hb') (hm ▸ hJ)) hc).mono ?_
  rintro _ w2 ⟨r', hK, rfl, hm', hrun', hl', hc'⟩
  exact ⟨r', hK, rfl, hm', hrun'.trans hrun, hl.trans hl', hc'⟩

/-! ## Making instances -/

/-- The connected outputs among those emitted on, each as its channel with the data; `output` is the
number of the first output. -/
def emitted (p : Plan) (t : TaskId) : Nat → Emissions → List (ChannelId × Payload)
  | _, [] => []
  | output, none :: rest => emitted p t (output + 1) rest
  | output, some e :: rest =>
    match (p.graph.task t).outputChannel output with
    | none => emitted p t (output + 1) rest
    | some c => (c, e.payload) :: emitted p t (output + 1) rest

theorem mem_emitted {p : Plan} {t : TaskId} {c : ChannelId} {x : Payload} :
    ∀ {output : Nat} {out : Emissions}, (c, x) ∈ emitted p t output out ↔ ∃ j e,
      out[j]? = some (some e) ∧ (p.graph.task t).outputChannel (output + j) = some c ∧
        e.payload = x
  | output, [] => by simp [emitted]
  | output, none :: rest => by
    rw [emitted, mem_emitted]
    constructor
    · rintro ⟨j, e, he, hc, hx⟩
      exact ⟨j + 1, e, he, by rwa [Nat.add_comm j 1, ← Nat.add_assoc], hx⟩
    · rintro ⟨j, e, he, hc, hx⟩
      cases j with
      | zero => exact absurd he (by simp)
      | succ j => exact ⟨j, e, he, by rwa [Nat.add_assoc, Nat.add_comm 1 j], hx⟩
  | output, some e₀ :: rest => by
    have hrest : (c, x) ∈ emitted p t (output + 1) rest ↔ ∃ j e, rest[j]? = some (some e) ∧
        (p.graph.task t).outputChannel (output + (j + 1)) = some c ∧ e.payload = x := by
      rw [mem_emitted]
      simp only [Nat.add_assoc, Nat.add_comm 1]
    have hsplit : (∃ j e, (some e₀ :: rest)[j]? = some (some e) ∧
        (p.graph.task t).outputChannel (output + j) = some c ∧ e.payload = x) ↔
        ((p.graph.task t).outputChannel output = some c ∧ e₀.payload = x) ∨
          (c, x) ∈ emitted p t (output + 1) rest := by
      rw [hrest]
      constructor
      · rintro ⟨j, e, he, hc, hx⟩
        cases j with
        | zero =>
          obtain rfl : e₀ = e := by simpa using he
          exact Or.inl ⟨hc, hx⟩
        | succ j => exact Or.inr ⟨j, e, he, hc, hx⟩
      · rintro (⟨hc, hx⟩ | ⟨j, e, he, hc, hx⟩)
        · exact ⟨0, e₀, rfl, hc, hx⟩
        · exact ⟨j + 1, e, he, hc, hx⟩
    rw [hsplit, emitted]
    cases ho : (p.graph.task t).outputChannel output with
    | none => simp
    | some d => simp [eq_comm]

/-- Different outputs feed different channels. -/
theorem nodup_emitted {p : Plan} (hw : p.graph.Wired) {t : TaskId} :
    ∀ {output : Nat} {out : Emissions}, ((emitted p t output out).map Prod.fst).Nodup
  | output, [] => List.nodup_nil
  | output, none :: rest => by
    rw [emitted]
    exact nodup_emitted hw
  | output, some e :: rest => by
    rw [emitted]
    cases ho : (p.graph.task t).outputChannel output with
    | none => exact nodup_emitted hw
    | some c =>
      refine List.nodup_cons.mpr ⟨fun hmem => ?_, nodup_emitted hw⟩
      obtain ⟨⟨d, x⟩, hd, rfl⟩ := List.mem_map.mp hmem
      obtain ⟨j, e, -, hj, -⟩ := mem_emitted.mp hd
      have h1 := ((hw.output_iff _ _ _).mp ho).2.2
      have h2 := ((hw.output_iff _ _ _).mp hj).2.2
      have : output = output + 1 + j := h1.symm.trans h2
      omega

/-- The instances carry the data of the channels, in this order. -/
def Carry (l : Ledger) : List InstanceId → List (ChannelId × Payload) → Prop :=
  List.Forall₂ fun i cx => l.Live i cx.1 cx.2

theorem Carry.later {l l' : Ledger} {is : List InstanceId} {cxs : List (ChannelId × Payload)}
    (h : Carry l is cxs) (hl : l.Later l') (hr : ∀ i ∈ is, (l'.get i).references ≠ 0) :
    Carry l' is cxs := by
  induction h with
  | nil => exact List.Forall₂.nil
  | cons hd _ ih =>
    exact List.Forall₂.cons (hd.later hl (hr _ List.mem_cons_self))
      (ih fun i hi => hr i (List.mem_cons_of_mem _ hi))

/-- The instance that an emission becomes. -/
def emittedInstance (p : Plan) (t : TaskId) (c : ChannelId) (e : Emission) : Instance :=
  { Instance.create c t e.payload (p.graph.channel c).instrumented with cardinality := e.cardinality }

/-- Entering the instance of an emission. -/
theorem enter_spec (x : Instance) : Succeeds (modifyGet fun w : Workspace ω =>
    ((w.ledger.create x).2, { w with ledger := (w.ledger.create x).1 }) : WorkspaceM ω InstanceId) w
    fun i w' => i = (w.ledger.create x).2 ∧ w' = { w with ledger := (w.ledger.create x).1 } :=
  ⟨_, _, rfl, rfl, rfl⟩

/-- What is left when instances were made: those there were are as they were, and the new ones have
new numbers. -/
structure Makes (w : Workspace ω) (is : List InstanceId) (w' : Workspace ω) : Prop where
  memory : w'.memory = w.memory
  run : w'.run = w.run
  later : w.ledger.Later w'.ledger
  old : ∀ j < w.ledger.cells.size, w'.ledger.get j = w.ledger.get j
  fresh : ∀ i ∈ is, w.ledger.cells.size ≤ i ∧ i < w'.ledger.cells.size

/-- What a task emitted becomes instances. -/
theorem produce_makes {p : Plan} {t : TaskId} : ∀ {out : Emissions} {output : Nat}
    {w : Workspace ω}, Succeeds (produce p t output out) w fun is w' =>
      Carry w'.ledger is (emitted p t output out) ∧ Makes w is w'
  | [], _, w => Succeeds.pure ⟨List.Forall₂.nil, rfl, rfl, Ledger.Later.refl _, fun _ _ => rfl,
      fun _ h => absurd h List.not_mem_nil⟩
  | none :: rest, output, _ => by
    unfold produce
    exact produce_makes
  | some e :: rest, output, w => by
    unfold produce emitted
    cases ho : (p.graph.task t).outputChannel output with
    | none => exact produce_makes
    | some c =>
      refine Succeeds.bind (enter_spec (emittedInstance p t c e)) ?_
      rintro _ _ ⟨rfl, rfl⟩
      refine Succeeds.bind produce_makes ?_
      rintro is w' ⟨hcarry, h⟩
      obtain ⟨hl, -, hget⟩ := Ledger.create_spec w.ledger (emittedInstance p t c e) rfl
      have hid : (w.ledger.create (emittedInstance p t c e)).2 = w.ledger.cells.size := rfl
      have hsize : (w.ledger.create (emittedInstance p t c e)).1.cells.size =
          w.ledger.cells.size + 1 := Array.size_push _
      have hlt : w.ledger.cells.size < w'.ledger.cells.size :=
        Nat.lt_of_lt_of_le (hsize ▸ Nat.lt_succ_self _) h.later.size
      have hnew : w'.ledger.get (w.ledger.create (emittedInstance p t c e)).2 =
          emittedInstance p t c e := by
        rw [h.old _ (hsize ▸ hid ▸ Nat.lt_succ_self _), hget]
      refine Succeeds.pure ⟨List.Forall₂.cons ?_ hcarry, h.memory, h.run, hl.trans h.later,
        fun j hj => ?_, fun i hi => ?_⟩
      · unfold Ledger.Live
        rw [hnew]
        exact ⟨rfl, rfl⟩
      · rw [h.old j (hsize ▸ Nat.lt_succ_of_lt hj)]
        exact (Ledger.get_create _ _ _).trans (if_neg (Nat.ne_of_lt hj))
      · rcases List.mem_cons.mp hi with rfl | hi
        · exact ⟨Nat.le_refl _, hlt⟩
        · obtain ⟨hge, hlt'⟩ := h.fresh i hi
          exact ⟨Nat.le_of_succ_le (Nat.le_trans (Nat.le_of_eq hsize.symm) hge), hlt'⟩

/-- Each of the new instances has one reference. -/
theorem produce_balanced {p : Plan} {t : TaskId} : ∀ {out : Emissions} {output : Nat}
    {w : Workspace ω} {held : List InstanceId}, w.ledger.Balanced own held →
    Succeeds (produce p t output out) w fun is w' => w'.ledger.Balanced own (is ++ held)
  | [], _, _, _, hc => Succeeds.pure hc
  | none :: rest, output, _, _, hc => by
    unfold produce
    exact produce_balanced hc
  | some e :: rest, output, w, held, hc => by
    unfold produce
    cases ho : (p.graph.task t).outputChannel output with
    | none => exact produce_balanced hc
    | some c =>
      refine Succeeds.bind (enter_spec (emittedInstance p t c e)) ?_
      rintro _ _ ⟨rfl, rfl⟩
      refine Succeeds.bind (produce_balanced (hc.create (emittedInstance p t c e) rfl)) ?_
      exact fun _ _ hc' => Succeeds.pure (hc'.perm List.perm_middle.symm)

theorem produce_spec {p : Plan} {t : TaskId} {out : Emissions} {output : Nat}
    (hc : w.ledger.Covers own held) :
    Succeeds (produce p t output out) w fun is w' => Carry w'.ledger is (emitted p t output out) ∧
      w'.memory = w.memory ∧ w'.run = w.run ∧ w.ledger.Later w'.ledger ∧
      w'.ledger.Covers own (is ++ held) := by
  obtain ⟨_, hle, hb⟩ := Ledger.covers_iff.mp hc
  refine ((produce_balanced hb).and_ends (E := fun _ _ => True) produce_makes.ends).mono ?_
  rintro _ _ ⟨hb', hcarry, h⟩
  exact ⟨hcarry, h.memory, h.run, h.later, hb'.covers hle⟩

end Workspace

end Dataflow
