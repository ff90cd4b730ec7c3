import Dataflow.Proofs.Execution.Accounts
import Dataflow.Proofs.Execution.Mirror

/-!
# Handling references

What is done to the references of a ledger, step by step: an instance is created with one reference,
a reference is obtained, a reference is released. The engine does nothing else to the references, nor
can the operators, so that from one ledger to a later one the references on each instance change by
the sum of what was done to it (`Ledger.Handled`), whatever it was done for.

* `Handling`, `Handling.net`: one thing that is done, and the sum of many.
* `Ledger.Handled`: what leads from one ledger to another one, with a lemma for each operation.
* `Touch.handling?`, `handlingsOf`: what operators do, as far as it is not refused.
* `Workspace.Takes`, `feedAll_takes`: what is done when instances are fed to their readers.
* `Machine.publish_handled`, `releaseAll_handled`: what is done when a push has ended.

Operators differ in what they do to references, and the record of it is taken in the same way as that
of evaluations: it is kept beside the memory (`Behaviour.handling`), which changes nothing, so that
the results hold of operators that keep no record. What an operator attempts and is refused changes
nothing and is not in the record.
-/

namespace Dataflow

/-- One thing that is done to the references on an instance. -/
inductive Handling where
  | created (i : InstanceId)
  | obtained (i : InstanceId)
  | released (i : InstanceId)
  deriving DecidableEq, Repr

namespace Handling

/-- How many references there are more on an instance. -/
def effect (i : InstanceId) : Handling → Int
  | created j => if j = i then 1 else 0
  | obtained j => if j = i then 1 else 0
  | released j => if j = i then -1 else 0

/-- How many references there are more on an instance when all of this has been done. -/
def net (hs : List Handling) (i : InstanceId) : Int := (hs.map (effect i)).sum

variable {hs hs' : List Handling} {i : InstanceId}

@[simp] theorem net_nil : net [] i = 0 := rfl

@[simp] theorem net_cons {h : Handling} : net (h :: hs) i = h.effect i + net hs i := List.sum_cons

@[simp] theorem net_append : net (hs ++ hs') i = net hs i + net hs' i := by
  unfold net
  rw [List.map_append, List.sum_append]

/-- The order does not matter. -/
theorem net_perm (h : hs.Perm hs') : net hs i = net hs' i := by
  induction h with
  | nil => rfl
  | cons x _ ih => rw [net_cons, net_cons, ih]
  | swap x y l => simp only [net_cons, Int.add_left_comm]
  | trans _ _ ih ih' => exact ih.trans ih'

@[simp] theorem net_created {is : List InstanceId} : net (is.map created) i = is.count i := by
  induction is with
  | nil => rfl
  | cons j is ih =>
    rw [List.map_cons, net_cons, ih, effect, Ledger.count_cons_eq]
    split <;> omega

@[simp] theorem net_obtained {is : List InstanceId} : net (is.map obtained) i = is.count i := by
  induction is with
  | nil => rfl
  | cons j is ih =>
    rw [List.map_cons, net_cons, ih, effect, Ledger.count_cons_eq]
    split <;> omega

@[simp] theorem net_released {is : List InstanceId} : net (is.map released) i = -is.count i := by
  induction is with
  | nil => rfl
  | cons j is ih =>
    rw [List.map_cons, net_cons, ih, effect, Ledger.count_cons_eq]
    split <;> omega

theorem count_map_obtained {is : List InstanceId} :
    (is.map obtained).count (obtained i) = is.count i :=
  List.count_map_of_injective is obtained (fun _ _ h => Handling.obtained.inj h) i

theorem count_map_created {is : List InstanceId} :
    (is.map created).count (obtained i) = 0 := by
  rw [List.count_eq_zero]
  simp

theorem count_map_released {is : List InstanceId} :
    (is.map released).count (obtained i) = 0 := by
  rw [List.count_eq_zero]
  simp

end Handling

open Handling

/-! ## What leads from one ledger to another one -/

/-- From one ledger to another one all of this was done to the references, in this order. -/
structure Ledger.Handled (l l' : Ledger) (hs : List Handling) : Prop where
  later : l.Later l'
  references : ∀ i, ((l'.get i).references : Int) = (l.get i).references + net hs i
  obtained : ∀ i, (l'.get i).obtained = (l.get i).obtained + hs.count (.obtained i)

namespace Ledger

variable {l l' l'' : Ledger} {hs hs' : List Handling} {i : InstanceId}

theorem Handled.refl (l : Ledger) : l.Handled l [] :=
  ⟨Later.refl l, fun _ => (Int.add_zero _).symm, fun _ => rfl⟩

theorem Handled.perm (h : l.Handled l' hs) (hp : hs.Perm hs') : l.Handled l' hs' := by
  refine ⟨h.later, fun i => ?_, fun i => ?_⟩
  · rw [h.references, net_perm hp]
  · rw [h.obtained, hp.count_eq]

theorem Handled.trans (h : l.Handled l' hs) (h' : l'.Handled l'' hs') :
    l.Handled l'' (hs ++ hs') := by
  refine ⟨h.later.trans h'.later, fun i => ?_, fun i => ?_⟩
  · rw [h'.references, h.references, net_append, Int.add_assoc]
  · rw [h'.obtained, h.obtained, List.count_append, Nat.add_assoc]

/-- Changing how many references were obtained on a known instance. -/
theorem obtained_put {x : Instance} {n : Nat} (hi : n ≠ 0 → i < l.cells.size)
    (hx : x.obtained = (l.get i).obtained + n) (j : InstanceId) :
    ((l.put i x).get j).obtained = (l.get j).obtained + if i = j then n else 0 := by
  rw [get_put]
  by_cases hj : i = j
  · subst hj
    rw [if_pos rfl]
    by_cases hlt : i < l.cells.size
    · rw [if_pos ⟨rfl, hlt⟩, hx]
    · obtain rfl : n = 0 := by
        by_contra hn
        exact hlt (hi hn)
      rw [if_neg fun h => hlt h.2, Nat.add_zero]
  · rw [if_neg fun h => hj h.1, if_neg hj, Nat.add_zero]

/-- Obtaining a reference is done, or it is refused on an instance that has none. -/
theorem obtain_handled : Ends (obtain i) l
    (fun _ l' => (l.get i).references ≠ 0 ∧ l.Handled l' [.obtained i])
    fun _ l' => l' = l ∧ (l.get i).references = 0 := by
  by_cases h : (l.get i).references = 0
  · exact obtain_ends.mono (fun _ _ hok => absurd h hok.1) fun _ _ he => ⟨he.1, he.2.1⟩
  have hx : (l.get i).obtain = .ok { l.get i with
      references := (l.get i).references + 1, obtained := (l.get i).obtained + 1 } := if_neg h
  refine ((obtain_spec h).known.mono ?_).ends
  rintro _ l' ⟨heq, hl, hr⟩
  unfold obtain at heq
  simp only [hx] at heq
  obtain rfl := (EStateM.Result.ok.inj heq).2
  refine ⟨h, hl, fun j => ?_, fun j => ?_⟩
  · rw [hr j]
    simp only [net_cons, net_nil, effect]
    split <;> simp
  · rw [obtained_put (fun _ => lt_size_of_references h) rfl]
    simp [List.count_singleton]

/-- Releasing a reference is done, or it is refused on an instance that has none. -/
theorem release_handled : Ends (release i) l
    (fun _ l' => (l.get i).references ≠ 0 ∧ l.Handled l' [.released i])
    fun _ l' => l' = l ∧ (l.get i).references = 0 := by
  have hcases : ((l.get i).references = 0 ∧ ∃ e, (l.get i).release = .error e) ∨
      (l.get i).references ≠ 0 ∧
        ∃ last x, (l.get i).release = .ok (last, x) ∧ x.obtained = (l.get i).obtained := by
    unfold Instance.release
    split
    · exact Or.inl ⟨‹_›, _, rfl⟩
    · exact Or.inr ⟨by omega, _, _, rfl, rfl⟩
    · exact Or.inr ⟨by omega, _, _, rfl, rfl⟩
  rcases hcases with ⟨h, e, hrefused⟩ | ⟨h, last, x, hx, hsame⟩
  · unfold Ends release
    simp only [hrefused]
    exact ⟨trivial, h⟩
  refine ((release_spec h).known.mono ?_).ends
  rintro _ l' ⟨heq, hl, hr⟩
  unfold release at heq
  simp only [hx] at heq
  obtain rfl := (EStateM.Result.ok.inj heq).2
  refine ⟨h, hl, fun j => ?_, fun j => ?_⟩
  · rw [hr j]
    simp only [net_cons, net_nil, effect]
    by_cases hj : i = j
    · subst hj
      simp only [if_true]
      omega
    · simp [hj]
  · rw [obtained_put (n := 0) (fun h => absurd rfl h) hsame]
    simp

theorem releaseEach_handled : ∀ {is : List InstanceId} {l : Ledger},
    Ends (releaseEach is) l (fun _ l' => l.Handled l' (is.map .released)) fun _ _ => True
  | [], l => Ends.pure (Handled.refl l)
  | _ :: _, _ => Ends.bind (release_handled.mono (fun _ _ h => h.2) fun _ _ _ => trivial) fun _ _ h =>
      releaseEach_handled.mono (fun _ _ h' => h.trans h') fun _ _ _ => trivial

/-- Entering a new instance. -/
theorem create_handled {x : Instance} (hr : x.references = 1) (ho : x.obtained = 0) :
    l.Handled (l.create x).1 [.created (l.create x).2] := by
  obtain ⟨hl, hreferences, -⟩ := create_spec l x hr
  refine ⟨hl, fun j => ?_, fun j => ?_⟩
  · rw [hreferences j]
    simp only [net_cons, net_nil, effect]
    split <;> simp
  · have hcount : [Handling.created (l.create x).2].count (.obtained j) = 0 := by
      rw [List.count_eq_zero]
      simp
    rw [get_create, hcount]
    by_cases hj : j = l.cells.size
    · rw [if_pos hj, ho, hj, get_of_size_le (Nat.le_refl _)]
      rfl
    · rw [if_neg hj, Nat.add_zero]

end Ledger

/-! ## What operators do -/

/-- What comes of one thing that an operator does, given how many references there are: it is refused
on an instance without references. -/
def Touch.handling? (inputs : List (Option InstanceId)) (references : InstanceId → Nat) :
    Touch → Option Handling
  | .obtain i => (inputs[i]?).join.bind fun x =>
      if references x = 0 then none else some (.obtained x)
  | .release i => (inputs[i]?).join.bind fun x =>
      if references x = 0 then none else some (.released x)
  | .annotate _ _ => none

/-- What comes of everything that an operator does, one after the other. -/
def handlingsOf (inputs : List (Option InstanceId)) :
    (InstanceId → Nat) → List Touch → List Handling
  | _, [] => []
  | references, t :: ts =>
    match t.handling? inputs references with
    | none => handlingsOf inputs references ts
    | some h => h :: handlingsOf inputs (fun i => (references i + h.effect i).toNat) ts

namespace TaskContext

/-- The instances on the inputs. -/
def bound (ctx : TaskContext) : List (Option InstanceId) := ctx.inputs.map (Option.map BoundInput.id)

/-- How many references there are on an instance, as far as the context shows it. -/
def references (ctx : TaskContext) (i : InstanceId) : Nat :=
  match (ctx.inputs.filterMap id).find? (·.id == i) with
  | some x => x.content.references
  | none => 0

end TaskContext

namespace Ledger

variable {l l' l'' : Ledger} {hs hs' : List Handling} {i : InstanceId}

/-- What is noted about an instance leaves its references alone. -/
theorem touch_note_handled {inputs : List (Option InstanceId)} {t : Touch} (h : IsNote t) :
    l.Handled (l.touch inputs t) [] := by
  obtain ⟨hl, hr⟩ := touch_spec l inputs h
  refine ⟨hl, fun j => by rw [hr j, net_nil, Int.add_zero], fun j => ?_⟩
  cases t with
  | obtain i => exact h.elim
  | release i => exact h.elim
  | annotate i n =>
    cases hx : (inputs[i]?).join with
    | none => simp only [touch, hx, List.count_nil, Nat.add_zero]
    | some x =>
      have hsame : ((l.get x).annotate n).2.obtained = (l.get x).obtained := by
        unfold Instance.annotate
        split <;> rfl
      simp only [touch, hx, List.count_nil]
      refine (obtained_put (n := 0) (fun h => absurd rfl h) hsame j).trans ?_
      simp

/-- What an operation leaves that is done, or refused on an instance without references. -/
theorem handled_unless_refused {α : Type} {op : LedgerM α} {h : Handling}
    (hop : Ends op l (fun _ l' => (l.get i).references ≠ 0 ∧ l.Handled l' [h])
      fun _ l' => l' = l ∧ (l.get i).references = 0)
    (hrun : (∃ a, op l = .ok a l') ∨ ∃ e, op l = .error e l') :
    l.Handled l' (if (l.get i).references = 0 then none else some h).toList := by
  rcases hrun with ⟨a, hrun⟩ | ⟨e, hrun⟩
  · obtain ⟨hr, hl⟩ := hop.ok hrun
    rw [if_neg hr]
    exact hl
  · obtain ⟨rfl, hr⟩ := hop.error hrun
    rw [if_pos hr]
    exact Handled.refl l'

/-- What an operator does is refused, or it is done. -/
theorem touch_handled {inputs : List (Option InstanceId)} {references : InstanceId → Nat}
    (hr : ∀ x, some x ∈ inputs → references x = (l.get x).references) (t : Touch) :
    l.Handled (l.touch inputs t) (t.handling? inputs references).toList := by
  have hbound : ∀ {i x}, (inputs[i]?).join = some x → references x = (l.get x).references :=
    fun hx => hr _ (List.mem_of_getElem? (Option.join_eq_some_iff.mp hx))
  cases t with
  | annotate i n => exact touch_note_handled trivial
  | obtain i =>
    cases hx : (inputs[i]?).join with
    | none =>
      simp only [touch, Touch.handling?, hx]
      exact Handled.refl l
    | some x =>
      simp only [touch, Touch.handling?, hx, Option.bind_some, hbound hx]
      split
      · exact handled_unless_refused obtain_handled (Or.inl ⟨_, ‹_›⟩)
      · exact handled_unless_refused obtain_handled (Or.inr ⟨_, ‹_›⟩)
  | release i =>
    cases hx : (inputs[i]?).join with
    | none =>
      simp only [touch, Touch.handling?, hx]
      exact Handled.refl l
    | some x =>
      simp only [touch, Touch.handling?, hx, Option.bind_some, hbound hx]
      split
      · exact handled_unless_refused release_handled (Or.inl ⟨_, ‹_›⟩)
      · exact handled_unless_refused release_handled (Or.inr ⟨_, ‹_›⟩)

theorem touches_handled {inputs : List (Option InstanceId)} : ∀ {ts : List Touch} {l : Ledger}
    {references : InstanceId → Nat}, (∀ x, some x ∈ inputs → references x = (l.get x).references) →
    l.Handled (ts.foldl (fun l t => l.touch inputs t) l) (handlingsOf inputs references ts)
  | [], l, _, _ => Handled.refl l
  | t :: ts, l, references, hr => by
    have h := touch_handled hr t
    unfold handlingsOf
    cases ht : t.handling? inputs references with
    | none =>
      rw [ht] at h
      refine h.trans (touches_handled fun x hx => ?_)
      have := h.references x
      simp only [Option.toList_none, net_nil] at this
      rw [hr x hx]
      omega
    | some handling =>
      rw [ht] at h
      refine h.trans (touches_handled fun x hx => ?_)
      have := h.references x
      simp only [Option.toList_some, net_cons, net_nil] at this
      rw [hr x hx]
      omega

end Ledger

/-- The operators' memory has a record of what an operator does to the references on its inputs. -/
structure Behaviour.LogsHandlings {ω : Type} (b : Behaviour ω) (o : ObjectId)
    (log : ω → List Handling) : Prop where
  prepare : ∀ ctx m, log (b.prepare o ctx m).memory = log m ++
    handlingsOf ctx.bound ctx.references (b.prepare o ctx m).touches
  evaluate : ∀ ctx m, log (b.evaluate o ctx m).memory = log m ++
    handlingsOf ctx.bound ctx.references (b.evaluate o ctx m).touches
  advance : ∀ s m, log (b.advance o s m).2 = log m

/-- The same operators, with a record of what they do to references beside their memory. -/
def Behaviour.handling {ω : Type} (b : Behaviour ω) : Behaviour (ω × List Handling) where
  prepare o ctx m :=
    let r := b.prepare o ctx m.1
    { result := r.result, emissions := r.emissions, touches := r.touches,
      memory := (r.memory, m.2 ++ handlingsOf ctx.bound ctx.references r.touches) }
  evaluate o ctx m :=
    let r := b.evaluate o ctx m.1
    { result := r.result, emissions := r.emissions, touches := r.touches,
      memory := (r.memory, m.2 ++ handlingsOf ctx.bound ctx.references r.touches) }
  loopState o m := b.loopState o m.1
  advance o s m := ((b.advance o s m.1).1, (b.advance o s m.1).2, m.2)

theorem Behaviour.logsHandlings_handling {ω : Type} (b : Behaviour ω) (o : ObjectId) :
    b.handling.LogsHandlings o Prod.snd := ⟨fun _ _ => rfl, fun _ _ => rfl, fun _ _ => rfl⟩

/-- The record changes nothing of what is executed. -/
theorem Behaviour.mirrors_handling {ω : Type} (b : Behaviour ω) :
    b.handling.Mirrors b Prod.fst :=
  ⟨fun _ _ _ => rfl, fun _ _ _ => rfl, fun _ _ => rfl, fun _ _ _ => rfl⟩

theorem handlingsOf_notes {inputs : List (Option InstanceId)} : ∀ {ts : List Touch}
    {references : InstanceId → Nat}, (∀ t ∈ ts, Ledger.IsNote t) →
      handlingsOf inputs references ts = []
  | [], _, _ => rfl
  | .annotate i n :: ts, references, h => by
    unfold handlingsOf Touch.handling?
    exact handlingsOf_notes fun t ht => h t (List.mem_cons_of_mem _ ht)
  | .obtain i :: ts, references, h => (h _ List.mem_cons_self).elim
  | .release i :: ts, references, h => (h _ List.mem_cons_self).elim

/-- The operator of a task neither obtains nor releases references. -/
structure Behaviour.OnlyNotes {ω : Type} (b : Behaviour ω) (o : ObjectId) : Prop where
  prepare : ∀ ctx m, ∀ x ∈ (b.prepare o ctx m).touches, Ledger.IsNote x
  evaluate : ∀ ctx m, ∀ x ∈ (b.evaluate o ctx m).touches, Ledger.IsNote x

/-- Its record is empty. -/
theorem Behaviour.OnlyNotes.logsHandlings {ω : Type} {b : Behaviour ω} {o : ObjectId}
    (h : b.OnlyNotes o) : b.LogsHandlings o fun _ => [] :=
  ⟨fun ctx m => (handlingsOf_notes (h.prepare ctx m)).symm,
    fun ctx m => (handlingsOf_notes (h.evaluate ctx m)).symm, fun _ _ => rfl⟩

/-! ## Gathering inputs -/

namespace Activator

variable {l : Ledger} {p : Plan} {state : ExecutionState}

theorem accept_handled {a : Activator} {input : Nat} {i : InstanceId} :
    Ends (a.accept input i) l (fun a' l' => a'.task = a.task ∧ a'.bound.Perm (i :: a.bound) ∧
      l.Handled l' [.obtained i]) fun _ _ => True := by
  unfold accept
  refine Ends.bind (R := fun s l' => s = l ∧ l' = l) ⟨rfl, rfl⟩ ?_
  rintro _ _ ⟨rfl, rfl⟩
  cases h : a.inputs[input]? with
  | none => exact Ends.throw trivial
  | some o =>
    cases o with
    | some _ => exact Ends.throw trivial
    | none =>
      exact Ends.bind (Ledger.obtain_handled.mono (fun _ _ h => h) fun _ _ _ => trivial) fun _ _ hl =>
        Ends.pure ⟨rfl, bound_bind h i, hl.2⟩

/-- What is bound is published. -/
theorem bindPublished_handled : ∀ {inputs : List Nat} {a : Activator} {l : Ledger},
    Ends (bindPublished p state a inputs) l (fun a' l' => a'.task = a.task ∧
      ∃ xs, (∀ x ∈ xs, ∃ c, state.get? c = some x) ∧ a'.bound.Perm (xs ++ a.bound) ∧
        l.Handled l' (xs.map .obtained)) fun _ _ => True
  | [], a, l => Ends.pure ⟨rfl, [], nofun, List.Perm.refl _, Ledger.Handled.refl l⟩
  | input :: rest, a, l => by
    unfold bindPublished
    cases hb : ((p.graph.task a.task).inputChannel input).bind state.get? with
    | none =>
      simp only [hb]
      exact bindPublished_handled
    | some i =>
      obtain ⟨c, -, hi⟩ := Option.bind_eq_some_iff.mp hb
      simp only [hb]
      refine Ends.bind accept_handled ?_
      rintro a₁ l₁ ⟨ht₁, hp₁, hl₁⟩
      refine bindPublished_handled.mono ?_ fun _ _ _ => trivial
      rintro a₂ l₂ ⟨ht₂, xs, hxs, hp₂, hl₂⟩
      refine ⟨ht₂.trans ht₁, i :: xs, fun x hx => ?_, ?_, hl₁.trans hl₂⟩
      · rcases List.mem_cons.mp hx with rfl | hx
        · exact ⟨c, hi⟩
        · exact hxs x hx
      · exact (hp₂.trans (List.Perm.append_left xs hp₁)).trans List.perm_middle

theorem ofState_handled {t : TaskId} : Ends (ofState p t state) l (fun a l' => a.task = t ∧
    (∀ x ∈ a.bound, ∃ c, state.get? c = some x) ∧ l.Handled l' (a.bound.map .obtained))
    fun _ _ => True := by
  refine bindPublished_handled.mono ?_ fun _ _ _ => trivial
  rintro a l' ⟨ht, xs, hxs, hp, hl⟩
  rw [bound_ofTask, List.append_nil] at hp
  exact ⟨ht, fun x hx => hxs x (hp.mem_iff.mp hx), hl.perm (hp.symm.map _)⟩

end Activator

/-! ## Feeding -/

namespace Workspace

variable {ω : Type} {p : Plan} {b : Behaviour ω} {s : StageId} {state : ExecutionState}
  {w w' w'' : Workspace ω} {xs ys zs : List InstanceId}

/-- The instances `ys` were bound to inputs in the stage, in addition to what is published. -/
structure Takes (p : Plan) (s : StageId) (state : ExecutionState) (w : Workspace ω)
    (ys : List InstanceId) (w' : Workspace ω) : Prop where
  memory : w'.memory = w.memory
  instances : w'.run.instances = w.run.instances
  isOf : w'.run.IsOf p s
  handled : ∃ xs, (∀ x ∈ xs, ∃ c, state.get? c = some x) ∧
    w.ledger.Handled w'.ledger ((ys ++ xs).map .obtained) ∧
    w'.run.held.Perm (ys ++ xs ++ w.run.held)

theorem Takes.refl (h : w.run.IsOf p s) : Takes p s state w [] w :=
  ⟨rfl, rfl, h, [], nofun, Ledger.Handled.refl _, List.Perm.refl _⟩

theorem Takes.trans (h : Takes p s state w ys w') (h' : Takes p s state w' zs w'') :
    Takes p s state w (ys ++ zs) w'' := by
  obtain ⟨xs, hxs, hl, hp⟩ := h.handled
  obtain ⟨xs', hxs', hl', hp'⟩ := h'.handled
  have hperm : (ys ++ xs ++ (zs ++ xs')).Perm (ys ++ zs ++ (xs ++ xs')) := by
    simp only [List.append_assoc]
    exact List.Perm.append_left ys (List.perm_append_comm_assoc _ _ _)
  refine ⟨h'.memory.trans h.memory, h'.instances.trans h.instances, h'.isOf, xs ++ xs', ?_, ?_, ?_⟩
  · exact fun x hx => (List.mem_append.mp hx).elim (hxs x) (hxs' x)
  · refine (hl.trans hl').perm ?_
    rw [← List.map_append]
    exact hperm.map _
  · refine (hp'.trans (List.Perm.append_left _ hp)).trans ?_
    rw [← List.append_assoc]
    refine List.Perm.append_right _ (List.Perm.trans ?_ hperm)
    exact List.perm_append_comm

/-- Feeding an input of a task of the stage. -/
theorem feed_takes (h : w.run.IsOf p s) {t : TaskId} (ht : t ∈ (p.stage s).tasks) {input : Nat}
    {x : InstanceId} : Ends (feed p b state t input x) w (fun _ w' => Takes p s state w [x] w')
      fun _ _ => True := by
  -- an activator that waits binds one more input
  have hbind : ∀ {a : Activator} {w₁ : Workspace ω}, w₁.run.IsOf p s → a.task = t →
      w₁.run.held.Perm (a.bound ++ heldElsewhere w₁.run t) → Ends (bindInput p b a input x) w₁
        (fun _ w' => Takes p s state w₁ [x] w') fun _ _ => True := by
    intro a w₁ h₁ htask hheld
    refine (bindInput_ends Activator.accept_handled).mono ?_ fun _ _ _ => trivial
    rintro _ _ ⟨a', l, ⟨htask', hbound, hl⟩, rfl⟩
    rw [htask] at htask'
    refine ⟨rfl, instances_settle, h₁.settle (htask' ▸ ht) _, [], List.forall_mem_nil _, hl,
      (StageRun.held_settle w₁.run a' _).trans ?_⟩
    rw [htask']
    exact (hbound.append_right _).trans (hheld.symm.cons x)
  unfold feed
  refine Ends.bind Succeeds.get.ends ?_
  rintro _ _ ⟨rfl, rfl⟩
  cases hfind : w.run.find? t with
  | some a =>
    obtain ⟨htask, hheld⟩ := StageRun.held_of_find? h.staged hfind
    exact hbind h htask hheld
  | none =>
    refine Ends.bind ((onLedger_ends Activator.ofState_handled).mono (fun _ _ h => h)
      fun _ _ _ => trivial) ?_
    rintro a _ ⟨l, ⟨rfl, hpublished, hl⟩, rfl⟩
    refine Ends.bind (modifyRun_spec _).ends ?_
    rintro _ _ rfl
    have hheld : (w.run.stage a).held.Perm (a.bound ++ heldElsewhere w.run a.task) :=
      StageRun.held_settle w.run a none
    have hmade : Takes p s state w [] { w with ledger := l, run := w.run.stage a } := by
      refine ⟨rfl, rfl, h.settle ht none, a.bound, hpublished, hl, ?_⟩
      rw [StageRun.heldElsewhere_of_none hfind] at hheld
      exact hheld
    refine (hbind hmade.isOf rfl (hheld.trans ?_)).mono (fun _ _ h' => hmade.trans h')
      fun _ _ _ => trivial
    exact List.Perm.append_left _ (StageRun.heldElsewhere_stage w.run a).symm

/-- Feeding an instance to some readers in the stage. -/
theorem feedEach_takes {x : InstanceId} : ∀ {ks : List Consumer} {w : Workspace ω},
    (∀ k ∈ ks, k.task ∈ (p.stage s).tasks) → w.run.IsOf p s → Ends (feedEach p b state x ks) w
      (fun _ w' => Takes p s state w (List.replicate ks.length x) w') fun _ _ => True
  | [], _, _, h => Ends.pure (Takes.refl h)
  | k :: _, _, hks, h => Ends.bind (feed_takes h (hks k List.mem_cons_self)) fun _ _ h₁ =>
      (feedEach_takes (fun j hj => hks j (List.mem_cons_of_mem _ hj)) h₁.isOf).mono
        (fun _ _ h₂ => h₁.trans h₂) fun _ _ _ => trivial

/-- Each instance as often as it has readers inside the stage. -/
def readings (p : Plan) (s : StageId) (l : Ledger) (is : List InstanceId) : List InstanceId :=
  is.flatMap fun i => List.replicate (innerConsumers p s (l.get i).channel).length i

theorem readings_later {l l' : Ledger} (hl : l.Later l') {is : List InstanceId}
    (his : ∀ i ∈ is, i < l.cells.size) : readings p s l' is = readings p s l is := by
  unfold readings
  exact List.flatMap_congr fun i hi => by rw [hl.channel i (his i hi)]

/-- Feeding instances to all of their readers in the stage. -/
theorem feedAll_takes (hp : p.IsOrderly s) : ∀ {is : List InstanceId} {w : Workspace ω},
    (∀ i ∈ is, i < w.ledger.cells.size) → w.run.IsOf p s → Ends (feedAll p b s state is) w
      (fun _ w' => Takes p s state w (readings p s w.ledger is) w') fun _ _ => True
  | [], _, _, h => Ends.pure (Takes.refl h)
  | i :: is, w, his, h => by
    unfold feedAll
    refine Ends.bind Succeeds.get.ends ?_
    rintro _ _ ⟨rfl, rfl⟩
    have hreaders : ∀ k ∈ innerConsumers p s (w.ledger.get i).channel, k.task ∈ (p.stage s).tasks :=
      fun k hk => (hp.placed _).mp (stage_of_mem_innerConsumers hk)
    refine Ends.bind (feedEach_takes hreaders h) fun _ w₁ h₁ => ?_
    obtain ⟨_, -, hl, -⟩ := h₁.handled
    have his' : ∀ j ∈ is, j < w.ledger.cells.size := fun j hj => his j (List.mem_cons_of_mem _ hj)
    refine (feedAll_takes hp (fun j hj => Nat.lt_of_lt_of_le (his' j hj) hl.later.size)
      h₁.isOf).mono (fun _ _ h₂ => ?_) fun _ _ _ => trivial
    rw [readings_later hl.later his'] at h₂
    exact h₁.trans h₂

end Workspace

/-! ## Publishing and giving back -/

namespace Store

variable {st : Store} {i : InstanceId} {is : List InstanceId}

/-- What is published for the channels of some instances, and is released when these are published. -/
def replacedBy (st : Store) (is : List InstanceId) : List InstanceId :=
  (is.map fun i => (st.ledger.get i).channel).filterMap st.state.get?

/-- Publishing obtains a reference, and it releases the one on the instance that is replaced. -/
theorem register_handled : Ends (register i) st
    (fun _ st' => st.ledger.Handled st'.ledger (.obtained i :: (st.replacedBy [i]).map .released))
    fun _ _ => True := by
  refine register_of (R := fun l => st.ledger.Handled l [.obtained i]) ?_ (fun l hl hnone => ?_)
    fun l q hl hq => ?_
  · refine Ledger.obtain_handled.mono (fun _ l hl => ?_) fun _ _ _ => trivial
    exact ⟨hl.2, hl.2.later.channel i (Ledger.lt_size_of_references hl.1)⟩
  · have hreplaced : st.replacedBy [i] = [] := by simp [replacedBy, hnone]
    rw [hreplaced]
    exact hl
  · have hreplaced : st.replacedBy [i] = [q] := by simp [replacedBy, hq]
    rw [hreplaced]
    exact Ledger.release_handled.mono (fun _ _ hl' => hl.trans hl'.2) fun _ _ _ => trivial

/-- What is replaced after a first instance of another channel has been published. -/
theorem Registers.replacedBy {st' : Store} (h : Registers st i st')
    (hmap : is.map (fun j => (st'.ledger.get j).channel) = is.map fun j => (st.ledger.get j).channel)
    (hne : (st.ledger.get i).channel ∉ is.map fun j => (st.ledger.get j).channel) :
    st'.replacedBy is = st.replacedBy is := by
  unfold Store.replacedBy
  rw [hmap]
  refine List.filterMap_congr fun c hc => ?_
  have hc' : c ≠ (st.ledger.get i).channel := fun heq => hne (heq ▸ hc)
  rw [h.get?, if_neg hc']

/-- Publishing instances of different channels. -/
theorem registerEach_handled : ∀ {is : List InstanceId} {st : Store},
    (∀ i ∈ is, i < st.ledger.cells.size) → (is.map fun i => (st.ledger.get i).channel).Nodup →
    Ends (registerEach is) st (fun _ st' => st.ledger.Handled st'.ledger
      (is.map .obtained ++ (st.replacedBy is).map .released)) fun _ _ => True
  | [], st, _, _ => Ends.pure (Ledger.Handled.refl _)
  | i :: is, st, hknown, hn => by
    obtain ⟨hnot, hn⟩ := List.nodup_cons.mp hn
    have hknown' : ∀ j ∈ is, j < st.ledger.cells.size := fun j hj =>
      hknown j (List.mem_cons_of_mem _ hj)
    unfold registerEach
    refine Ends.bind ((register_handled.and register_ends).mono (fun _ _ h => h)
      fun _ _ _ => trivial) ?_
    rintro _ st₁ ⟨hl₁, h₁⟩
    have hmap : is.map (fun j => (st₁.ledger.get j).channel) =
        is.map fun j => (st.ledger.get j).channel :=
      List.map_congr_left fun j hj => h₁.later.channel j (hknown' j hj)
    refine (registerEach_handled (fun j hj => Nat.lt_of_lt_of_le (hknown' j hj) h₁.later.size)
      (hmap ▸ hn)).mono (fun _ st₂ hl₂ => ?_) fun _ _ _ => trivial
    rw [h₁.replacedBy hmap hnot] at hl₂
    have hsplit : st.replacedBy (i :: is) = st.replacedBy [i] ++ st.replacedBy is :=
      List.filterMap_append (l := [(st.ledger.get i).channel])
    refine (hl₁.trans hl₂).perm ?_
    rw [hsplit, List.map_append, List.map_cons, List.cons_append, List.cons_append]
    exact (List.perm_append_comm_assoc _ _ _).cons _

end Store

namespace Machine

variable {ω : Type} {p : Plan} {m : Machine ω} {is : List InstanceId}

/-- The instances that other stages need. -/
def outward (p : Plan) (l : Ledger) (is : List InstanceId) : List InstanceId :=
  is.filter fun i => p.isOutward (l.get i).channel

/-- What is to be published is obtained, and what it replaces is released. -/
theorem publish_handled {config : ExecutorConfig} {s : StageId}
    (hknown : ∀ i ∈ is, i < m.ledger.cells.size)
    (hn : (is.map fun i => (m.ledger.get i).channel).Nodup) : Ends (publish p config s is) m
      (fun _ m' => m.ledger.Handled m'.ledger ((outward p m.ledger is).map .obtained ++
        (Store.replacedBy ⟨m.ledger, m.state⟩ (outward p m.ledger is)).map .released))
      fun _ _ => True := by
  unfold publish
  refine Ends.bind Succeeds.get.ends ?_
  rintro _ _ ⟨rfl, rfl⟩
  simp only
  split
  · exact Ends.bind (R := fun _ _ => False) (Ends.throw trivial) nofun
  · refine Ends.bind ((onStore_ends (Store.registerEach_handled (fun i hi =>
      hknown i (List.mem_filter.mp hi).1) (hn.sublist (List.filter_sublist.map _)))).mono
      (fun _ _ h => h) fun _ _ _ => trivial) ?_
    rintro _ _ ⟨st, hl, rfl⟩
    split
    · exact (recordCardinalities_spec.mono fun _ m' hm => by rw [hm.ledger]; exact hl).ends
    · exact Ends.pure hl

end Machine

theorem attemptAll_handled : ∀ {iss : List (List InstanceId)} {l : Ledger},
    Ends (attemptAll (iss.map Ledger.releaseEach)) l
      (fun _ l' => l.Handled l' (iss.flatten.map .released)) fun _ _ => True
  | [], l => Ends.pure (Ledger.Handled.refl l)
  | is :: iss, l => by
    have hfirst := @Ledger.releaseEach_handled is l
    unfold Ends at hfirst ⊢
    rw [List.map_cons, attemptAll_cons]
    cases hx : Ledger.releaseEach is l with
    | error e l₁ =>
      simp only
      cases attemptAll (iss.map Ledger.releaseEach) l₁ <;> trivial
    | ok _ l₁ =>
      simp only [hx] at hfirst ⊢
      rw [List.flatten_cons, List.map_append]
      exact attemptAll_handled.mono (fun _ _ h => hfirst.trans h) fun _ _ _ => trivial

/-- A stage execution that gives back everything that it holds. -/
theorem releaseAll_handled {r : StageRun} {l : Ledger} : Ends r.releaseAll l
    (fun _ l' => l.Handled l' (r.held.map .released)) fun _ _ => True := by
  rw [r.releaseAll_eq, ← r.flatten_held]
  exact attemptAll_handled

end Dataflow
