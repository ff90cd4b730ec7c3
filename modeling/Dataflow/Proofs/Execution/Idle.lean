import Dataflow.Proofs.Execution.PushSteps

/-!
# What is done for activators only

In between the activations of a push instances are bound to inputs, activators are put in their place
and references are given back. No operator is asked for anything there, nothing is produced and nothing
is told, however it ends, and instances go on reporting what they do.

* `Instance.measure?`: what an instance reports.
* `Ledger.Unmeasured`: computations on a ledger that leave alone what instances report.
* `Workspace.Idle`: computations in a push that have nothing to do with results.
* **`idle_feedAll`, `idle_seed`**
-/

namespace Dataflow

/-- What an instance reports: the cardinality of its data, if it was told and is of interest. -/
def Instance.measure? (x : Instance) : Option (ChannelId × Nat) :=
  if x.instrumented then x.cardinality.map (x.channel, ·) else none

theorem Instance.measure?_eq_some {x : Instance} {c : ChannelId} {n : Nat} :
    x.measure? = some (c, n) ↔ x.channel = c ∧ x.instrumented = true ∧ x.cardinality = some n := by
  unfold measure?
  cases x.instrumented <;> simp [and_comm]

theorem Instance.measure?_eq_none {x : Instance}
    (h : ∀ n, x.instrumented = true → x.cardinality = some n → False) : x.measure? = none :=
  Option.eq_none_iff_forall_ne_some.mpr fun ⟨_, n⟩ hx =>
    have ⟨_, hmark, hn⟩ := measure?_eq_some.mp hx
    h n hmark hn

/-! ## What is done to references -/

namespace Ledger

/-- The instances that there were report what they did. -/
structure SameMeasures (l l' : Ledger) : Prop where
  size : l.cells.size ≤ l'.cells.size
  measure : ∀ i < l.cells.size, (l'.get i).measure? = (l.get i).measure?

theorem SameMeasures.refl (l : Ledger) : SameMeasures l l := ⟨Nat.le_refl _, fun _ _ => rfl⟩

theorem SameMeasures.trans {l l' l'' : Ledger} (h : SameMeasures l l') (h' : SameMeasures l' l'') :
    SameMeasures l l'' := ⟨Nat.le_trans h.size h'.size, fun i hi =>
  (h'.measure i (Nat.lt_of_lt_of_le hi h.size)).trans (h.measure i hi)⟩

theorem sameMeasures_put {l : Ledger} {i : InstanceId} {x : Instance}
    (h : x.measure? = (l.get i).measure?) : SameMeasures l (l.put i x) := by
  refine ⟨Nat.le_of_eq (size_put l i x).symm, fun j _ => ?_⟩
  rw [get_put]
  split
  · rename_i hj
    rw [h, hj.1]
  · rfl

/-- A computation that changes nothing of what instances report, however it ends. -/
def Unmeasured {α : Type} (x : LedgerM α) : Prop :=
  ∀ l, Ends x l (fun _ l' => SameMeasures l l') fun _ l' => SameMeasures l l'

section Unmeasured

variable {α β : Type}

theorem Unmeasured.pure {a : α} : Unmeasured (Pure.pure a : LedgerM α) := fun l =>
  Ends.pure (SameMeasures.refl l)

theorem Unmeasured.throw {e : SchedulingError} :
    Unmeasured (MonadExceptOf.throw e : LedgerM α) := fun l => Ends.throw (SameMeasures.refl l)

theorem Unmeasured.bind {x : LedgerM α} {f : α → LedgerM β} (hx : Unmeasured x)
    (hf : ∀ a, Unmeasured (f a)) : Unmeasured (x >>= f) := fun l =>
  Ends.bind_keeps SameMeasures.trans (hx l) hf

/-- Reading the ledger. -/
theorem Unmeasured.get_bind {f : Ledger → LedgerM β} (hf : ∀ l, Unmeasured (f l)) :
    Unmeasured (MonadState.get >>= f) := fun l => hf l l

theorem unmeasured_obtain {i : InstanceId} : Unmeasured (obtain i) := by
  intro l
  unfold Ends obtain Instance.obtain
  by_cases h : (l.get i).references = 0
  · rw [if_pos h]
    exact SameMeasures.refl l
  · rw [if_neg h]
    exact sameMeasures_put rfl

theorem unmeasured_release {i : InstanceId} : Unmeasured (release i) := by
  intro l
  have hcases : (∃ e, (l.get i).release = .error e) ∨
      ∃ last x, (l.get i).release = .ok (last, x) ∧ x.measure? = (l.get i).measure? := by
    unfold Instance.release
    split
    · exact Or.inl ⟨_, rfl⟩
    · exact Or.inr ⟨_, _, rfl, rfl⟩
    · exact Or.inr ⟨_, _, rfl, rfl⟩
  unfold Ends release
  rcases hcases with ⟨e, he⟩ | ⟨last, x, hx, hsame⟩
  · rw [he]
    exact SameMeasures.refl l
  · rw [hx]
    exact sameMeasures_put hsame

theorem unmeasured_releaseEach : ∀ {is : List InstanceId}, Unmeasured (releaseEach is)
  | [] => .pure
  | _ :: _ => .bind unmeasured_release fun _ => unmeasured_releaseEach

end Unmeasured

end Ledger

namespace Activator

open Ledger

theorem unmeasured_accept {a : Activator} {input : Nat} {i : InstanceId} :
    Unmeasured (a.accept input i) := by
  unfold accept
  refine .get_bind fun l => ?_
  cases a.inputs[input]? with
  | none => exact .throw
  | some o =>
    cases o with
    | some _ => exact .throw
    | none => exact .bind unmeasured_obtain fun _ => .pure

theorem unmeasured_bindPublished {p : Plan} {state : ExecutionState} : ∀ {inputs : List Nat}
    {a : Activator}, Unmeasured (bindPublished p state a inputs)
  | [], _ => .pure
  | input :: rest, a => by
    unfold bindPublished
    cases hb : ((p.graph.task a.task).inputChannel input).bind state.get? with
    | none =>
      simp only [hb]
      exact unmeasured_bindPublished
    | some i =>
      simp only [hb]
      exact .bind unmeasured_accept fun _ => unmeasured_bindPublished

theorem unmeasured_ofState {p : Plan} {t : TaskId} {state : ExecutionState} :
    Unmeasured (ofState p t state) := unmeasured_bindPublished

theorem unmeasured_dispose {a : Activator} : Unmeasured a.dispose := unmeasured_releaseEach

end Activator

namespace Workspace

variable {ω : Type}

/-- No operator was asked for anything, nothing was produced or told, and what was produced before
reports what it did. -/
structure SameResults (w w' : Workspace ω) : Prop where
  ledger : w.ledger.SameMeasures w'.ledger
  memory : w'.memory = w.memory
  events : w'.events = w.events
  instances : w'.run.instances = w.run.instances
  executed : w'.run.executed = w.run.executed

theorem SameResults.refl (w : Workspace ω) : SameResults w w :=
  ⟨Ledger.SameMeasures.refl _, rfl, rfl, rfl, rfl⟩

theorem SameResults.trans {w₁ w₂ w₃ : Workspace ω} (h : SameResults w₁ w₂) (h' : SameResults w₂ w₃) :
    SameResults w₁ w₃ :=
  ⟨h.ledger.trans h'.ledger, h'.memory.trans h.memory, h'.events.trans h.events,
    h'.instances.trans h.instances, h'.executed.trans h.executed⟩

/-- A computation that leaves all results alone, however it ends. -/
def Idle {α : Type} (x : WorkspaceM ω α) : Prop :=
  ∀ w, Ends x w (fun _ w' => SameResults w w') fun _ w' => SameResults w w'

section Idle

variable {p : Plan} {b : Behaviour ω} {s : StageId} {state : ExecutionState} {α β : Type}

theorem Idle.pure {a : α} : Idle (Pure.pure a : WorkspaceM ω α) := fun w =>
  Ends.pure (SameResults.refl w)

theorem Idle.throw {e : ExecutionError} : Idle (MonadExceptOf.throw e : WorkspaceM ω α) :=
  fun w => Ends.throw (SameResults.refl w)

theorem Idle.bind {x : WorkspaceM ω α} {f : α → WorkspaceM ω β} (hx : Idle x)
    (hf : ∀ a, Idle (f a)) : Idle (x >>= f) := fun w =>
  Ends.bind_keeps SameResults.trans (hx w) hf

/-- Reading the workspace. -/
theorem Idle.get_bind {f : Workspace ω → WorkspaceM ω β} (hf : ∀ w, Idle (f w)) :
    Idle (get >>= f) := fun w => hf w w

theorem idle_onLedger {x : LedgerM α} (hx : Ledger.Unmeasured x) :
    Idle (onLedger x : WorkspaceM ω α) := fun w =>
  (onLedger_ends (hx w.ledger)).mono (fun _ _ ⟨_, hl, h⟩ => h ▸ ⟨hl, rfl, rfl, rfl, rfl⟩)
    fun _ _ ⟨_, _, hl, _, h⟩ => h ▸ ⟨hl, rfl, rfl, rfl, rfl⟩

theorem idle_modifyRun {f : StageRun → StageRun} (hi : ∀ r, (f r).instances = r.instances)
    (he : ∀ r, (f r).executed = r.executed) : Idle (modifyRun f : WorkspaceM ω Unit) := fun w =>
  ((modifyRun_spec f).mono fun _ _ h =>
    h ▸ ⟨Ledger.SameMeasures.refl _, rfl, rfl, hi w.run, he w.run⟩).ends

theorem idle_feed {t : TaskId} {input : Nat} {i : InstanceId} : Idle (feed p b state t input i) := by
  unfold feed
  refine .get_bind fun w => ?_
  cases w.run.find? t
  on_goal 1 =>
    refine .bind (idle_onLedger Activator.unmeasured_ofState) fun _ =>
      .bind (idle_modifyRun (fun _ => rfl) fun _ => rfl) fun _ => ?_
  -- whether the activator is new or not, it accepts the instance
  all_goals
    refine .bind .pure fun _ => .bind (idle_onLedger Activator.unmeasured_accept) fun a =>
      .bind (idle_modifyRun (fun _ => rfl) fun _ => rfl) fun _ => .get_bind fun w => ?_
    cases a.readiness p.graph b w.memory with
    | some activation => exact idle_modifyRun (fun _ => rfl) fun _ => rfl
    | none => exact .pure

theorem idle_feedEach {i : InstanceId} : ∀ {ks : List Consumer}, Idle (feedEach p b state i ks)
  | [] => .pure
  | _ :: _ => .bind idle_feed fun _ => idle_feedEach

theorem idle_feedAll : ∀ {is : List InstanceId}, Idle (feedAll p b s state is)
  | [] => .pure
  | _ :: _ => .get_bind fun _ => .bind idle_feedEach fun _ => idle_feedAll

theorem idle_seed : ∀ {ts : List TaskId}, Idle (seed p b s state ts)
  | [] => .pure
  | t :: ts => by
    unfold seed
    refine .bind (idle_onLedger Activator.unmeasured_ofState) fun a => .get_bind fun w => ?_
    cases a.readiness p.graph b w.memory with
    | some activation => exact .bind (idle_modifyRun (fun _ => rfl) fun _ => rfl) fun _ => idle_seed
    | none => exact .bind (idle_onLedger Activator.unmeasured_dispose) fun _ => .throw

end Idle

end Workspace

end Dataflow
