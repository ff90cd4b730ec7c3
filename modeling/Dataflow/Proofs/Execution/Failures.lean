import Dataflow.Proofs.Execution.Atomic

/-!
# What a stage execution fails with

With operators that leave references alone, the engine's own bookkeeping never fails. An input is
offered one instance in a stage execution, and the instance is held while it is (`Workspace.Lawful`):
so a stage execution fails in an operator or because a start task is not ready. The driver of a plan
does not start such a stage, provided that the loop heads wait for inputs that they have.

The driver and the executor decide by different means whether a start task is ready. The driver looks
whether each input that the task waits for is fed from a published channel or from inside the stage;
the executor binds what is published and looks which inputs are bound. The two agree on inputs that
exist. An input that a loop head waits for and does not have counts as provided for the driver and is
never bound by the executor (`narrow_notReady`), so that the stage is started and fails.

* `feed_lawful`, `executeTask_lawful`, `push_lawful`: the steps of a push, and a whole push.
* `executeStage_falls`: a stage execution.
* `readiness_of_inboundReady`: what the driver takes for ready the executor does too.
* **`PreliminaryPlan.failures_of_careful`**
* `narrow_notReady`: a loop head that waits for an input that it does not have.

The state may be any in which what is published is live, as it is at the beginning and between stage
executions. What is left as a failure belongs to an operator: its own error, of getting ready or of
computing, in a task of the stage. A plan execution can still end in the ways that are its own, with
stages that cannot be executed, an unfinished loop or the limit.
-/

namespace Dataflow

/-- What a state publishes has its data. -/
def ExecutionState.IsFurnished (state : ExecutionState) (l : Ledger) : Prop :=
  ∀ c i, state.get? c = some i → (l.get i).payload ≠ none

namespace Workspace

variable {ω : Type} {p : Plan} {b : Behaviour ω} {s : StageId} {state : ExecutionState}
  {l₀ : Ledger} {own : InstanceId → Nat} {fed : Consumer → Prop} {done : List TaskId}
  {w : Workspace ω} {a : Activator}

/-- A push that executes each task once and keeps its accounts. What it holds has its data if what
it found published had. -/
structure Lawful (p : Plan) (b : Behaviour ω) (s : StageId) (state : ExecutionState) (l₀ : Ledger)
    (own : InstanceId → Nat) (fed : Consumer → Prop) (done : List TaskId) (w : Workspace ω) :
    Prop where
  once : Once p s state l₀ fed done w
  sound : Sound p s l₀ own w
  ready : ∀ r ∈ w.run.ready, ∃ m, r.1.readiness p.graph b m = some r.2
  data : state.IsFurnished l₀ → ∀ i ∈ w.run.held, (w.ledger.get i).payload ≠ none

/-! ## Feeding -/

/-- An input that waits to be fed is free. -/
theorem Awaited.free {c : ChannelId} {k : Consumer} (hk : Awaited p s fed c k)
    (hb : Binds p state fed a) (htask : a.task = k.task) : a.inputs[k.input]? = some none := by
  have hlt : k.input < a.inputs.length := by
    rw [hb.length, htask]
    exact lt_length_of_inputChannel hk.channel
  rw [List.getElem?_eq_getElem hlt]
  cases hx : a.inputs[k.input] with
  | none => rfl
  | some x =>
    have hbound : a.isBound k.input = true := by
      unfold Activator.isBound
      rw [List.getElem?_eq_getElem hlt, hx]
      rfl
    rcases hb.inner _ hbound with hext | hfed
    · rw [htask, hk.inner] at hext
      exact absurd hext nofun
    · rw [htask] at hfed
      exact (hk.unfed hfed).elim

/-- Feeding an instance that is held to an input that waits for it does not fail. -/
theorem feed_succeeds (hown : ∀ c i, state.get? c = some i → own i ≠ 0) {c : ChannelId}
    {k : Consumer} {x : InstanceId} (h : Lawful p b s state l₀ own fed done w)
    (hk : Awaited p s fed c k) (hx : x ∈ w.run.held) :
    Succeeds (feed p b state k.task k.input x) w fun _ _ => True := by
  have hbind : ∀ {a : Activator} {w₁ : Workspace ω}, a.inputs[k.input]? = some none →
      (w₁.ledger.get x).references ≠ 0 →
        Succeeds (bindInput p b a k.input x) w₁ fun _ _ => True := by
    intro a w₁ hfree hr
    have hends := bindInput_ends (p := p) (b := b) (E := fun _ _ => False)
      (Activator.accept_live hfree hr).ends
    refine (hends.succeeds ?_).mono fun _ _ _ => trivial
    rintro _ _ ⟨_, _, hfalse, -⟩
    exact hfalse
  unfold feed
  refine Succeeds.bind Succeeds.get ?_
  rintro _ _ ⟨rfl, rfl⟩
  cases hfind : w.run.find? k.task with
  | some a =>
    obtain ⟨htask, hb, -⟩ := h.once.waiting hk (.found hfind)
    exact hbind (hk.free hb htask) (h.sound.balanced.references_of_mem hx)
  | none =>
    refine Succeeds.bind (onLedger_spec ((Activator.ofState_balanced (p := p) (t := k.task) hown
      h.sound.balanced).and_ends Activator.ofState_ends)) ?_
    rintro a _ ⟨l, ⟨hbalanced, htask, hlen, hin, -⟩, rfl⟩
    refine Succeeds.bind (modifyRun_spec _) ?_
    rintro _ _ rfl
    exact hbind (hk.free (binds_ofState htask hlen hin) htask)
      (hbalanced.references_of_mem (List.mem_append_right _ hx))

/-- An activator that has gathered its external inputs has bound what is published. -/
theorem Binds.published (h : ∀ fed, Binds p state fed a) {i : InstanceId} (hi : i ∈ a.bound) :
    ∃ c, state.get? c = some i := by
  obtain ⟨o, ho, rfl⟩ := List.mem_filterMap.mp hi
  obtain ⟨j, hj, hget⟩ := List.getElem_of_mem ho
  have hinput : a.inputs[j]? = some (some i) := by
    rw [List.getElem?_eq_getElem hj, hget]
  have hbound : a.isBound j = true := by
    unfold Activator.isBound
    rw [hinput]
    rfl
  have hext := ((h fun _ => False).inner j hbound).resolve_right id
  have hpublished := (h fun _ => False).external j hext
  rw [hinput] at hpublished
  obtain ⟨c, -, hc⟩ := Option.bind_eq_some_iff.mp (Option.some.inj hpublished).symm
  exact ⟨c, hc⟩

/-- A stage execution holds what its activators have bound. -/
theorem mem_held {r : StageRun} (ha : a ∈ r.activators) {i : InstanceId} (hi : i ∈ a.bound) :
    i ∈ r.held := List.mem_append_left _ (List.mem_flatMap.mpr ⟨a, ha, hi⟩)

theorem mem_activators_of_mem_others {r : StageRun} {t : TaskId} {x : Activator}
    (hx : x ∈ others r t) : x ∈ r.activators :=
  (List.mem_append.mp hx).elim (fun hx => List.mem_append_left _ (List.mem_filter.mp hx).1)
    fun hx => List.mem_append_right _ hx

/-- An activator that starts to wait has bound what is published. -/
theorem Waiting.held {t : TaskId} {w₁ : Workspace ω} (h : Waiting p state w t a w₁)
    {i : InstanceId} (hi : i ∈ a.bound ∨ i ∈ w₁.run.held) :
    i ∈ w.run.held ∨ ∃ c, state.get? c = some i := by
  cases h with
  | found hfind =>
    refine Or.inl (hi.elim (fun hi => mem_held ?_ hi) id)
    exact List.mem_append_left _ (List.mem_of_find?_eq_some hfind)
  | made hfind htask hb hl =>
    rcases hi with hi | hi
    · exact Or.inr (Binds.published hb hi)
    · rcases List.mem_append.mp hi with hi | hi
      · obtain ⟨y, hy, hbound⟩ := List.mem_flatMap.mp hi
        rcases List.mem_cons.mp ((activators_stage w.run a).mem_iff.mp hy) with rfl | hy
        · exact Or.inr (Binds.published hb hbound)
        · exact Or.inl (mem_held (mem_activators_of_mem_others hy) hbound)
      · exact Or.inl (List.mem_append_right _ hi)

/-- What feeding an input takes up: the instance that is fed and what is published. -/
theorem feed_gains {t : TaskId} {input : Nat} {x : InstanceId} :
    Ends (feed p b state t input x) w (fun _ w' => w.ledger.Later w'.ledger ∧
      (∀ i ∈ w'.run.held, i ∈ x :: w.run.held ∨ ∃ c, state.get? c = some i) ∧
      ∀ r ∈ w'.run.ready, r ∈ w.run.ready ∨ ∃ m, r.1.readiness p.graph b m = some r.2)
      fun _ _ => True := by
  refine feed_ends (fun {a w₁ l} hw hl hfree => ⟨hw.later.trans hl, fun i hi => ?_, fun r hr => ?_⟩)
    fun _ _ _ => trivial
  · have hold : i ∈ a.bound ∨ i ∈ w₁.run.held →
        i ∈ x :: w.run.held ∨ ∃ c, state.get? c = some i := fun hi =>
      (hw.held hi).imp_left (List.mem_cons_of_mem _)
    rcases List.mem_append.mp hi with hi | hi
    · obtain ⟨y, hy, hi⟩ := List.mem_flatMap.mp hi
      rcases List.mem_cons.mp (activators_settle.mem_iff.mp hy) with rfl | hy
      · rcases List.mem_cons.mp ((Activator.bound_bind hfree x).mem_iff.mp hi) with rfl | hi
        · exact Or.inl List.mem_cons_self
        · exact hold (Or.inl hi)
      · exact hold (Or.inr (mem_held (mem_activators_of_mem_others hy) hi))
    · refine hold (Or.inr (List.mem_append_right _ ?_))
      change i ∈ (settle _ _ _).instances at hi
      rwa [instances_settle] at hi
  · rcases mem_ready_settle.mp hr with hr | ⟨heq, hnext⟩
    · exact Or.inl (hw.ready ▸ hr)
    · exact Or.inr ⟨w₁.memory, heq ▸ hnext⟩

/-- What is held and published goes on to have its data. -/
theorem Lawful.data_of_later (h : Lawful p b s state l₀ own fed done w)
    (hfurnished : state.IsFurnished l₀) {w' : Workspace ω} (hl : w.ledger.Later w'.ledger)
    {i : InstanceId} (hi : i ∈ w.run.held ∨ ∃ c, state.get? c = some i)
    (hown : ∀ c i, state.get? c = some i → own i ≠ 0) (hr : (w'.ledger.get i).references ≠ 0) :
    (w'.ledger.get i).payload ≠ none := by
  have hdata : (w.ledger.get i).references ≠ 0 ∧ (w.ledger.get i).payload ≠ none := by
    rcases hi with hi | ⟨c, hi⟩
    · exact ⟨h.sound.balanced.references_of_mem hi, h.data hfurnished i hi⟩
    · have hr₀ := h.sound.balanced.references_of_own (hown c i hi)
      refine ⟨hr₀, ?_⟩
      by_cases hlt : i < l₀.cells.size
      · rw [(h.sound.later.payload i hlt hr₀).2]
        exact hfurnished c i hi
      · refine absurd ?_ (hfurnished c i hi)
        rw [Ledger.get_of_size_le (Nat.le_of_not_lt hlt)]
        rfl
  rw [(hl.payload i (Ledger.lt_size_of_references hdata.1) hr).2]
  exact hdata.2

/-- Feeding an instance that is held to an input that waits for it. -/
theorem feed_lawful (hp : p.IsOrderly s) (hown : ∀ c i, state.get? c = some i → own i ≠ 0)
    {c : ChannelId} {k : Consumer} {x : InstanceId} (h : Lawful p b s state l₀ own fed done w)
    (hk : Awaited p s fed c k) (hx : x ∈ w.run.held) :
    Succeeds (feed p b state k.task k.input x) w fun _ w' =>
      Lawful p b s state l₀ own (andFed fed k) done w' ∧ Frame w w' := by
  refine ((feed_succeeds hown h hk hx).and_ends ((feed_once hp h.once hk).and
    ((feed_keeps hown hk.mem h.sound).and feed_gains))).mono ?_
  rintro _ w' ⟨-, ⟨honce, hframe⟩, hsound, hl, hheld, hready⟩
  refine ⟨⟨honce, hsound, fun r hr => (hready r hr).elim (h.ready r) id, fun hfurnished i hi => ?_⟩,
    hframe⟩
  refine h.data_of_later hfurnished hl ((hheld i hi).imp_left fun hi => ?_) hown
    (hsound.balanced.references_of_mem hi)
  exact (List.mem_cons.mp hi).elim (fun heq => heq ▸ hx) id

/-! ## Executing a task -/

/-- The operator of a task fails, with all that is known of a push that got that far. -/
def Falls (p : Plan) (b : Behaviour ω) (s : StageId) (state : ExecutionState) (l₀ : Ledger)
    (own : InstanceId → Nat) (e : ExecutionError) : Prop :=
  ∃ done w a activation rest w₁ cause, Lawful p b s state l₀ own (fedBy p s done) done w ∧
    w.run.ready = (a, activation) :: rest ∧ Computes p b a activation w w₁ (.error cause) ∧
    e = .task a.task (p.graph.task a.task).operator.name s cause

/-- Executing the first ready activator fails only if its operator does. -/
theorem executeTask_lawful (hp : p.IsOrderly s)
    (hown : ∀ c i, state.get? c = some i → own i ≠ 0)
    (h : Lawful p b s state l₀ own (fedBy p s done) done w) {activation : Activation}
    {rest : List (Activator × Activation)} (hready : w.run.ready = (a, activation) :: rest)
    (hb : b.Careful p.graph a.task) :
    Ends (executeTask p b s state a activation) { w with run := { w.run with ready := rest } }
      (fun _ w' => Lawful p b s state l₀ own (fedBy p s (done ++ [a.task])) (done ++ [a.task]) w')
      fun e _ => Falls p b s state l₀ own e := by
  refine executeTask_ends hp.wired (fun is w' hd => ?_) fun e w' hr => ?_
  · have hsound := h.sound.delivered hb hready hd
    have hnext : Lawful p b s state l₀ own (fedBy p s done) (done ++ [a.task]) w' := by
      refine ⟨h.once.executed_next hready hd, hsound, fun r hr => ?_,
        fun hfurnished i hi => ?_⟩
      · rw [hd.run] at hr
        exact h.ready r (hready ▸ List.mem_cons_of_mem _ hr)
      · have hr := hsound.balanced.references_of_mem hi
        rw [hd.run] at hi
        have hcases : i ∈ w.run.held ∨ i ∈ is := by
          rcases List.mem_append.mp hi with hi | hi
          · obtain ⟨y, hy, hi⟩ := List.mem_flatMap.mp hi
            exact Or.inl (mem_held (mem_activators_rest hready hy) hi)
          · exact (List.mem_append.mp hi).imp_left (List.mem_append_right _)
        rcases hcases with hi | hi
        · exact h.data_of_later hfurnished hd.later (Or.inl hi) hown hr
        · exact hd.yields.data i hi hr
    refine (h.once.feedAll_ends hp hready hd (I := fun fed w =>
      Lawful p b s state l₀ own fed (done ++ [a.task]) w ∧ ∀ x ∈ is, x ∈ w.run.instances)
      (E := fun _ _ => False) (fun hx _ hI hk => ?_) ⟨hnext, fun x hx => ?_⟩).mono ?_
      fun _ _ he => he.elim
    · refine ((feed_lawful hp hown hI.1 hk (List.mem_append_right _ (hI.2 _ hx))).mono ?_).ends
      rintro _ w'' ⟨hw'', hframe⟩
      exact ⟨hw'', hframe.instances ▸ hI.2⟩
    · rw [hd.run]
      exact List.mem_append_right _ hx
    rintro _ w'' ⟨honce, ⟨hw'', -⟩, -⟩
    exact ⟨honce, hw''.sound, hw''.ready, hw''.data⟩
  · obtain ⟨-, cause, rfl⟩ := hr.balanced hb own _ (h.sound.balanced.perm (held_ready hready).symm)
    have hrefuses := hr.refuses
    generalize he : ExecutionError.task a.task _ s cause = e at hrefuses
    cases hrefuses with
    | operator hcomputes _ =>
      exact ⟨done, w, a, activation, rest, _, _, h, hready, hcomputes, rfl⟩
    | start => exact absurd he nofun
    | giveBack => exact absurd he nofun
    | giveBackDone => exact absurd he nofun

/-! ## The whole push -/

/-- Making start tasks ready fails only if one of them is not. -/
theorem seed_lawful (hp : p.IsOrderly s) (hown : ∀ c i, state.get? c = some i → own i ≠ 0)
    (hrun : w.run = {}) (hb : w.ledger.Balanced own []) :
    Ends (seed p b s state (p.stage s).startTasks) w
      (fun _ w' => Lawful p b s state w.ledger own (fedBy p s []) [] w')
      fun e _ => Unready p b s state w.memory (p.stage s).startTasks e := by
  have hsound : Sound p s w.ledger own w := by
    refine ⟨?_, ?_, Ledger.Later.refl _, ?_⟩ <;> rw [hrun]
    · exact List.nodup_nil
    · exact nofun
    · exact hb
  have hgains : Ends (seed p b s state (p.stage s).startTasks) w (fun _ w' =>
      (∀ i ∈ w'.run.held, ∃ c, state.get? c = some i) ∧
      ∀ r ∈ w'.run.ready, ∃ m, r.1.readiness p.graph b m = some r.2) fun _ _ => True := by
    refine seed_ends (I := fun _ w' => (∀ i ∈ w'.run.held, ∃ c, state.get? c = some i) ∧
      ∀ r ∈ w'.run.ready, ∃ m, r.1.readiness p.graph b m = some r.2) ?_
      (fun _ _ _ _ => trivial) ⟨?_, ?_⟩
    · rintro ts w₁ a l activation ⟨hheld, hready⟩ hbinds - hnext
      refine ⟨fun i hi => ?_, fun r hr => (List.mem_append.mp hr).elim (hready r) fun hr => ?_⟩
      · rcases List.mem_append.mp hi with hi | hi
        · obtain ⟨y, hy, hbound⟩ := List.mem_flatMap.mp hi
          unfold StageRun.activators at hy
          rw [List.map_append, ← List.append_assoc] at hy
          rcases List.mem_append.mp hy with hy | hy
          · exact hheld i (mem_held hy hbound)
          · rw [List.mem_singleton.mp hy] at hbound
            exact Binds.published hbinds hbound
        · exact hheld i (List.mem_append_right _ hi)
      · rw [List.mem_singleton.mp hr]
        exact ⟨w₁.memory, hnext⟩
    · rw [hrun]
      exact nofun
    · rw [hrun]
      exact nofun
  refine (((seed_start (fedBy p s []) hp hrun).and (seed_keeps hown hp.start hsound)).and
    hgains).mono ?_ fun _ _ he => he.1.2.2
  rintro _ w' ⟨⟨ho, hs⟩, hheld, hready⟩
  refine ⟨ho, hs, hready, fun hfurnished i hi => ?_⟩
  obtain ⟨c, hc⟩ := hheld i hi
  have hr := hs.balanced.references_of_mem hi
  have hr₀ := hb.references_of_own (hown c i hc)
  rw [(hs.later.payload i (Ledger.lt_size_of_references hr₀) hr).2]
  exact hfurnished c i hc

/-- **A push fails only if a start task is not ready or an operator fails.** -/
theorem push_lawful (hp : p.IsOrderly s) (hown : ∀ c i, state.get? c = some i → own i ≠ 0)
    (hb : ∀ t ∈ (p.stage s).tasks, b.Careful p.graph t) (hrun : w.run = {})
    (hbalanced : w.ledger.Balanced own []) : Ends (push p b s state) w
      (fun _ w' => ∃ done, Lawful p b s state w.ledger own (fedBy p s done) done w')
      fun e _ => Unready p b s state w.memory (p.stage s).startTasks e ∨
        Falls p b s state w.ledger own e := by
  refine Ends.bind ((seed_lawful hp hown hrun hbalanced).mono (fun _ _ h => h)
    fun _ _ he => Or.inl he) ?_
  intro _ w₁ h₁
  refine (drain_ends (I := fun _ w' => ∃ done, Lawful p b s state w.ledger own (fedBy p s done)
    done w') (E := fun e _ => Falls p b s state w.ledger own e) ?_ ⟨[], h₁⟩).mono ?_
    fun _ _ he => Or.inr he
  · rintro _ w₂ a activation rest ⟨done, h⟩ hready
    obtain ⟨-, ht, -⟩ := h.once.head_ready hready
    exact (executeTask_lawful hp hown h hready (hb _ ht)).mono (fun _ _ h' => ⟨_, h'⟩)
      fun _ _ he => he
  · rintro _ w' ⟨-, h', -⟩
    exact h'

end Workspace

section Stage

variable {ω : Type} {p : Plan} {b : Behaviour ω} {s : StageId} {m m' : Machine ω}
  {extra : InstanceId → Nat} {e : ExecutionError}

/-! ## A stage execution -/

/-- What is published is live, and an instance of the channel for which it is published. -/
structure Machine.IsLive (m : Machine ω) : Prop where
  keyed : ∀ c i, m.state.get? c = some i → (m.ledger.get i).channel = c
  references : ∀ c i, m.state.get? c = some i → (m.ledger.get i).references ≠ 0

theorem Machine.isLive_of_isEmpty (h : m.state.isEmpty = true) : m.IsLive := by
  refine ⟨fun c i hi => ?_, fun c i hi => ?_⟩ <;> rw [get?_of_isEmpty h] at hi <;>
    exact absurd hi nofun

theorem Machine.IsLive.accounted (h : m.IsLive) :
    ∃ extra, Accounted m.ledger m.state extra [] := by
  refine tidy_iff.mp ⟨h.keyed, fun i => ?_⟩
  unfold ExecutionState.holds
  split
  · rename_i hi
    exact Nat.pos_of_ne_zero (h.references _ i hi)
  · exact Nat.zero_le _

/-- **A stage execution fails only if a start task is not ready or an operator fails.** -/
theorem executeStage_falls (hp : p.IsOrderly s)
    (hb : ∀ t ∈ (p.stage s).tasks, b.Careful p.graph t) (config : ExecutorConfig)
    (hm : Accounted m.ledger m.state extra [])
    (hrun : p.executeStage b config s m = (.error e, m')) :
    Workspace.Unready p b s m.state m.memory (p.stage s).startTasks e ∨
      Workspace.Falls p b s m.state m.ledger (fun i => extra i + m.state.holds m.ledger i) e := by
  obtain ⟨-, w, l, hpush, -⟩ := (executeStage_accounted hp hb config hm hrun).2.2 e rfl
  exact (Workspace.push_lawful (w := m.entering p s) hp (fun _ _ hi => hm.owned hi) hb rfl hm.balanced).error hpush

/-! ## What the driver takes for ready -/

/-- The inputs that a task waits for are inputs that it has. -/
def Task.HasAwaited (t : Task) : Prop := ∀ state, ∀ i ∈ t.awaited state, i < t.inputs.length

instance (t : Task) : Decidable t.HasAwaited :=
  decidable_of_iff (∀ state ∈ [LoopState.notStarted, .running, .finished], ∀ i ∈ t.awaited state,
    i < t.inputs.length) ⟨fun h state => h state (by cases state <;> simp), fun h state _ => h state⟩

theorem TaskGraph.hasAwaited {g : TaskGraph} (h : ∀ t ∈ g.tasks, t.HasAwaited) (t : TaskId) :
    (g.task t).HasAwaited := by
  by_cases ht : t < g.tasks.length
  · refine h _ ?_
    unfold task
    rw [List.getD_eq_getElem?_getD, List.getElem?_eq_getElem ht]
    exact List.getElem_mem ht
  · rw [task_of_le (Nat.le_of_not_lt ht)]
    exact fun _ _ hi => absurd hi List.not_mem_nil

/-- **What the driver takes for ready the executor does too**: a start task with all its inputs
connected. -/
theorem readiness_of_inboundReady {a : Activator} {state : ExecutionState} {memory : ω}
    (hp : p.IsOrderly s) (hstart : a.task ∈ (p.stage s).startTasks)
    (hfed : ∀ i < (p.graph.task a.task).inputs.length,
      ∃ c, (p.graph.task a.task).inputChannel i = some c)
    (ht : (p.graph.task a.task).HasAwaited) (hb : ∀ fed, Workspace.Binds p state fed a)
    (h : p.inboundReady b memory state a.task = true) :
    (a.readiness p.graph b memory).isSome = true := by
  refine readiness_mono (fun i hi hbound => ?_) h
  obtain ⟨c, hc⟩ := hfed i (ht _ i hi)
  have hext := hp.external _ hstart i c hc
  have hget := (hb fun _ => False).external i hext
  rw [hext, hc] at hbound
  unfold Activator.isBound
  rw [hget, hc]
  have hcontains : state.contains c = true := by simpa using hbound
  unfold ExecutionState.contains at hcontains
  rwa [Std.TreeMap.contains_eq_isSome_getElem?] at hcontains

/-- A stage that the driver takes for ready fails only in an operator. -/
theorem executeStage_falls_of_inboundReady (hp : p.IsOrderly s)
    (hb : ∀ t ∈ (p.stage s).tasks, b.Careful p.graph t) (config : ExecutorConfig)
    (hm : Accounted m.ledger m.state extra [])
    (hfed : ∀ t ∈ (p.stage s).tasks, ∀ i < (p.graph.task t).inputs.length,
      ∃ c, (p.graph.task t).inputChannel i = some c)
    (ht : ∀ t ∈ (p.stage s).tasks, (p.graph.task t).HasAwaited)
    (hready : ∀ t ∈ (p.stage s).tasks, p.inboundReady b m.memory m.state t = true)
    (hrun : p.executeStage b config s m = (.error e, m')) :
    Workspace.Falls p b s m.state m.ledger (fun i => extra i + m.state.holds m.ledger i) e := by
  refine (executeStage_falls hp hb config hm hrun).resolve_left ?_
  rintro ⟨a, hstart, hbinds, hnone, -⟩
  have hmem := hp.start _ hstart
  have hsome := readiness_of_inboundReady hp hstart (hfed _ hmem) (ht _ hmem) hbinds
    (hready _ hmem)
  rw [hnone] at hsome
  exact absurd hsome nofun

end Stage

/-! ## Whole plans -/

namespace Plan

variable {ω : Type} {p : Plan} {b : Behaviour ω} {config : ExecutorConfig} {m m' : Machine ω}
  {extra : InstanceId → Nat} {s : StageId} {e : ExecutionError}

/-- The references are accounted for between any two stage executions. -/
theorem midway_accounted (horderly : ∀ s < p.stages.length, p.IsOrderly s)
    (hb : ∀ s < p.stages.length, ∀ t ∈ (p.stage s).tasks, b.Careful p.graph t)
    (hm : Accounted m.ledger m.state extra []) : ∀ {n : Nat} {here : Midway ω},
      p.midway b config m n = some here → Accounted here.machine.ledger here.machine.state extra []
  | 0, here, h => by
    obtain rfl := Option.some.inj h
    exact hm
  | n + 1, there, h => by
    obtain ⟨here, s, report, hhere, hnext, hrun, -, -⟩ := midway_succ h
    have hs := nextExecutable_lt hnext
    exact (executeStage_accounted (horderly s hs) (hb s hs) config
      (midway_accounted horderly hb hm hhere) hrun).2.1

end Plan

namespace PreliminaryPlan

variable {ω : Type} {p : PreliminaryPlan} {plan : Plan} {b : Behaviour ω} {m : Machine ω}

/-- **The bookkeeping of an execution does not fail**, with operators that leave references alone and
loop heads that keep their state in a cell. A stage execution fails in an operator or because a start
task is not ready. If all loop heads wait for inputs that they have, then a start task that is not
ready is not taken for ready by the driver, and a plan execution fails in no such way at all. -/
theorem failures_of_careful (hg : p.graph.Built) (h : p.assign = .ok plan)
    (hb : ∀ t, p.Needs t → b.Careful p.graph t) (hm : m.IsLive) :
    (∀ s < plan.stages.length, ∀ config e m', plan.executeStage b config s m = (.error e, m') →
      (∃ t ∈ (plan.stage s).tasks, ∃ name cause, e = .task t name s cause) ∨
        ∃ t ∈ (plan.stage s).startTasks, e = .scheduling (.notReady t s)) ∧
    ((∀ t, p.Needs t → (p.graph.task t).HasAwaited) →
      (∀ s < plan.stages.length,
        (∀ t ∈ (plan.stage s).tasks, plan.inboundReady b m.memory m.state t = true) →
        ∀ config e m', plan.executeStage b config s m = (.error e, m') →
          ∃ t ∈ (plan.stage s).tasks, ∃ name cause, e = .task t name s cause) ∧
      ∀ config x m', plan.execute b config m ≠ (.error (.scheduling x), m')) := by
  obtain ⟨extra, hm⟩ := hm.accounted
  obtain ⟨hs, hfed, -⟩ := assign_eq_ok hg h
  obtain ⟨r, -, hfin⟩ := finished_of_assign hg h
  have horderly : ∀ s < plan.stages.length, plan.IsOrderly s := fun s hs =>
    (isOrderly_of_assign hg h hs).1
  have hneeds : ∀ {s t}, t ∈ (plan.stage s).tasks → p.Needs t := needs_of_mem_stage hg h
  have hcareful : ∀ s < plan.stages.length, ∀ t ∈ (plan.stage s).tasks, b.Careful plan.graph t :=
    fun s _ t ht => careful_of_assign hg h (hb t (hneeds ht))
  have hoperator : ∀ {s extra e} {m : Machine ω}, Workspace.Falls plan b s m.state m.ledger extra e →
      ∃ t ∈ (plan.stage s).tasks, ∃ name cause, e = .task t name s cause := by
    rintro s extra e m ⟨done, w, a, activation, rest, w₁, cause, hw, hready, -, rfl⟩
    exact ⟨a.task, (hw.once.head_ready hready).2.1, _, cause, rfl⟩
  refine ⟨fun s hs config e m' hrun => ?_, fun hawaited => ?_⟩
  · rcases executeStage_falls (horderly s hs) (hcareful s hs) config hm hrun with hu | hf
    · obtain ⟨a, hstart, -, -, rfl⟩ := hu
      exact Or.inr ⟨a.task, hstart, rfl⟩
    · exact Or.inl (hoperator hf)
  have hstage : ∀ s < plan.stages.length, ∀ {m : Machine ω}, Accounted m.ledger m.state extra [] →
      (∀ t ∈ (plan.stage s).tasks, plan.inboundReady b m.memory m.state t = true) →
      ∀ config e m', plan.executeStage b config s m = (.error e, m') →
        ∃ t ∈ (plan.stage s).tasks, ∃ name cause, e = .task t name s cause := by
    intro s hs m hm hready config e m' hrun
    refine hoperator (executeStage_falls_of_inboundReady (horderly s hs) (hcareful s hs) config hm
      (fun t ht i hi => ?_) (fun t ht => ?_) hready hrun)
    · unfold Task.inputChannel
      rw [hfin.inputs] at hi ⊢
      exact Option.isSome_iff_exists.mp (hfed t (hneeds ht) i hi)
    · have hsame := hawaited t (hneeds ht)
      unfold Task.HasAwaited Task.awaited at hsame ⊢
      rw [hfin.inputs, hfin.operator]
      exact hsame
  refine ⟨fun s hs hready => hstage s hs hm hready, fun config x m' hrun => ?_⟩
  rcases Plan.execute_cases hrun with ⟨n, here, -, -, hresult, -⟩ | hlimit |
    ⟨n, here, s, e, m'', hhere, hnext, hrun', he⟩
  · have hconclusion := plan.conclude_conclusion b config here.agenda here.machine.memory
    generalize plan.conclude b config _ _ = result at hconclusion hresult
    cases hconclusion <;> exact absurd hresult nofun
  · exact absurd hlimit nofun
  · obtain ⟨t, -, name, cause, rfl⟩ := hstage s (Plan.nextExecutable_lt hnext)
      (Plan.midway_accounted horderly hcareful hm hhere) (Plan.inboundReady_of_nextExecutable hnext)
      config e m'' hrun'
    exact absurd he nofun

end PreliminaryPlan

/-! ## A loop head with one input -/

/-- A loop head that is to be initialized through two inputs and has one. -/
def narrow : PreliminaryPlan := .ofGraph
  (((TaskGraph.empty.addTask
    { object := 0, name := "read", platform := ⟨"a"⟩, inputs := [], outputs := [.any] }).addTask
    { object := 1, name := "narrow", platform := ⟨"a"⟩, inputs := [.any], outputs := [.any],
      loopRoles := some {} }).wire 0 0 1 0 .collection)

theorem built_narrow : narrow.graph.Built := .wire (.addTask _ (.addTask _ .empty)) rfl

/-- The driver counts the input that is missing as bound, and the executor does not. -/
theorem narrow_notReady : narrow.graph.Built ∧ ∃ plan m', narrow.assign = .ok plan ∧
    (∀ t, (adding.withLoop 1).Careful narrow.graph t) ∧
    ({ memory := untilFour } : Machine LoopOperator).IsLive ∧
    plan.execute (adding.withLoop 1) {} { memory := untilFour } =
      (.error (.scheduling (.notReady 1 1)), m') := by
  have hcheck : (narrow.assign.map fun plan =>
      (plan.execute (adding.withLoop 1) {} { memory := untilFour }).1) =
        .ok (.error (.scheduling (.notReady 1 1))) := by decide +kernel
  obtain ⟨plan, hplan, hresult⟩ := PreliminaryPlan.exists_assign_of_map hcheck
  exact ⟨built_narrow, plan, _, hplan, careful_adding _ _, Machine.isLive_of_isEmpty rfl,
    Prod.ext hresult rfl⟩

/-- Whatever becomes of a loop that counts, it is not the bookkeeping that fails. -/
theorem counting_failures : ∃ plan, counting.assign = .ok plan ∧ ∀ config x m',
    plan.execute (adding.withLoop 2) config { memory := untilFour } ≠ (.error (.scheduling x), m') := by
  have hcheck : (counting.assign.map fun plan => plan.stages.length) = .ok 5 := by decide +kernel
  obtain ⟨plan, hplan, -⟩ := PreliminaryPlan.exists_assign_of_map hcheck
  have hawaited : ∀ t ∈ counting.graph.tasks, t.HasAwaited := by decide +kernel
  have hlive : ({ memory := untilFour } : Machine LoopOperator).IsLive :=
    Machine.isLive_of_isEmpty rfl
  obtain ⟨-, hdriver⟩ := PreliminaryPlan.failures_of_careful built_counting hplan
    (fun t _ => careful_adding _ _ t) hlive
  exact ⟨plan, hplan, (hdriver fun t _ => TaskGraph.hasAwaited hawaited t).2⟩

end Dataflow
