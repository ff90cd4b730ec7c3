import Dataflow.Proofs.Execution.PushSteps

/-!
# The accounts of a stage execution

With operators that leave references alone, a stage execution knows at any moment where each
reference is: besides those from outside there is one for each bound input of an activator and one
for each instance that was produced (`Workspace.Sound`). This holds after a success and after any
failure, so that what a failing stage execution holds can be given back, and neither a leak nor a
second release of a reference is possible.

The references of a stage execution are a list, with an instance as often as it is held, and the
lemmas are about lists up to their order: an activator that moves from those that wait to those that
are ready takes its references along, and one that is executed gives its references back while its
results add new ones.

* `feed_keeps`, `executeTask_keeps`, `seed_keeps`: the steps.
* **`push_keeps`**: a whole push.

The operators enter at one place, where a task is executed. They must neither obtain nor release, and
a loop head must have moved on when it is told to run; then the two calls of the operator change no
reference.
-/

namespace Dataflow

/-! ## What a stage execution holds -/

namespace StageRun

variable {r : StageRun} {a : Activator}

/-- The references that are held but for those of the waiting activator of a task. -/
theorem held_perm (h : r.staged.Perm (a :: r.staged.filter fun x => x.task != a.task)) :
    r.held.Perm (a.bound ++ Workspace.heldElsewhere r a.task) := by
  unfold held activators Workspace.heldElsewhere
  rw [List.flatMap_append, List.append_assoc, ← List.append_assoc a.bound]
  exact (h.flatMap_right Activator.bound).append_right _

theorem held_of_find? (hn : (r.staged.map Activator.task).Nodup) {t : TaskId}
    (h : r.find? t = some a) : a.task = t ∧ r.held.Perm (a.bound ++ Workspace.heldElsewhere r t) := by
  have htask : a.task = t := by simpa using List.find?_some h
  subst htask
  exact ⟨rfl, held_perm (Workspace.perm_of_find? hn h)⟩

/-- A task without waiting activator. -/
theorem heldElsewhere_of_none {t : TaskId} (h : r.find? t = none) :
    Workspace.heldElsewhere r t = r.held := by
  have hothers : (r.staged.filter fun x => x.task != t) = r.staged := by
    rw [List.filter_eq_self]
    exact fun x hx => bne_iff_ne.mpr (by simpa using List.find?_eq_none.mp h x hx)
  unfold held activators Workspace.heldElsewhere
  rw [hothers, List.flatMap_append, List.append_assoc]

theorem heldElsewhere_stage (r : StageRun) (a : Activator) :
    (Workspace.heldElsewhere (r.stage a) a.task).Perm (Workspace.heldElsewhere r a.task) := by
  unfold Workspace.heldElsewhere
  exact ((filter_stage r a).flatMap_right _).append_right _

theorem held_settle (r : StageRun) (a : Activator) (next : Option Activation) :
    (Workspace.settle r a next).held.Perm (a.bound ++ Workspace.heldElsewhere r a.task) := by
  have hperm : (Workspace.settle r a next).activators.Perm (a :: Workspace.others r a.task) :=
    Workspace.activators_settle
  have hothers : a.bound ++ Workspace.heldElsewhere r a.task =
      (a :: Workspace.others r a.task).flatMap Activator.bound ++ r.instances := by
    unfold Workspace.heldElsewhere Workspace.others
    rw [List.flatMap_cons, List.flatMap_append, List.append_assoc, List.append_assoc]
  rw [hothers]
  unfold held
  rw [Workspace.instances_settle]
  exact (hperm.flatMap_right _).append_right _

/-- An activator that becomes ready at once. -/
theorem activators_append_ready (r : StageRun) (a : Activator) (activation : Activation) :
    ({ r with ready := r.ready ++ [(a, activation)] } : StageRun).activators = r.activators ++ [a] := by
  unfold activators
  rw [List.map_append, ← List.append_assoc]
  rfl

theorem held_append_ready (r : StageRun) (a : Activator) (activation : Activation) :
    ({ r with ready := r.ready ++ [(a, activation)] } : StageRun).held.Perm (a.bound ++ r.held) := by
  unfold held
  rw [activators_append_ready, List.flatMap_append, List.flatMap_singleton, ← List.append_assoc]
  exact List.perm_append_comm.append_right _

theorem nodup_settle {r : StageRun} (h : (r.staged.map Activator.task).Nodup) (a : Activator)
    (next : Option Activation) : ((Workspace.settle r a next).staged.map Activator.task).Nodup := by
  have hstage : ((r.stage a).staged.map Activator.task).Nodup := by
    rw [((Workspace.perm_stage r a).map _).nodup_iff, List.map_cons, List.nodup_cons]
    refine ⟨fun hm => ?_, h.sublist (List.filter_sublist.map _)⟩
    exact (Workspace.mem_map_filter_task.mp hm).2 rfl
  cases next with
  | none => exact hstage
  | some activation => exact hstage.sublist (List.filter_sublist.map _)

/-- Activators of tasks of a stage, of which at most one waits for each task. -/
structure IsOf (p : Plan) (s : StageId) (r : StageRun) : Prop where
  staged : (r.staged.map Activator.task).Nodup
  tasks : ∀ a ∈ r.activators, a.task ∈ (p.stage s).tasks

namespace IsOf

variable {p : Plan} {s : StageId}

theorem settle (h : r.IsOf p s) (ha : a.task ∈ (p.stage s).tasks) (next : Option Activation) :
    (Workspace.settle r a next).IsOf p s := by
  refine ⟨nodup_settle h.staged a next, fun x hx => ?_⟩
  rcases List.mem_cons.mp (Workspace.activators_settle.mem_iff.mp hx) with rfl | hx
  · exact ha
  · refine h.tasks x ((List.mem_append.mp hx).elim (fun hx => ?_) (List.mem_append_right _))
    exact List.mem_append_left _ (List.mem_filter.mp hx).1

theorem append_ready (h : r.IsOf p s) (ha : a.task ∈ (p.stage s).tasks) (activation : Activation) :
    ({ r with ready := r.ready ++ [(a, activation)] } : StageRun).IsOf p s := by
  refine ⟨h.staged, fun x hx => ?_⟩
  rw [activators_append_ready, List.mem_append, List.mem_singleton] at hx
  exact hx.elim (h.tasks x) fun heq => heq ▸ ha

end IsOf

end StageRun

namespace Workspace

variable {ω : Type} {p : Plan} {b : Behaviour ω} {s : StageId} {l₀ : Ledger}
  {own : InstanceId → Nat} {state : ExecutionState} {w : Workspace ω}

/-- A stage execution that keeps its accounts. It waits for each task at most once. -/
structure Sound (p : Plan) (s : StageId) (l₀ : Ledger) (own : InstanceId → Nat) (w : Workspace ω) :
    Prop where
  staged : (w.run.staged.map Activator.task).Nodup
  tasks : ∀ a ∈ w.run.activators, a.task ∈ (p.stage s).tasks
  later : l₀.Later w.ledger
  balanced : w.ledger.Balanced own w.run.held

theorem Sound.isOf (h : Sound p s l₀ own w) : w.run.IsOf p s := ⟨h.staged, h.tasks⟩

/-- A computation of a stage execution keeps the accounts, and it does not fail in the release of a
reference. -/
def Keeps {α : Type} (p : Plan) (s : StageId) (l₀ : Ledger) (own : InstanceId → Nat)
    (x : WorkspaceM ω α) (w : Workspace ω) : Prop :=
  Ends x w (fun _ w' => Sound p s l₀ own w') fun e w' => Sound p s l₀ own w' ∧
    ∀ c, e ≠ .scheduling (.doubleRelease c)

/-! ## Feeding -/

/-- Binding an input in a system that keeps its accounts. -/
theorem accept_keeps {l : Ledger} {a : Activator} {input : Nat} {i : InstanceId}
    {held : List InstanceId} (hc : l.Balanced own (a.bound ++ held)) :
    Ends (a.accept input i) l
      (fun a' l' => a'.task = a.task ∧ l.Later l' ∧ l'.Balanced own (a'.bound ++ held))
      fun e l' => l' = l ∧ ∀ c, e ≠ .doubleRelease c := by
  by_cases hi : a.inputs[input]? = some none ∧ (l.get i).references ≠ 0
  · refine ((Activator.accept_balanced hi.1 hi.2 hc).mono ?_).ends
    rintro _ l' ⟨rfl, hl, hc'⟩
    exact ⟨rfl, hl, hc'⟩
  · refine Activator.accept_ends.mono ?_ fun _ _ h => h
    rintro _ _ ⟨-, hfree, hr, -⟩
    exact (hi ⟨hfree, hr⟩).elim

/-- A task of the stage with its waiting activator. -/
structure Waits (p : Plan) (s : StageId) (l₀ : Ledger) (own : InstanceId → Nat) (t : TaskId)
    (a : Activator) (w : Workspace ω) : Prop where
  sound : Sound p s l₀ own w
  task : a.task = t
  mem : t ∈ (p.stage s).tasks
  held : w.run.held.Perm (a.bound ++ heldElsewhere w.run t)

theorem bindInput_keeps {t : TaskId} {a : Activator} {input : Nat} {i : InstanceId}
    (h : Waits p s l₀ own t a w) : Keeps p s l₀ own (bindInput p b a input i) w := by
  obtain ⟨hw, htask, hmem, hheld⟩ := h
  refine (bindInput_ends (accept_keeps (hw.balanced.perm hheld.symm))).mono ?_ ?_
  · rintro _ _ ⟨a', l', ⟨htask', hl, hb⟩, rfl⟩
    rw [htask] at htask'
    rw [← htask'] at hb
    have hisOf := hw.isOf.settle (htask' ▸ hmem) (a'.readiness p.graph b w.memory)
    exact ⟨hisOf.staged, hisOf.tasks, hw.later.trans hl, hb.perm (StageRun.held_settle w.run a' _)⟩
  · rintro _ _ ⟨e, _, ⟨rfl, he⟩, rfl, rfl⟩
    exact ⟨hw, fun c hc => he c (by simpa using hc)⟩

/-- Feeding an input of a task of the stage. -/
theorem feed_keeps (hown : ∀ c i, state.get? c = some i → own i ≠ 0) {t : TaskId} {input : Nat}
    {i : InstanceId} (ht : t ∈ (p.stage s).tasks) (hw : Sound p s l₀ own w) :
    Keeps p s l₀ own (feed p b state t input i) w := by
  unfold feed
  refine Ends.bind Succeeds.get.ends ?_
  rintro _ _ ⟨rfl, rfl⟩
  cases h : w.run.find? t with
  | some a =>
    obtain ⟨htask, hheld⟩ := StageRun.held_of_find? hw.staged h
    exact bindInput_keeps ⟨hw, htask, ht, hheld⟩
  | none =>
    have hofState := (Activator.ofState_balanced (p := p) (t := t) hown hw.balanced).and_ends
      Activator.ofState_ends
    refine Ends.bind (onLedger_spec hofState).ends ?_
    rintro a _ ⟨l', ⟨hb, htask, -, -, hl⟩, rfl⟩
    refine Ends.bind (modifyRun_spec _).ends ?_
    rintro _ _ rfl
    subst htask
    have hisOf := hw.isOf.settle ht none
    have hheld : (w.run.stage a).held.Perm (a.bound ++ heldElsewhere w.run a.task) :=
      StageRun.held_settle w.run a none
    refine bindInput_keeps ⟨⟨hisOf.staged, hisOf.tasks, hw.later.trans hl, ?_⟩, rfl, ht, ?_⟩
    · rw [← StageRun.heldElsewhere_of_none h] at hb
      exact hb.perm hheld
    · exact hheld.trans (List.Perm.append_left _ (StageRun.heldElsewhere_stage w.run a).symm)

theorem feedEach_keeps (hown : ∀ c i, state.get? c = some i → own i ≠ 0) {i : InstanceId} :
    ∀ {ks : List Consumer} {w : Workspace ω}, (∀ k ∈ ks, k.task ∈ (p.stage s).tasks) →
      Sound p s l₀ own w → Keeps p s l₀ own (feedEach p b state i ks) w
  | [], _, _, hw => Ends.pure hw
  | k :: _, _, hks, hw =>
    Ends.bind (feed_keeps hown (hks k List.mem_cons_self) hw) fun _ _ hw' =>
      feedEach_keeps hown (fun j hj => hks j (List.mem_cons_of_mem _ hj)) hw'

/-- The readers inside a stage are tasks of the stage. -/
theorem stage_of_mem_innerConsumers {c : ChannelId} {k : Consumer}
    (hk : k ∈ innerConsumers p s c) : (p.graph.task k.task).stage = some s := by
  unfold innerConsumers at hk
  simp only at hk
  split at hk
  · exact absurd hk List.not_mem_nil
  · simpa using (List.mem_filter.mp hk).2

theorem feedAll_keeps (hp : p.IsOrderly s) (hown : ∀ c i, state.get? c = some i → own i ≠ 0) :
    ∀ {is : List InstanceId} {w : Workspace ω}, Sound p s l₀ own w →
      Keeps p s l₀ own (feedAll p b s state is) w
  | [], _, hw => Ends.pure hw
  | i :: is, w, hw => by
    unfold feedAll
    refine Ends.bind Succeeds.get.ends ?_
    rintro _ _ ⟨rfl, rfl⟩
    refine Ends.bind (feedEach_keeps hown (fun k hk => ?_) hw) fun _ _ hw' => feedAll_keeps hp hown hw'
    exact (hp.placed _).mp (stage_of_mem_innerConsumers hk)

/-! ## Executing a task -/

/-- The references that are held besides those on the inputs of the first ready activator. -/
theorem held_ready {a : Activator} {activation : Activation} {rest : List (Activator × Activation)}
    (hready : w.run.ready = (a, activation) :: rest) :
    w.run.held.Perm (a.bound ++ { w.run with ready := rest }.held) := by
  unfold StageRun.held StageRun.activators
  rw [hready]
  simp only [List.map_cons, List.flatMap_append, List.flatMap_cons, List.append_assoc]
  exact List.perm_append_comm_assoc _ _ _

/-- The activators besides the first ready one. -/
theorem mem_activators_rest {a x : Activator} {activation : Activation}
    {rest : List (Activator × Activation)} (hready : w.run.ready = (a, activation) :: rest)
    (hx : x ∈ { w.run with ready := rest }.activators) : x ∈ w.run.activators := by
  unfold StageRun.activators at hx ⊢
  rw [hready]
  exact (List.mem_append.mp hx).imp (fun h => h) (fun h => List.mem_cons_of_mem _ h)
    |> List.mem_append.mpr

/-- When the first ready activator has been executed, but for what its results feed. -/
theorem Sound.delivered {a : Activator} {activation : Activation}
    {rest : List (Activator × Activation)} {is : List InstanceId} {w' : Workspace ω}
    (hb : b.Careful p.graph a.task) (hw : Sound p s l₀ own w)
    (hready : w.run.ready = (a, activation) :: rest)
    (hd : Delivers p b a activation rest w is w') : Sound p s l₀ own w' := by
  have hbalanced := hd.balanced hb own _ (hw.balanced.perm (held_ready hready).symm)
  refine ⟨?_, fun x hx => ?_, hw.later.trans hd.later, hbalanced.perm ?_⟩
  · rw [hd.run]
    exact hw.staged
  · rw [hd.run] at hx
    exact hw.tasks x (mem_activators_rest hready hx)
  · rw [hd.run]
    unfold StageRun.held
    rw [← List.append_assoc]
    exact List.perm_append_comm

/-- Executing the first ready activator, whether the operator succeeds or fails. -/
theorem executeTask_keeps (hp : p.IsOrderly s) (hown : ∀ c i, state.get? c = some i → own i ≠ 0)
    {a : Activator} {activation : Activation} {rest : List (Activator × Activation)}
    (hb : b.Careful p.graph a.task) (hw : Sound p s l₀ own w)
    (hready : w.run.ready = (a, activation) :: rest) :
    Keeps p s l₀ own (executeTask p b s state a activation)
      { w with run := { w.run with ready := rest } } := by
  refine executeTask_ends hp.wired (fun is w' hd => feedAll_keeps hp hown (hw.delivered hb hready hd))
    fun e w' hr => ?_
  obtain ⟨hbalanced, he⟩ := hr.balanced hb own _ (hw.balanced.perm (held_ready hready).symm)
  refine ⟨⟨hr.run ▸ hw.staged, fun x hx => ?_, hw.later.trans hr.later, hr.run ▸ hbalanced⟩, ?_⟩
  · rw [hr.run] at hx
    exact hw.tasks x (mem_activators_rest hready hx)
  · rintro c rfl
    obtain ⟨cause, hcause⟩ := he
    exact absurd hcause nofun

/-! ## The whole push -/

/-- A start task that is not ready: what is published does not suffice for it. -/
def Unready (p : Plan) (b : Behaviour ω) (s : StageId) (state : ExecutionState) (m : ω)
    (ts : List TaskId) (e : ExecutionError) : Prop :=
  ∃ a : Activator, a.task ∈ ts ∧ (∀ fed, Binds p state fed a) ∧
    a.readiness p.graph b m = none ∧ e = .scheduling (.notReady a.task s)

/-- Making start tasks ready. This fails only if one of them is not. -/
theorem seed_keeps (hown : ∀ c i, state.get? c = some i → own i ≠ 0) :
    ∀ {ts : List TaskId} {w : Workspace ω}, (∀ t ∈ ts, t ∈ (p.stage s).tasks) →
      Sound p s l₀ own w → Ends (seed p b s state ts) w (fun _ w' => Sound p s l₀ own w')
        fun e w' => Sound p s l₀ own w' ∧ Unready p b s state w.memory ts e
  | [], _, _, hw => Ends.pure hw
  | t :: ts, w, hts, hw => by
    unfold seed
    refine Ends.bind (onLedger_spec ((Activator.ofState_balanced (p := p) (t := t) hown
      hw.balanced).and_ends Activator.ofState_ends)).ends ?_
    rintro a _ ⟨l₁, ⟨hb₁, htask, hlen, hin, hl₁⟩, rfl⟩
    refine Ends.bind Succeeds.get.ends ?_
    rintro _ _ ⟨rfl, rfl⟩
    cases hr : a.readiness p.graph b w.memory with
    | none =>
      simp only
      refine Ends.bind (onLedger_spec hb₁.releaseEach).ends ?_
      rintro _ _ ⟨l₂, ⟨hl₂, hb₂⟩, rfl⟩
      refine Ends.throw ⟨⟨hw.staged, hw.tasks, (hw.later.trans hl₁).trans hl₂, hb₂⟩, a, ?_,
        fun _ => binds_ofState htask hlen hin, hr, by rw [htask]⟩
      exact htask ▸ List.mem_cons_self
    | some activation =>
      simp only
      refine Ends.bind (modifyRun_spec _).ends ?_
      rintro _ _ rfl
      have hnext : Sound p s l₀ own { w with
          ledger := l₁, run := { w.run with ready := w.run.ready ++ [(a, activation)] } } := by
        have hisOf := hw.isOf.append_ready (htask ▸ hts t List.mem_cons_self) activation
        exact ⟨hisOf.staged, hisOf.tasks, hw.later.trans hl₁,
          hb₁.perm (StageRun.held_append_ready w.run a activation)⟩
      refine (seed_keeps hown (fun u hu => hts u (List.mem_cons_of_mem _ hu)) hnext).mono
        (fun _ _ h => h) ?_
      rintro e w' ⟨hw', x, hx, hunready⟩
      exact ⟨hw', x, List.mem_cons_of_mem _ hx, hunready⟩

/-- Executing ready activators. -/
theorem drain_keeps (hp : p.IsOrderly s) (hown : ∀ c i, state.get? c = some i → own i ≠ 0)
    (hb : ∀ t ∈ (p.stage s).tasks, b.Careful p.graph t) {fuel : Nat} (hw : Sound p s l₀ own w) :
    Keeps p s l₀ own (drain p b s state fuel) w := by
  refine (drain_ends (I := fun _ w => Sound p s l₀ own w) ?_ hw).mono
    (fun _ _ ⟨_, hw', _⟩ => hw') fun _ _ he => he
  intro _ w a activation rest hw hready
  have ha : a ∈ w.run.activators := by
    unfold StageRun.activators
    rw [hready]
    exact List.mem_append_right _ List.mem_cons_self
  exact executeTask_keeps hp hown (hb _ (hw.tasks a ha)) hw hready

/-- **A push keeps the accounts**, whether it succeeds or fails, and it does not fail in the release
of a reference. -/
theorem push_keeps (hp : p.IsOrderly s) (hown : ∀ c i, state.get? c = some i → own i ≠ 0)
    (hb : ∀ t ∈ (p.stage s).tasks, b.Careful p.graph t) (hw : Sound p s l₀ own w) :
    Keeps p s l₀ own (push p b s state) w := by
  refine Ends.bind ((seed_keeps hown hp.start hw).mono (fun _ _ h => h) ?_) fun _ _ hw' =>
    drain_keeps hp hown hb hw'
  rintro _ w' ⟨hw', a, -, -, -, rfl⟩
  exact ⟨hw', nofun⟩

end Workspace

end Dataflow
