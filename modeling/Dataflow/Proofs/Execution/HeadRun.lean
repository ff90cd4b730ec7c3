import Dataflow.Proofs.Execution.StageRun

/-!
# Executing a task that is alone in its stage

A stage of one task, which reads nothing but what is published, executes the one activation that
the task is ready for. This covers loop heads, whose inputs need not all be bound.

Such a stage is the simplest there is, since nothing is fed inside of it: the push seeds one
activator, executes it and ends. A loop head reads other inputs in its initialization than in an
iteration, so it is stated for an activation and the inputs that this one waits for
(`Plan.IsReadyFor`); what is bound of the others does no harm.

* `followLoopHead_spec`, `feedAll_none`: what follows an activation when nothing is moved on and
  nothing is fed.
* `push_alone_spec`: the push.
* **`executeAlone_spec`**: the stage execution.

The operator may emit on some of its outputs only, as loop heads do. What is published afterwards is
told channel by channel (`Machine.datum`): the data that it has emitted, and what was there before on
all other channels.
-/

namespace Dataflow

/-- The data published for a channel, as far as there is any. -/
def Machine.datum {ω : Type} (m : Machine ω) (c : ChannelId) : Option Payload :=
  (m.state.get? c).bind fun i => (m.ledger.get i).payload

/-- The data published for an input of a task. -/
def Machine.data {ω : Type} (m : Machine ω) (p : Plan) (t : TaskId) (i : Nat) : Option Payload :=
  ((p.graph.task t).inputChannel i).bind m.datum

theorem Machine.Publishes.datum {ω : Type} {m : Machine ω} {c : ChannelId} {x : Payload}
    (h : m.Publishes c x) : m.datum c = some x := by
  obtain ⟨i, hi, hlive⟩ := h
  unfold Machine.datum
  rw [hi]
  exact hlive.2

/-- A task is ready for an activation, going by what is published. -/
def Plan.IsReadyFor {ω : Type} (p : Plan) (b : Behaviour ω) (m : Machine ω) (t : TaskId)
    (activation : Activation) : Prop :=
  readiness (p.graph.task t) (p.loopState b m.memory t)
    (fun i => ((p.graph.task t).inputChannel i).any m.state.contains) = some activation

/-- A task that is alone in its stage and reads nothing but what is published. -/
structure Plan.IsAlone (p : Plan) (s : StageId) (t : TaskId) : Prop where
  wired : p.graph.Wired
  tasks : (p.stage s).tasks = [t]
  start : (p.stage s).startTasks = [t]
  external : ∀ i c, (p.graph.task t).inputChannel i = some c → p.isFedExternally t i = true
  /-- It feeds nothing inside its stage. -/
  outside : ∀ c < p.graph.channels.length, (p.graph.channel c).producer = t →
    Workspace.innerConsumers p s c = []

namespace Workspace

variable {ω : Type} {p : Plan} {b : Behaviour ω} {s : StageId} {t : TaskId} {w : Workspace ω}
  {activation : Activation}

/-- A loop head that has moved on by itself is not moved on. -/
theorem followLoopHead_spec {before : LoopState} (h : activation = .loopInitialization →
    b.loopState (p.graph.task t).operator.object w.memory ≠ .notStarted) :
    Succeeds (followLoopHead p b t activation before) w fun _ w' => ∃ events, w' = { w with events } := by
  unfold followLoopHead
  refine Succeeds.bind Succeeds.get ?_
  rintro _ _ ⟨rfl, rfl⟩
  rw [if_neg fun h' => h h'.1 h'.2]
  refine Succeeds.bind Succeeds.get ?_
  rintro _ _ ⟨rfl, rfl⟩
  simp only
  split
  · exact emit_spec _
  · exact Succeeds.pure ⟨w.events, rfl⟩

theorem feedAll_none {state : ExecutionState} : ∀ {is : List InstanceId},
    (∀ i ∈ is, innerConsumers p s (w.ledger.get i).channel = []) →
    Succeeds (feedAll p b s state is) w fun _ w' => w' = w
  | [], _ => Succeeds.pure rfl
  | i :: is, h => by
    unfold feedAll
    refine Succeeds.bind Succeeds.get ?_
    rintro _ _ ⟨rfl, rfl⟩
    simp only [h i List.mem_cons_self]
    have hnone : Succeeds (feedEach p b state i []) w fun _ w' => w' = w := Succeeds.pure rfl
    refine Succeeds.bind hnone ?_
    intro _ w' hw'
    rw [hw']
    exact feedAll_none fun j hj => h j (List.mem_cons_of_mem _ hj)

/-- What a push of one activation leaves behind. -/
structure PushedAlone (p : Plan) (m : Machine ω) (t : TaskId) (activation : Activation)
    (K : Reply ω → Prop) (r : Reply ω) (w : Workspace ω) : Prop where
  settled : w.Settled m
  reply : K r
  memory : w.memory = r.memory
  executed : w.run.executed = [⟨t, activation⟩]
  carry : Carry w.ledger w.run.instances (emitted p t 0 r.emissions)

/-- Instances of what a task emitted are of channels of the task. -/
theorem Carry.producer {l : Ledger} {is : List InstanceId} {out : Emissions}
    (hw : p.graph.Wired) (h : Carry l is (emitted p t 0 out)) {i : InstanceId} (hi : i ∈ is) :
    (l.get i).channel < p.graph.channels.length ∧
      (p.graph.channel (l.get i).channel).producer = t := by
  obtain ⟨⟨c, x⟩, hcx, hlive⟩ := h.exists_of_mem hi
  obtain ⟨j, e, -, hj, -⟩ := mem_emitted.mp hcx
  obtain ⟨hlt, hprod, -⟩ := (hw.output_iff _ _ _).mp hj
  rw [hlive.1]
  exact ⟨hlt, hprod⟩

theorem Carry.exists_live {l : Ledger} {is : List InstanceId} {cxs : List (ChannelId × Payload)}
    (h : Carry l is cxs) {c : ChannelId} {x : Payload} (hc : (c, x) ∈ cxs) :
    ∃ i ∈ is, l.Live i c x := by
  induction h with
  | nil => exact absurd hc List.not_mem_nil
  | @cons i cx is cxs hd _ ih =>
    rcases List.mem_cons.mp hc with rfl | hc
    · exact ⟨i, List.mem_cons_self, hd⟩
    · obtain ⟨j, hj, hl⟩ := ih hc
      exact ⟨j, List.mem_cons_of_mem _ hj, hl⟩

/-- What follows when a task that is alone in its stage has computed. -/
theorem deliver_alone_spec {m : Machine ω} (hp : p.IsAlone s t) {a : Activator} (ha : a.task = t)
    {K : Reply ω → Prop} {r : Reply ω} (hK : K r) (hm : w.memory = r.memory) (hrun : w.run = {})
    (hl : m.ledger.Later w.ledger) (hc : w.ledger.Covers (m.state.holds m.ledger) (a.bound ++ []))
    (e : ExecutionEvent) :
    Succeeds (do
      let produced ← produce p a.task 0 r.emissions
      onLedger a.dispose
      modifyRun fun r => { r with
        instances := r.instances ++ produced
        executed := r.executed ++ [⟨a.task, activation⟩] }
      emit e
      feedAll p b s m.state produced) w fun _ w' => PushedAlone p m t activation K r w' := by
  subst ha
  refine Succeeds.bind (produce_spec hc) ?_
  rintro is w₂ ⟨hcarry, hm₂, hrun₂, hl₂, hcov₂⟩
  refine Succeeds.bind (onLedger_spec (Activator.dispose_spec
    (hcov₂.perm (List.perm_append_comm_assoc _ _ _)))) ?_
  rintro _ _ ⟨l₃, ⟨hl₃, hcov₃⟩, rfl⟩
  refine Succeeds.bind (modifyRun_spec _) ?_
  rintro _ _ rfl
  refine Succeeds.bind (emit_spec _) ?_
  rintro _ _ ⟨events, rfl⟩
  have hcov : l₃.Covers (m.state.holds m.ledger) is := by rwa [List.append_nil] at hcov₃
  have hcarry₃ : Carry l₃ is (emitted p a.task 0 r.emissions) :=
    hcarry.later hl₃ fun i hi => hcov.references_of_mem hi
  have hnone : ∀ i ∈ is, innerConsumers p s (l₃.get i).channel = [] := fun i hi => by
    obtain ⟨hlt, hprod⟩ := hcarry₃.producer hp.wired hi
    exact hp.outside _ hlt hprod
  refine (feedAll_none hnone).mono ?_
  rintro _ _ rfl
  have hrun₃ : w₂.run = {} := hrun₂.trans hrun
  refine ⟨⟨?_, ?_, (hl.trans hl₂).trans hl₃, ?_⟩, hK, hm₂.trans hm, ?_, ?_⟩
  · change w₂.run.activators = []
    rw [hrun₃]
    rfl
  · change ((w₂.run.instances ++ is).map fun i => (l₃.get i).channel).Nodup
    rw [hrun₃]
    change (is.map fun i => (l₃.get i).channel).Nodup
    rw [hcarry₃.map_channel]
    exact nodup_emitted hp.wired
  · change l₃.Covers _ (w₂.run.instances ++ is)
    rw [hrun₃]
    exact hcov
  · change w₂.run.executed ++ _ = _
    rw [hrun₃]
    rfl
  · change Carry l₃ (w₂.run.instances ++ is) _
    rw [hrun₃]
    exact hcarry₃

/-- The operator of a task replies well to an activation on what is published: `J` holds of its
memory once it is prepared, and `K` of its reply. -/
structure Answers (p : Plan) (b : Behaviour ω) (m : Machine ω) (t : TaskId)
    (activation : Activation) (J : ω → Prop) (K : Reply ω → Prop) : Prop where
  prepare : ∀ ctx, Shows p t activation (m.data p t) ctx →
    (b.prepare (p.graph.task t).operator.object ctx m.memory).Succeeds ∧
      J (b.prepare (p.graph.task t).operator.object ctx m.memory).memory
  evaluate : ∀ ctx memory, Shows p t activation (m.data p t) ctx → J memory →
    (b.evaluate (p.graph.task t).operator.object ctx memory).Succeeds ∧
      K (b.evaluate (p.graph.task t).operator.object ctx memory)
  /-- A loop head that was initialized has started. -/
  started : ∀ r, K r → activation = .loopInitialization →
    b.loopState (p.graph.task t).operator.object r.memory ≠ .notStarted

/-- One activation of a task that is alone in its stage. -/
theorem executeTask_alone_spec {m : Machine ω} (hp : p.IsAlone s t) {a : Activator}
    {J : ω → Prop} {K : Reply ω → Prop} (hb : Answers p b m t activation J K) (ha : a.task = t)
    (hlen : a.inputs.length = (p.graph.task t).inputs.length)
    (hbears : Bears w.ledger (m.state.holds m.ledger) (a.bound ++ []) a (m.data p t))
    (hl : m.ledger.Later w.ledger) (hm : w.memory = m.memory) (hrun : w.run = {}) :
    Succeeds (executeTask p b s m.state a activation) w fun _ w' =>
      ∃ r, PushedAlone p m t activation K r w' := by
  subst ha
  unfold executeTask
  refine Succeeds.bind Succeeds.get ?_
  rintro _ _ ⟨rfl, rfl⟩
  refine Succeeds.bind (activate_spec hlen hbears (hm ▸ hb.prepare) hb.evaluate) ?_
  rintro _ w₁ ⟨r, hK, rfl, hm₁, hrun₁, hl₁, hcov₁⟩
  simp only
  split
  · refine Succeeds.bind (followLoopHead_spec fun hinit => hm₁ ▸ hb.started r hK hinit) ?_
    rintro _ _ ⟨events, rfl⟩
    refine (deliver_alone_spec (w := { w₁ with events := events }) hp rfl hK hm₁ (hrun₁.trans hrun)
      (hl.trans hl₁) hcov₁ _).mono ?_
    exact fun _ _ h => ⟨r, h⟩
  · refine (deliver_alone_spec hp rfl hK hm₁ (hrun₁.trans hrun) (hl.trans hl₁) hcov₁ _).mono ?_
    exact fun _ _ h => ⟨r, h⟩

/-- The activator of a task that reads nothing but what is published. -/
theorem ofState_alone_spec {m : Machine ω} (hp : p.IsAlone s t) (hrest : m.AtRest) :
    Succeeds (Activator.ofState p t m.state) m.ledger fun a l => a.task = t ∧
      a.inputs.length = (p.graph.task t).inputs.length ∧
      (∀ i, a.isBound i = ((p.graph.task t).inputChannel i).any m.state.contains) ∧
      m.ledger.Later l ∧
      Bears l (m.state.holds m.ledger) (a.bound ++ []) a (m.data p t) := by
  refine (Activator.ofState_spec (fun c i hi => Tidy.owned hrest hi) hrest.covers).mono ?_
  rintro a l ⟨htask, hlen, hin, hl, hcov⟩
  have hjoin : ∀ i, (a.inputs[i]?).join = ((p.graph.task t).inputChannel i).bind m.state.get? := by
    intro i
    by_cases hi : i < (p.graph.task t).inputs.length
    · rw [hin i hi]
      cases hc : (p.graph.task t).inputChannel i with
      | none => simp
      | some c => simp [hp.external i c hc]
    · rw [List.getElem?_eq_none (by omega)]
      unfold Task.inputChannel
      rw [List.getElem?_eq_none (by omega)]
      rfl
  refine ⟨htask, hlen, fun i => ?_, hl, hcov, fun i => ?_⟩
  · unfold Activator.isBound
    rw [hjoin]
    cases (p.graph.task t).inputChannel i with
    | none => rfl
    | some c =>
      change (m.state.get? c).isSome = m.state.contains c
      unfold ExecutionState.contains ExecutionState.get?
      rw [Std.TreeMap.contains_eq_isSome_getElem?]
  · rw [hjoin]
    unfold Machine.data Machine.datum
    cases (p.graph.task t).inputChannel i with
    | none => exact ⟨rfl, fun x hx => absurd hx (by simp)⟩
    | some c =>
      change ((m.state.get? c).bind _) = ((m.state.get? c).bind _) ∧ _
      cases hx : m.state.get? c with
      | none => exact ⟨rfl, fun y hy => absurd (hx.symm.trans hy) (by simp)⟩
      | some x =>
        have hr := hcov.references_of_own (Tidy.owned hrest hx)
        have hlt := Ledger.lt_size_of_references (Tidy.references hrest hx)
        refine ⟨(hl.payload x hlt hr).2, fun y hy => ?_⟩
        obtain rfl : x = y := Option.some.inj (hx.symm.trans hy)
        exact hr

/-- A push of a task that is alone in its stage. -/
theorem push_alone_spec {m : Machine ω} (hp : p.IsAlone s t) {J : ω → Prop} {K : Reply ω → Prop}
    (hb : Answers p b m t activation J K) (hrest : m.AtRest)
    (hready : p.IsReadyFor b m t activation) :
    Succeeds (push p b s m.state) (m.entering p s) fun _ w' =>
      ∃ r, PushedAlone p m t activation K r w' := by
  unfold push
  rw [hp.start, hp.tasks]
  have hseed : Succeeds (seed p b s m.state [t]) (m.entering p s) fun _ w => ∃ a,
      a.task = t ∧ a.inputs.length = (p.graph.task t).inputs.length ∧ m.ledger.Later w.ledger ∧
      Bears w.ledger (m.state.holds m.ledger) (a.bound ++ []) a (m.data p t) ∧
      w.memory = m.memory ∧ w.run = { ready := [(a, activation)] } := by
    unfold seed
    refine Succeeds.bind (onLedger_spec (ofState_alone_spec hp hrest)) ?_
    rintro a _ ⟨l, ⟨htask, hlen, hbound, hl, hbears⟩, rfl⟩
    refine Succeeds.bind Succeeds.get ?_
    rintro _ _ ⟨rfl, rfl⟩
    have hact : a.readiness p.graph b (m.entering p s).memory = some activation := by
      unfold Activator.readiness
      rw [htask, funext hbound]
      exact hready
    simp only [hact]
    refine Succeeds.bind (modifyRun_spec _) ?_
    rintro _ _ rfl
    exact Succeeds.pure ⟨a, htask, hlen, hl, hbears, rfl, rfl⟩
  refine Succeeds.bind hseed ?_
  rintro _ w ⟨a, htask, hlen, hl, hbears, hm, hrun⟩
  change Succeeds (drain p b s m.state 1) w _
  unfold drain
  refine Succeeds.bind Succeeds.get ?_
  rintro _ _ ⟨rfl, rfl⟩
  rw [hrun]
  simp only
  refine Succeeds.bind (modifyRun_spec _) ?_
  rintro _ _ rfl
  rw [hrun]
  refine Succeeds.bind (executeTask_alone_spec hp hb htask hlen hbears hl hm rfl) ?_
  intro _ w' hw'
  exact Succeeds.pure hw'

end Workspace

section Alone

variable {ω : Type} {p : Plan} {b : Behaviour ω} {s : StageId} {t : TaskId} {m : Machine ω}
  {activation : Activation}

/-- A reply has data for a channel. -/
def Plan.Emits (p : Plan) (t : TaskId) (r : Reply ω) (c : ChannelId) (x : Payload) : Prop :=
  ∃ o e, r.emissions[o]? = some (some e) ∧ (p.graph.task t).outputChannel o = some c ∧
    e.payload = x

/-- What a successful stage execution of one activation has done. -/
structure ExecutesAlone (p : Plan) (s : StageId) (t : TaskId) (activation : Activation)
    (m : Machine ω) (r : Reply ω) (report : StageReport) (m' : Machine ω) : Prop where
  stage : report.stage = s
  unexecuted : report.unexecuted = []
  executed : report.executed = [⟨t, activation⟩]
  memory : m'.memory = r.memory
  rest : m'.AtRest
  published : ∀ c x, p.Emits t r c x → p.isOutward c = true → m'.Publishes c x
  kept : ∀ c, (∀ x, ¬ p.Emits t r c x) → m'.state.get? c = m.state.get? c ∧
    ∀ x, m.Publishes c x → m'.Publishes c x

/-- **A task that is alone in its stage executes the activation it is ready for**, and what it emits
for other stages is published. -/
theorem executeAlone_spec (config : ExecutorConfig) (hp : p.IsAlone s t) {J : ω → Prop}
    {K : Reply ω → Prop} (hb : Workspace.Answers p b m t activation J K) (hrest : m.AtRest)
    (hready : p.IsReadyFor b m t activation) :
    ∃ report m' r, p.executeStage b config s m = (.ok report, m') ∧ K r ∧
      ExecutesAlone p s t activation m r report m' := by
  obtain ⟨_, w, hpush, r, hw⟩ := Workspace.push_alone_spec hp hb hrest hready
  obtain ⟨m', hrun, hm'⟩ := executeStage_of_push config hrest hpush hw.settled
  refine ⟨w.run.report p s, m', r, hrun, hw.reply, rfl, unexecuted_report fun u hu => ?_,
    hw.executed, hm'.memory.trans hw.memory, hm'.rest, fun c x hx hout => ?_, fun c hc => ?_⟩
  · rw [hp.tasks] at hu
    rw [hw.executed]
    exact hu
  · obtain ⟨o, e, he, ho, rfl⟩ := hx
    have hmem := Workspace.mem_emitted.mpr ⟨o, e, he, (Nat.zero_add o).symm ▸ ho, rfl⟩
    obtain ⟨i, hi, hlive⟩ := hw.carry.exists_live hmem
    exact hm'.published i hi _ _ hlive hout
  · refine hm'.kept c ?_
    intro h
    obtain ⟨i, hi, rfl⟩ := List.mem_map.mp h.1
    obtain ⟨⟨d, x⟩, hdx, hlive⟩ := hw.carry.exists_of_mem hi
    obtain ⟨o, e, he, ho, hx⟩ := Workspace.mem_emitted.mp hdx
    rw [Nat.zero_add] at ho
    exact hc x ⟨o, e, he, hlive.1 ▸ ho, hx⟩

end Alone

end Dataflow
