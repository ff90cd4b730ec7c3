import Dataflow.Proofs.Execution.Rounds

/-!
# Which tasks a stage execution activates

A stage execution activates the start tasks of the stage, and after them every task for which
nothing is missing: what other stages feed is published, and what the stage itself feeds was emitted
by tasks that were activated before. No other task is activated, so which ones are is a least set
(`Plan.Spans`), although the push finds them one by one, in the order in which inputs are bound.

The set is defined by the stage, the state and what the tasks have emitted, and by no order. That each
task in it is activated is an induction on the least set, with what is known at the end of a push:
nothing is ready and each channel with an instance has fed its readers. The converse, that nothing
else is activated, is an invariant of the push.

* `Course`: what a push has done at any moment, with what each activation has emitted.
* `feed_course`, `executeTask_course`, `seed_course`, `drain_course`: the steps.
* `push_course`: a whole push.
* **`executeStage_activates`**: a stage execution that succeeds.

What the tasks have emitted is part of the statement (`runs`), since with operators that may emit or
not the set depends on it. Tasks that are not activated are not a failure: a stage execution succeeds
although nothing has reached them, and lists them in its report.
-/

namespace Dataflow

/-- A task that was executed, with what its operator has emitted. -/
structure TaskRun where
  executed : ExecutedTask
  out : Emissions

namespace TaskRun

/-- The task that has its turn. -/
def task (x : TaskRun) : TaskId := x.executed.task

/-- In one of these runs a task has emitted on an output. -/
def Emits (runs : List TaskRun) (t : TaskId) (output : Nat) : Prop :=
  ∃ x ∈ runs, x.task = t ∧ ∃ e, x.out[output]? = some (some e)

/-- The channels of what was emitted, in order. -/
def channels (p : Plan) (runs : List TaskRun) : List ChannelId :=
  runs.flatMap fun x => (Workspace.emitted p x.task 0 x.out).map Prod.fst

theorem channels_append (p : Plan) (xs ys : List TaskRun) :
    channels p (xs ++ ys) = channels p xs ++ channels p ys := List.flatMap_append

/-- What is emitted on the output that feeds a channel becomes an instance of the channel. -/
theorem emits_iff {p : Plan} (hw : p.graph.Wired) {runs : List TaskRun} {c : ChannelId}
    (hc : c < p.graph.channels.length) :
    c ∈ channels p runs ↔ Emits runs (p.graph.channel c).producer (p.graph.channel c).output := by
  unfold channels Emits
  rw [List.mem_flatMap]
  refine exists_congr fun x => and_congr_right fun _ => ?_
  rw [List.mem_map]
  constructor
  · rintro ⟨⟨d, y⟩, hd, rfl⟩
    obtain ⟨o, e, he, ho, -⟩ := Workspace.mem_emitted.mp hd
    rw [Nat.zero_add] at ho
    obtain ⟨-, hprod, hout⟩ := (hw.output_iff _ _ _).mp ho
    exact ⟨hprod.symm, e, hout ▸ he⟩
  · rintro ⟨htask, e, he⟩
    have ho := (hw.output_iff x.task (p.graph.channel c).output c).mpr ⟨hc, htask.symm, rfl⟩
    exact ⟨(c, e.payload), Workspace.mem_emitted.mpr ⟨_, e, he, by rwa [Nat.zero_add], rfl⟩, rfl⟩

end TaskRun

/-- Tasks of a stage among which are the start tasks and every other task for which nothing is
missing: its inputs that are fed through the state are published, and the others come from tasks
among them that emit on the output. -/
structure Plan.Spans (p : Plan) (s : StageId) (state : ExecutionState) (emits : TaskId → Nat → Prop)
    (X : Set TaskId) : Prop where
  tasks : ∀ t ∈ X, t ∈ (p.stage s).tasks
  start : ∀ t ∈ (p.stage s).startTasks, t ∈ X
  next : ∀ t ∈ (p.stage s).tasks, t ∉ (p.stage s).startTasks →
    (∀ i c, (p.graph.task t).inputChannel i = some c → p.isFedExternally t i = true →
      (state.get? c).isSome = true) →
    (∀ i c, (p.graph.task t).inputChannel i = some c → p.isFedExternally t i = false →
      (p.graph.channel c).producer ∈ X ∧
        emits (p.graph.channel c).producer (p.graph.channel c).output) → t ∈ X

/-- What a stage execution from the state `state` has activated, task by task: `runs` says what each
of them has emitted, `l` is the ledger behind it. -/
structure Plan.Activates {ω : Type} (p : Plan) (b : Behaviour ω) (s : StageId)
    (state : ExecutionState) (l : Ledger) (runs : List TaskRun) (report : StageReport) : Prop where
  executed : report.executed = runs.map TaskRun.executed
  replies : ∀ x ∈ runs, Workspace.Replies p b x.task x.executed.activation x.out
  /-- What was emitted on connected outputs has become the instances, in order. -/
  channels : report.instances.map (fun i => (l.get i).channel) = TaskRun.channels p runs
  nodup : (report.executed.map ExecutedTask.task).Nodup
  isLeast : IsLeast {X | p.Spans s state (TaskRun.Emits runs) X}
    {t | t ∈ report.executed.map ExecutedTask.task}
  /-- What feeds a task inside the stage was executed before. -/
  ordered : ∀ before x after, report.executed = before ++ x :: after →
    ∀ u ∈ p.innerProducers x.task, u ∈ before.map ExecutedTask.task
  unexecuted : report.unexecuted =
    (p.stage s).tasks.filter (· ∉ report.executed.map ExecutedTask.task)

namespace Workspace

variable {ω : Type}

/-- A task without loop roles is ready only when all its inputs are bound. -/
def Whole (p : Plan) (r : StageRun) : Prop :=
  ∀ x ∈ r.ready, (p.graph.task x.1.task).operator.loopRoles = none →
    ∀ i < (p.graph.task x.1.task).inputs.length, x.1.isBound i = true

/-- A push from the state `state` and the ledger `l₀`, after some of them have been executed. -/
structure Course (p : Plan) (b : Behaviour ω) (s : StageId) (state : ExecutionState) (l₀ : Ledger)
    (runs : List TaskRun) (w : Workspace ω) : Prop where
  once : Once p s state l₀ (Fed p s w) (runs.map TaskRun.task) w
  whole : Whole p w.run
  executed : w.run.executed = runs.map TaskRun.executed
  replies : ∀ x ∈ runs, Replies p b x.task x.executed.activation x.out
  channels : w.run.instances.map (fun i => (w.ledger.get i).channel) = TaskRun.channels p runs
  ordered : ∀ before x after, runs = before ++ x :: after →
    ∀ u ∈ p.innerProducers x.task, u ∈ before.map TaskRun.task
  published : ∀ x ∈ runs, (p.graph.task x.task).operator.loopRoles = none →
    ∀ i c, (p.graph.task x.task).inputChannel i = some c → p.isFedExternally x.task i = true →
      (state.get? c).isSome = true

section Course

variable {p : Plan} {b : Behaviour ω} {s : StageId} {state : ExecutionState} {l₀ : Ledger}
  {fed : Consumer → Prop} {runs : List TaskRun} {w : Workspace ω} {a : Activator}

/-! ## Feeding -/

theorem bound_of_readiness (hplain : (p.graph.task a.task).operator.loopRoles = none) {m : ω}
    {activation : Activation} (hr : a.readiness p.graph b m = some activation) :
    ∀ i < (p.graph.task a.task).inputs.length, a.isBound i = true := by
  unfold Activator.readiness readiness at hr
  rw [hplain] at hr
  simp only at hr
  split at hr
  · rename_i hall
    exact fun i hi => List.all_eq_true.mp hall i (List.mem_range.mpr hi)
  · exact absurd hr nofun

/-- Feeding leaves alone what was executed. -/
theorem feed_course {t : TaskId} {input : Nat} {x : InstanceId} (h : Whole p w.run) :
    Ends (feed p b state t input x) w
      (fun _ w' => Whole p w'.run ∧ w'.run.executed = w.run.executed) fun _ _ => True := by
  refine feed_ends (fun {a w₁ l} hw _ _ => ?_) fun _ _ _ => trivial
  refine ⟨fun y hy hplain => ?_, executed_settle.trans hw.executed⟩
  rcases mem_ready_settle.mp hy with hy | ⟨heq, hnext⟩
  · exact h y (hw.ready ▸ hy) hplain
  · rw [heq] at hplain ⊢
    exact bound_of_readiness hplain hnext

/-! ## Executing a task -/

/-- What the producers inside the stage have to feed is there when a task is ready, and so is what is
fed through the state. -/
theorem Course.ready (hp : p.IsOrderly s) (h : Course p b s state l₀ runs w)
    {activation : Activation} (hready : (a, activation) ∈ w.run.ready) :
    (∀ u ∈ p.innerProducers a.task, u ∈ runs.map TaskRun.task) ∧
      ((p.graph.task a.task).operator.loopRoles = none → ∀ i c,
        (p.graph.task a.task).inputChannel i = some c → p.isFedExternally a.task i = true →
          (state.get? c).isSome = true) := by
  constructor
  · intro u hu
    obtain ⟨i, c, hc, hx, rfl⟩ := mem_innerProducers.mp hu
    have hfilled := h.once.filled a.task (List.mem_append_right _ (List.mem_map.mpr ⟨_, hready, rfl⟩))
    have hfed := (hfilled i c hc).resolve_left (by rw [hx]; exact nofun)
    obtain ⟨-, d, hd, -, hdone⟩ := h.once.fedBy_of_fed hp hfed
    obtain rfl := Option.some.inj (hc.symm.trans hd)
    exact hdone
  · intro hplain i c hc hx
    have hmem : a ∈ w.run.activators := List.mem_append_right _ (List.mem_map.mpr ⟨_, hready, rfl⟩)
    have hbound := h.whole _ hready hplain i (lt_length_of_inputChannel hc)
    unfold Activator.isBound at hbound
    rw [(h.once.binds a hmem).external i hx, hc] at hbound
    exact hbound

/-- When an executed task has fed its readers, the push has come one task further. -/
theorem Course.next (hp : p.IsOrderly s) (h : Course p b s state l₀ runs w)
    {activation : Activation} {rest : List (Activator × Activation)}
    (hready : w.run.ready = (a, activation) :: rest) {is : List InstanceId} {w' w'' : Workspace ω}
    (hd : Delivers p b a activation rest w is w') (hframe : Frame w' w'')
    (ho : Once p s state l₀
      (fun k => Fed p s w k ∨ ∃ x ∈ is, k ∈ innerConsumers p s (w'.ledger.get x).channel)
      (runs.map TaskRun.task ++ [a.task]) w'')
    (hwhole : Whole p w''.run) (hexecuted : w''.run.executed = w'.run.executed) :
    ∃ runs, Course p b s state l₀ runs w'' := by
  obtain ⟨out, hreplies, hchannels⟩ := hd.replied
  obtain ⟨hproducers, hpublished⟩ := h.ready hp (hready ▸ List.mem_cons_self)
  let next : TaskRun := ⟨⟨a.task, activation⟩, out⟩
  have htasks : (runs ++ [next]).map TaskRun.task = runs.map TaskRun.task ++ [a.task] :=
    List.map_append
  refine ⟨runs ++ [next], {
    once := ?once
    whole := hwhole
    executed := ?executed
    replies := ?replies
    channels := ?channels
    ordered := ?ordered
    published := ?published }⟩
  case once =>
    rw [htasks]
    exact ho.mono fun k hk => (h.once.fed_next hd hframe).mpr hk
  case executed =>
    rw [hexecuted, hd.run, h.executed, List.map_append]
    rfl
  case replies =>
    exact List.forall_mem_append.mpr ⟨h.replies, List.forall_mem_singleton.mpr hreplies⟩
  case channels =>
    have hold := h.once.channel_eq (hd.later.trans hframe.later)
    have hnew : ∀ i ∈ is, (w''.ledger.get i).channel = (w'.ledger.get i).channel := fun i hi =>
      hframe.later.channel i (hd.yields.fresh i hi).2
    rw [TaskRun.channels_append, hframe.instances, hd.run, List.map_append,
      List.map_congr_left hold, List.map_congr_left hnew, h.channels, hchannels]
    exact congrArg _ (List.flatMap_singleton _ _).symm
  case ordered =>
    intro before x after heq
    rcases List.eq_nil_or_concat after with rfl | ⟨after, y, rfl⟩
    · obtain ⟨rfl, hx⟩ := List.append_inj' heq rfl
      obtain rfl := (List.cons.inj hx).1
      exact hproducers
    · rw [List.concat_eq_append, ← List.cons_append, ← List.append_assoc] at heq
      exact h.ordered before x after (List.append_inj' heq rfl).1
  case published =>
    exact List.forall_mem_append.mpr ⟨h.published, List.forall_mem_singleton.mpr hpublished⟩

/-- Executing the first ready activator. -/
theorem executeTask_course (hp : p.IsOrderly s) (h : Course p b s state l₀ runs w)
    {activation : Activation} {rest : List (Activator × Activation)}
    (hready : w.run.ready = (a, activation) :: rest) :
    Ends (executeTask p b s state a activation) { w with run := { w.run with ready := rest } }
      (fun _ w' => ∃ runs, Course p b s state l₀ runs w') fun _ _ => True := by
  refine executeTask_ends hp.wired (fun is w' hd => ?_) fun _ _ _ => trivial
  have hfedBy : ∀ k, Fed p s w k → fedBy p s (runs.map TaskRun.task) k := fun _ =>
    h.once.fedBy_of_fed hp
  -- what is fed now was not fed before, not even as far as it could have been
  have hawaited : ∀ x ∈ is, ∀ k ∈ innerConsumers p s (w'.ledger.get x).channel,
      Awaited p s (Fed p s w) (w'.ledger.get x).channel k := fun x hx k hk => by
    have hk' := (h.once.mono hfedBy).awaited_of_delivers hp hready hd hx hk
    exact ⟨hk'.mem, hk'.channel, hk'.inner, fun hf => hk'.unfed (hfedBy k hf)⟩
  refine (feedAll_ends hp (I := fun fed w'' =>
    Once p s state l₀ fed (runs.map TaskRun.task ++ [a.task]) w'' ∧ Whole p w''.run ∧
      w''.run.executed = w'.run.executed) (E := fun _ _ => True)
    (fun {_ w₁ _ _ _} _ hI hk => ?_) hd.yields.channels (fun x hx => (hd.yields.fresh x hx).2)
    hawaited ⟨h.once.executed_next hready hd, fun x hx => ?_, rfl⟩).mono ?_ fun _ _ _ => trivial
  · obtain ⟨ho, hwhole, hexecuted⟩ := hI
    refine ((feed_once hp ho hk).and (feed_course hwhole)).mono ?_ fun _ _ _ => trivial
    rintro _ w₂ ⟨⟨ho', hframe⟩, hwhole', hexecuted'⟩
    exact ⟨⟨ho', hwhole', hexecuted'.trans hexecuted⟩, hframe⟩
  · rw [hd.run] at hx
    exact h.whole x (hready ▸ List.mem_cons_of_mem _ hx)
  · rintro _ w'' ⟨⟨ho, hwhole, hexecuted⟩, hframe⟩
    exact h.next hp hready hd hframe ho hwhole hexecuted

/-! ## The whole push -/

/-- Making start tasks ready. -/
theorem seed_course {ts : List TaskId} (hrun : w.run = {}) : Ends (seed p b s state ts) w
    (fun _ w' => w'.run.instances = [] ∧ w'.run.executed = [] ∧ Whole p w'.run)
    fun _ _ => True := by
  refine seed_ends (I := fun _ w' => w'.run.instances = [] ∧ w'.run.executed = [] ∧ Whole p w'.run)
    ?_ (fun _ _ _ _ => trivial) ?_
  · rintro _ w a l activation ⟨hinstances, hexecuted, hwhole⟩ - - hr
    refine ⟨hinstances, hexecuted, fun x hx hplain => ?_⟩
    rcases List.mem_append.mp hx with hx | hx
    · exact hwhole x hx hplain
    · obtain rfl := List.mem_singleton.mp hx
      exact bound_of_readiness hplain hr
  · rw [hrun]
    exact ⟨rfl, rfl, nofun⟩

/-- Executing ready activators. -/
theorem drain_course (hp : p.IsOrderly s) {fuel : Nat} (h : Course p b s state l₀ runs w) :
    Ends (drain p b s state fuel) w (fun _ w' => ∃ runs, Course p b s state l₀ runs w')
      fun _ _ => True := by
  refine (drain_ends (I := fun _ w => ∃ runs, Course p b s state l₀ runs w) ?_ ⟨runs, h⟩).mono ?_
    fun _ _ h => h
  · rintro _ w a activation rest ⟨runs, h⟩ hready
    exact executeTask_course hp h hready
  · rintro _ w' ⟨-, h', -⟩
    exact h'

/-- **A push activates tasks one after the other**, each after those that feed it. -/
theorem push_course (hp : p.IsOrderly s) (hrun : w.run = {}) : Ends (push p b s state) w
    (fun _ w' => ∃ runs, Course p b s state w.ledger runs w') fun _ _ => True := by
  refine Ends.bind (((seed_start (fun _ => False) hp hrun).and (seed_course hrun)).mono
    (fun _ _ h => h) fun _ _ _ => trivial) ?_
  rintro _ w' ⟨ho, hinstances, hexecuted, hwhole⟩
  have hcourse : Course p b s state w.ledger [] w' := by
    refine ⟨ho.mono fun _ => False.elim, hwhole, hexecuted, nofun, ?_, fun before x after heq => ?_,
      nofun⟩
    · rw [hinstances]
      rfl
    · exact absurd heq.symm (List.append_ne_nil_of_right_ne_nil _ (List.cons_ne_nil _ _))
  exact drain_course hp hcourse

/-! ## What was activated -/

/-- An input is fed when its producer has emitted on the output. -/
theorem Course.fed_iff (hp : p.IsOrderly s) (h : Course p b s state l₀ runs w) {t : TaskId}
    (ht : t ∈ (p.stage s).tasks) {i : Nat} {c : ChannelId}
    (hc : (p.graph.task t).inputChannel i = some c) (hx : p.isFedExternally t i = false) :
    Fed p s w ⟨t, i⟩ ↔
      TaskRun.Emits runs (p.graph.channel c).producer (p.graph.channel c).output := by
  obtain ⟨hlt, -⟩ := (hp.wired.input_iff t i c).mp hc
  have hb : (p.graph.channel c).barrier = false := by
    rw [isFedExternally_eq hc, Bool.or_eq_false_iff] at hx
    exact hx.1
  rw [← TaskRun.emits_iff hp.wired hlt, ← h.channels, List.mem_map]
  refine exists_congr fun x => and_congr_right fun hmem => ?_
  constructor
  · intro hk
    obtain ⟨-, hd, -⟩ := (mem_innerConsumers hp.wired (lt_of_mem_innerConsumers hk)).mp hk
    exact Option.some.inj (hd.symm.trans hc)
  · rintro rfl
    exact (mem_innerConsumers hp.wired hlt).mpr ⟨(hp.placed t).mpr ht, hc, hb⟩

/-- Nothing is executed that a set has to leave out from which nothing is missing: when a task has its
turn, the producers of what it reads have had theirs. -/
theorem Course.mem_of_spans (hp : p.IsOrderly s) (h : Course p b s state l₀ runs w)
    {X : Set TaskId} (hX : p.Spans s state (TaskRun.Emits runs) X) :
    ∀ t ∈ runs.map TaskRun.task, t ∈ X := by
  have htasks : ∀ t ∈ runs.map TaskRun.task, t ∈ (p.stage s).tasks := fun t ht =>
    h.once.tasks t (List.mem_append_left _ ht)
  -- by induction on how many tasks have had their turns
  suffices hprefix : ∀ before after, runs = before ++ after →
      ∀ t ∈ before.map TaskRun.task, t ∈ X from hprefix runs [] (List.append_nil _).symm
  intro before
  induction before using List.reverseRecOn with
  | nil => exact nofun
  | append_singleton before x ih =>
    intro after heq t ht
    rw [List.append_assoc, List.singleton_append] at heq
    have hbefore := ih _ heq
    rw [List.map_append, List.mem_append] at ht
    rcases ht with ht | ht
    · exact hbefore t ht
    obtain rfl : t = x.task := List.mem_singleton.mp ht
    have hx : x ∈ runs := heq ▸ List.mem_append_right _ List.mem_cons_self
    have hmem : x.task ∈ runs.map TaskRun.task := List.mem_map_of_mem hx
    by_cases hstart : x.task ∈ (p.stage s).startTasks
    · exact hX.start _ hstart
    refine hX.next _ (htasks _ hmem) hstart
      (h.published x hx (hp.plain _ (htasks _ hmem) hstart)) fun i c hc hinner => ⟨?_, ?_⟩
    · have hproducer := mem_innerProducers.mpr ⟨i, c, hc, hinner, rfl⟩
      exact hbefore _ (h.ordered before x after heq _ hproducer)
    · refine (h.fed_iff hp (htasks _ hmem) hc hinner).mp ?_
      exact (h.once.filled _ (List.mem_append_left _ hmem) i c hc).resolve_left
        (by rw [hinner]; exact nofun)

/-- **The tasks that a push has executed are the least ones** among which nothing is missing. -/
theorem Course.isLeast (hp : p.IsOrderly s) (h : Course p b s state l₀ runs w)
    (hspent : Spent p b s state l₀ (runs.map TaskRun.task) w)
    (hplain : ∀ t ∈ (p.stage s).tasks, t ∉ (p.stage s).startTasks → p.IsPlain s) :
    IsLeast {X | p.Spans s state (TaskRun.Emits runs) X} {t | t ∈ runs.map TaskRun.task} := by
  refine ⟨⟨fun t ht => h.once.tasks t (List.mem_append_left _ ht), fun t ht => ?_,
    fun t ht hnot hpublished hinner => ?_⟩, fun X hX => h.mem_of_spans hp hX⟩
  · have hmem := hspent.spread.started t ht
    rwa [hspent.ready, List.map_nil, List.append_nil] at hmem
  · exact hspent.mem_done (hplain t ht hnot) ht hpublished fun i c hc hx =>
      (h.fed_iff hp ht hc hx).mpr (hinner i c hc hx).2

end Course

/-- What a push has executed is what the stage execution reports. -/
theorem Course.activates (hp : p.IsOrderly s) (h : Course p b s state l₀ runs w)
    (hspent : Spent p b s state l₀ (runs.map TaskRun.task) w)
    (hplain : ∀ t ∈ (p.stage s).tasks, t ∉ (p.stage s).startTasks → p.IsPlain s) {l : Ledger}
    (hl : w.ledger.Later l) : p.Activates b s state l runs (w.run.report p s) := by
  have htasks : w.run.executed.map ExecutedTask.task = runs.map TaskRun.task := h.once.executed
  refine ⟨h.executed, h.replies, ?_, ?_, ?_, fun before x after heq => ?_, ?_⟩
  · rw [← h.channels]
    exact List.map_congr_left (h.once.channel_eq hl)
  · exact htasks ▸ (List.nodup_append.mp h.once.nodup).1
  · change IsLeast _ {t | t ∈ w.run.executed.map ExecutedTask.task}
    rw [htasks]
    exact h.isLeast hp hspent hplain
  · obtain ⟨before', _, rfl, rfl, hafter⟩ := List.map_eq_append_iff.mp (h.executed.symm.trans heq)
    obtain ⟨y, after', rfl, rfl, rfl⟩ := List.map_eq_cons_iff.mp hafter
    rw [List.map_map]
    exact h.ordered before' y after' rfl
  · refine List.filter_congr fun t _ => ?_
    rw [List.contains_eq_mem, decide_not]
    rfl

end Workspace

namespace PreliminaryPlan

variable {ω : Type} {p : PreliminaryPlan} {plan : Plan} {b : Behaviour ω} {s : StageId}
  {m m' : Machine ω}

/-- **Which tasks a stage execution activates, and in which order**: no task twice, and those are the
least ones among which nothing is missing, each after the tasks that feed it inside the stage. -/
theorem executeStage_activates (hg : p.graph.Built) (h : p.assign = .ok plan)
    (hs : s < plan.stages.length) {config : ExecutorConfig} {report : StageReport}
    (hrun : plan.executeStage b config s m = (.ok report, m')) :
    ∃ runs, plan.Activates b s m.state m'.ledger runs report := by
  have hp := (isOrderly_of_assign hg h hs).1
  have hplain : ∀ t ∈ (plan.stage s).tasks, t ∉ (plan.stage s).startTasks → plan.IsPlain s :=
    fun t ht hnot => by
    obtain ⟨r, -, hfin⟩ := finished_of_assign hg h
    refine (isPlain_of_assign hg h ht ?_).2.1
    rw [← hfin.isLoopHead]
    exact Option.isSome_eq_false_iff.mpr (Option.isNone_iff_eq_none.mpr (hp.plain t ht hnot))
  obtain ⟨w, hpush, rfl, hl⟩ := Plan.exists_push hp hrun
  obtain ⟨done, hspent⟩ := (Workspace.push_spread hp rfl).ok hpush
  obtain ⟨runs, hcourse⟩ := (Workspace.push_course hp rfl).ok hpush
  obtain rfl : done = runs.map TaskRun.task :=
    hspent.once.executed.symm.trans hcourse.once.executed
  exact ⟨runs, hcourse.activates hp hspent hplain hl⟩

end PreliminaryPlan

/-! ## A task that waits in vain -/

/-- One of the tasks that the last but one waits for has nothing to say. -/
def dwindling : PreliminaryPlan := .ofGraph
  ((((((((((TaskGraph.empty.addTask
    { object := 0, name := "read", platform := ⟨"a"⟩, inputs := [], outputs := [.any] }).addTask
    { object := 1, name := "step", platform := ⟨"a"⟩, inputs := [.any], outputs := [.any] }).addTask
    { object := 2, name := "thin", platform := ⟨"a"⟩, inputs := [.any], outputs := [.any] }).addTask
    { object := 3, name := "join", platform := ⟨"a"⟩, inputs := [.any, .any], outputs := [] }).addTask
    { object := 4, name := "show", platform := ⟨"a"⟩, inputs := [.any], outputs := [] }).wire
      0 0 1 0 .collection).wire 1 0 2 0 .collection).wire 1 0 3 0 .collection).wire
      2 0 3 1 .collection).wire 1 0 4 0 .collection)

theorem built_dwindling : dwindling.graph.Built :=
  .wire (.wire (.wire (.wire (.wire (.addTask _ (.addTask _ (.addTask _ (.addTask _ (.addTask _
    .empty))))) rfl) rfl) rfl) rfl) rfl

/-- That task stays behind, with one of its inputs bound. -/
theorem dwindling_activates : ∃ plan report m' runs, dwindling.assign = .ok plan ∧
    plan.executeStage fading {} 0 { memory := () } = (.ok report, m') ∧
    report.executed.map ExecutedTask.task = [0, 1, 2, 4] ∧ report.unexecuted = [3] ∧
    plan.Activates fading 0 {} m'.ledger runs report := by
  have hcheck : (dwindling.assign.map fun plan => (plan.stages.length,
      (plan.executeStage fading {} 0 { memory := () }).1.map fun report =>
        (report.executed.map ExecutedTask.task, report.unexecuted))) =
      .ok (1, .ok ([0, 1, 2, 4], [3])) := by decide +kernel
  obtain ⟨plan, hplan, hresult⟩ := PreliminaryPlan.exists_assign_of_map hcheck
  obtain ⟨hlen, hresult⟩ := Prod.mk.inj hresult
  rcases hrun : plan.executeStage fading {} 0 { memory := () } with ⟨_ | report, m'⟩
  · rw [hrun] at hresult
    exact absurd hresult nofun
  · rw [hrun] at hresult
    obtain ⟨hexecuted, hunexecuted⟩ := Prod.mk.inj (Except.ok.inj hresult)
    obtain ⟨runs, hruns⟩ := PreliminaryPlan.executeStage_activates built_dwindling hplan
      (hlen ▸ Nat.zero_lt_one) hrun
    exact ⟨plan, report, m', runs, hplan, hrun, hexecuted, hunexecuted, hruns⟩

end Dataflow
