import Dataflow.Proofs.Execution.Atomic
import Dataflow.Proofs.Execution.Drive
import Dataflow.Proofs.Execution.Mirror
import Dataflow.Proofs.Loop.Outcome

/-!
# Executions end

The push loop of a stage execution has no bound of its own: it goes on for as long as a task is
ready. It ends all the same, since it activates no task twice, however the operators behave; the
number of tasks, which bounds it here, is never what stops it (`Pushes`). The execution of a plan, on
the other hand, can go round a loop for ever, and what ends it in the worst case is the number of
stage executions that is allowed.

A push activates each task once at most, because a task that is ready has been fed by all its
producers inside the stage and nothing is left to feed it (`Dataflow.Proofs.Execution.Once`). With
fuel for all tasks of the stage the fuel therefore outlasts the work. `Loops` and `Pushes` say what
the program says, without fuel, and the theorem says that they give the result that is computed.

* `Loops`, `Pushes`: the push loop and the push, without a bound.
* `drain_loops`, `push_pushes`: the bounded ones are these.
* `push_evaluates`: what the operators are asked to compute in a push.
* `Plan.execute_eq_iterationLimit_iff`: when the execution of a plan is given up.
* **`PreliminaryPlan.execution_bounded`**: what bounds the executions of a planned graph.

The operators are functions here and answer always; that an operator does not come back is out of
scope. The bound on the stage executions is one of the configuration, and an execution that would need
exactly as many succeeds: it is given up only when one more stage could be executed.
-/

namespace Dataflow

/-- What the operators are asked to compute in a stage execution, in order. They keep a record of it,
which changes nothing of what is executed (`Behaviour.mirrors_recording`). -/
def Plan.evaluations {ω : Type} (p : Plan) (b : Behaviour ω) (config : ExecutorConfig) (s : StageId)
    (m : Machine ω) : List Evaluation :=
  (p.executeStage b.recording config s ⟨m.ledger, m.state, (m.memory, []), m.events⟩).2.memory.2

namespace Workspace

variable {ω : Type}

/-- The push loop, for as long as a task is ready: it activates the tasks `ts`, in this order. -/
inductive Loops (p : Plan) (b : Behaviour ω) (s : StageId) (state : ExecutionState) :
    List TaskId → Workspace ω → EStateM.Result ExecutionError (Workspace ω) Unit → Prop
  | rests {w : Workspace ω} (hready : w.run.ready = []) : Loops p b s state [] w (.ok () w)
  | fails {w w' : Workspace ω} {a : Activator} {activation : Activation}
      {rest : List (Activator × Activation)} {e : ExecutionError}
      (hready : w.run.ready = (a, activation) :: rest)
      (hrun : executeTask p b s state a activation { w with run := { w.run with ready := rest } } =
        .error e w') : Loops p b s state [a.task] w (.error e w')
  | goesOn {w w₁ : Workspace ω} {a : Activator} {activation : Activation}
      {rest : List (Activator × Activation)} {ts : List TaskId}
      {out : EStateM.Result ExecutionError (Workspace ω) Unit}
      (hready : w.run.ready = (a, activation) :: rest)
      (hrun : executeTask p b s state a activation { w with run := { w.run with ready := rest } } =
        .ok () w₁) (hloop : Loops p b s state ts w₁ out) : Loops p b s state (a.task :: ts) w out

/-- A push: the start tasks are made ready, then the loop runs. -/
inductive Pushes (p : Plan) (b : Behaviour ω) (s : StageId) (state : ExecutionState) :
    List TaskId → Workspace ω → EStateM.Result ExecutionError (Workspace ω) Unit → Prop
  | unready {w w' : Workspace ω} {e : ExecutionError}
      (hseed : seed p b s state (p.stage s).startTasks w = .error e w') :
      Pushes p b s state [] w (.error e w')
  | loops {w w₁ : Workspace ω} {ts : List TaskId}
      {out : EStateM.Result ExecutionError (Workspace ω) Unit}
      (hseed : seed p b s state (p.stage s).startTasks w = .ok () w₁)
      (hloop : Loops p b s state ts w₁ out) : Pushes p b s state ts w out

section Loop

variable {p : Plan} {b : Behaviour ω} {s : StageId} {state : ExecutionState} {l₀ : Ledger}
  {done : List TaskId} {w : Workspace ω} {a : Activator} {activation : Activation}
  {rest : List (Activator × Activation)}

theorem get_eq (w : Workspace ω) : (get : WorkspaceM ω (Workspace ω)) w = .ok w w := rfl

theorem drain_of_nil (hready : w.run.ready = []) : ∀ fuel, drain p b s state fuel w = .ok () w
  | 0 => rfl
  | fuel + 1 => by
    unfold drain
    change EStateM.bind get _ w = _
    simp only [EStateM.bind, get_eq, hready]
    rfl

theorem drain_of_cons (hready : w.run.ready = (a, activation) :: rest) (fuel : Nat) :
    drain p b s state (fuel + 1) w =
      match executeTask p b s state a activation { w with run := { w.run with ready := rest } } with
      | .ok _ w₁ => drain p b s state fuel w₁
      | .error e w' => .error e w' := by
  rw [drain]
  change EStateM.bind get _ w = _
  simp only [EStateM.bind, get_eq, hready]
  change EStateM.bind (executeTask p b s state a activation) (fun _ => drain p b s state fuel)
    { w with run := { w.run with ready := rest } } = _
  unfold EStateM.bind
  cases executeTask p b s state a activation { w with run := { w.run with ready := rest } } <;> rfl

/-- **The push loop ends by itself**, with each task activated once at most. -/
theorem drain_loops (hp : p.IsOrderly s) : ∀ {fuel : Nat} {done : List TaskId} {w : Workspace ω},
    Once p s state l₀ (fedBy p s done) done w → (p.stage s).tasks.length ≤ done.length + fuel →
    ∃ ts, Loops p b s state ts w (drain p b s state fuel w) ∧ (done ++ ts).Nodup ∧
      ∀ t ∈ ts, t ∈ (p.stage s).tasks := by
  intro fuel
  induction fuel with
  | zero =>
    intro done w h hlen
    refine ⟨[], .rests (h.ready_eq_nil hlen), ?_, nofun⟩
    rw [List.append_nil]
    exact (List.nodup_append.mp h.nodup).1
  | succ fuel ih =>
    intro done w h hlen
    rcases hready : w.run.ready with _ | ⟨⟨a, activation⟩, rest⟩
    · refine ⟨[], drain_of_nil hready _ ▸ .rests hready, ?_, nofun⟩
      rw [List.append_nil]
      exact (List.nodup_append.mp h.nodup).1
    · obtain ⟨-, ht, hnodup⟩ := h.head_ready hready
      rw [drain_of_cons hready]
      have hnext := executeTask_once (b := b) hp h hready
      cases hrun : executeTask p b s state a activation
          { w with run := { w.run with ready := rest } } with
      | error e w' =>
        exact ⟨[a.task], .fails hready hrun, (List.nodup_append.mp hnodup).1,
          List.forall_mem_singleton.mpr ht⟩
      | ok _ w₁ =>
        obtain ⟨ts, hloop, hts, hmem⟩ := ih (hnext.ok hrun) (by
          rw [List.length_append, List.length_singleton]
          omega)
        rw [List.append_assoc, List.singleton_append] at hts
        exact ⟨a.task :: ts, .goesOn hready hrun hloop, hts, List.forall_mem_cons.mpr ⟨ht, hmem⟩⟩

/-- **A push ends by itself**, with each task of the stage activated once at most. -/
theorem push_pushes (hp : p.IsOrderly s) (hrun : w.run = {}) : ∃ ts, ts.Nodup ∧
    (∀ t ∈ ts, t ∈ (p.stage s).tasks) ∧ Pushes p b s state ts w (push p b s state w) := by
  have hstart : Ends (seed p b s state (p.stage s).startTasks) w
      (fun _ w' => Once p s state w.ledger (fedBy p s []) [] w')
      fun _ w' => w.ledger.Later w'.ledger := seed_start _ hp hrun
  change ∃ ts, ts.Nodup ∧ _ ∧ Pushes p b s state ts w
    (EStateM.bind (seed p b s state (p.stage s).startTasks) _ w)
  unfold EStateM.bind
  cases hseed : seed p b s state (p.stage s).startTasks w with
  | error e w' => exact ⟨[], List.nodup_nil, nofun, .unready hseed⟩
  | ok _ w₁ =>
    obtain ⟨ts, hloop, hts, hmem⟩ := drain_loops hp (hstart.ok hseed) (Nat.le_add_left _ _)
    exact ⟨ts, hts, hmem, .loops hseed hloop⟩

end Loop

/-! ## What the operators are asked to compute -/

/-- Beyond the record `l₀` there is one evaluation for each of the tasks `ts`, in order. -/
def Records (log : ω → List Evaluation) (l₀ : List Evaluation) (ts : List TaskId) (m : ω) : Prop :=
  ∃ evaluations, log m = l₀ ++ evaluations ∧ evaluations.map Evaluation.task = ts

/-- Beyond the record `l₀` some tasks of a stage were evaluated, none of them twice. -/
def RecordsOnce (p : Plan) (s : StageId) (log : ω → List Evaluation) (l₀ : List Evaluation) (m : ω) :
    Prop :=
  ∃ ts, Records log l₀ ts m ∧ ts.Nodup ∧ ∀ t ∈ ts, t ∈ (p.stage s).tasks

/-- From one memory to another one the operator of a task was asked to compute. -/
def Asked (log : ω → List Evaluation) (t : TaskId) (m m' : ω) : Prop :=
  ∃ e : Evaluation, e.task = t ∧ log m' = log m ++ [e]

theorem Records.next {log : ω → List Evaluation} {l₀ : List Evaluation} {ts : List TaskId} {m m' : ω}
    {t : TaskId} (h : Records log l₀ ts m) (ht : Asked log t m m') :
    Records log l₀ (ts ++ [t]) m' := by
  obtain ⟨evaluations, heq, rfl⟩ := h
  obtain ⟨e, rfl, hlog⟩ := ht
  exact ⟨evaluations ++ [e], by rw [hlog, heq, List.append_assoc], List.map_append⟩

section Evaluates

variable {p : Plan} {b : Behaviour ω} {s : StageId} {state : ExecutionState} {l₀ : Ledger}
  {done : List TaskId} {w w' : Workspace ω} {a : Activator} {activation : Activation}
  {log : ω → List Evaluation} {recorded : List Evaluation} {m m' : ω}
  (hlog : b.Logs log)
include hlog

/-- An activation asks the operator of its task to compute, unless getting ready fails. -/
theorem Computes.asked {reply : Except OperatorError Emissions}
    (h : Computes p b a activation w w' reply) :
    (log w'.memory = log w.memory ∧ ∃ cause, reply = .error cause) ∨
      Asked log a.task w.memory w'.memory := by
  cases h with
  | prepared _ _ hmemory => exact Or.inl ⟨by rw [hmemory, hlog.prepare], _, rfl⟩
  | @evaluated _ ctx' _ _ _ _ _ hm _ _ hshown' hr hmemory =>
    exact Or.inr ⟨ctx'.evaluation, hshown'.task, by rw [hmemory, hr, hlog.evaluate, hm, hlog.prepare]⟩

/-- Starting a loop head is no evaluation. -/
theorem Followed.log_eq {t : TaskId} (h : Followed p b t activation m m') : log m' = log m := by
  unfold Followed at h
  split at h
  · obtain ⟨old, hadvance⟩ := h
    have hkept := hlog.advance (p.graph.task t).operator.object .running m
    rwa [hadvance] at hkept
  · rw [h]

theorem Performs.asked {out : Emissions} (h : Performs p b a activation w out m) :
    Asked log a.task w.memory m := by
  obtain ⟨w₁, hcomputes, hfollowed⟩ := h
  have hkept : log m = log w₁.memory := by
    split at hfollowed
    · exact hfollowed.log_eq hlog
    · rw [hfollowed]
  rcases hcomputes.asked hlog with ⟨-, cause, hreply⟩ | ⟨e, he, hasked⟩
  · exact absurd hreply nofun
  · exact ⟨e, he, hkept.trans hasked⟩

theorem Refuses.asked {e : ExecutionError} (h : Refuses p b s a activation w m e) :
    log m = log w.memory ∨ Asked log a.task w.memory m := by
  cases h with
  | operator hcomputes hm => exact hm ▸ (hcomputes.asked hlog).imp_left And.left
  | @start _ w₁ _ hcomputes _ _ _ hadvance =>
    have hkept := hlog.advance (p.graph.task a.task).operator.object .running w₁.memory
    rw [hadvance] at hkept
    rcases hcomputes.asked hlog with ⟨hsame, -⟩ | ⟨e, he, hasked⟩
    · exact Or.inl (hkept.trans hsame)
    · exact Or.inr ⟨e, he, hkept.trans hasked⟩
  | giveBack hcomputes hm => exact hm ▸ (hcomputes.asked hlog).imp_left And.left
  | giveBackDone hperforms => exact Or.inr (hperforms.asked hlog)

/-- Executing the first ready activator. -/
theorem executeTask_evaluates (hp : p.IsOrderly s) (ho : Once p s state l₀ (fedBy p s done) done w)
    (h : Records log recorded done w.memory) {rest : List (Activator × Activation)}
    (hready : w.run.ready = (a, activation) :: rest) :
    Ends (executeTask p b s state a activation) { w with run := { w.run with ready := rest } }
      (fun _ w' => Records log recorded (done ++ [a.task]) w'.memory)
      fun _ w' => RecordsOnce p s log recorded w'.memory := by
  obtain ⟨-, ht, hnodup⟩ := ho.head_ready hready
  obtain ⟨hdone, -, -⟩ := List.nodup_append.mp hnodup
  have hbefore : ∀ t ∈ done, t ∈ (p.stage s).tasks := fun t ht =>
    ho.tasks t (List.mem_append_left _ ht)
  have hafter : ∀ m, Records log recorded (done ++ [a.task]) m → RecordsOnce p s log recorded m :=
    fun _ h => ⟨_, h, hdone, List.forall_mem_append.mpr ⟨hbefore, List.forall_mem_singleton.mpr ht⟩⟩
  refine executeTask_ends hp.wired (fun is w' hd => ?_) fun e w' hr => ?_
  · obtain ⟨out, hperforms, -⟩ := hd.performs
    refine (ho.feedAll_ends hp hready hd
      (I := fun _ w => Records log recorded (done ++ [a.task]) w.memory) (fun _ _ h hk => ?_)
      (h.next (hperforms.asked hlog))).mono (fun _ _ h => h.2.1) fun _ _ h => h
    exact feed_ends (fun hw _ _ => hw.memory ▸ h) fun _ _ hmemory => hafter _ (hmemory ▸ h)
  · rcases hr.refuses.asked hlog with hsame | hasked
    · obtain ⟨evaluations, heq, rfl⟩ := h
      exact ⟨_, ⟨evaluations, hsame.trans heq, rfl⟩, (List.nodup_append.mp hdone).1, hbefore⟩
    · exact hafter _ (h.next hasked)

/-- **A push evaluates each task of its stage once at most**, however it ends. -/
theorem push_evaluates (hp : p.IsOrderly s) (hrun : w.run = {}) : Ends (push p b s state) w
    (fun _ w' => RecordsOnce p s log (log w.memory) w'.memory)
    fun _ w' => RecordsOnce p s log (log w.memory) w'.memory := by
  have hnone : Records log (log w.memory) [] w.memory := ⟨[], (List.append_nil _).symm, rfl⟩
  have hseed : Ends (seed p b s state (p.stage s).startTasks) w
      (fun _ w' => Records log (log w.memory) [] w'.memory)
      fun _ w' => RecordsOnce p s log (log w.memory) w'.memory :=
    seed_ends (I := fun _ w' => Records log (log w.memory) [] w'.memory) (fun h _ _ _ => h)
      (fun h _ _ hmemory => ⟨[], hmemory ▸ h, List.nodup_nil, nofun⟩) hnone
  refine Ends.bind (((seed_start (fedBy p s []) hp hrun).and hseed).mono (fun _ _ h => h)
    fun _ _ h => h.2) ?_
  rintro _ w₁ ⟨ho, h⟩
  refine (drain_ends (I := fun _ w' => ∃ done, Once p s state w.ledger (fedBy p s done) done w' ∧
    Records log (log w.memory) done w'.memory)
    (E := fun _ w' => RecordsOnce p s log (log w.memory) w'.memory) ?_ ⟨[], ho, h⟩).mono ?_
    fun _ _ h => h
  · rintro _ w₂ a activation rest ⟨done, ho, h⟩ hready
    exact ((executeTask_once hp ho hready).and (executeTask_evaluates hlog hp ho h hready)).mono
      (fun _ _ h => ⟨_, h⟩) fun _ _ h => h.2
  · rintro _ w' ⟨-, ⟨done, ho, h⟩, -⟩
    exact ⟨done, h, (List.nodup_append.mp ho.nodup).1,
      fun t ht => ho.tasks t (List.mem_append_left _ ht)⟩

end Evaluates

end Workspace

/-- **A stage execution evaluates each task of the stage once at most**, however it ends. -/
theorem Plan.nodup_evaluations {ω : Type} {p : Plan} {s : StageId} (hp : p.IsOrderly s)
    (b : Behaviour ω) (config : ExecutorConfig) (m : Machine ω) :
    ((p.evaluations b config s m).map Evaluation.task).Nodup ∧
      ∀ t ∈ (p.evaluations b config s m).map Evaluation.task, t ∈ (p.stage s).tasks := by
  let watched : Machine (ω × List Evaluation) := ⟨m.ledger, m.state, (m.memory, []), m.events⟩
  obtain ⟨ts, ⟨evaluations, heq, rfl⟩, hnodup, hmem⟩ :
      Workspace.RecordsOnce p s Prod.snd [] (p.executeStage b.recording config s watched).2.memory :=
    executeStage_memory hp (m := watched)
      (C := fun memory => Workspace.RecordsOnce p s Prod.snd [] memory)
      (Workspace.push_evaluates (w := watched.entering p s) b.logs_recording hp rfl)
  rw [List.nil_append] at heq
  unfold Plan.evaluations
  rw [heq]
  exact ⟨hnodup, hmem⟩

/-! ## The execution of a plan -/

namespace Plan

variable {ω : Type} {p : Plan} {b : Behaviour ω} {config : ExecutorConfig} {m : Machine ω}

theorem exists_nextExecutable_iff {a : Agenda} : (∃ s, p.nextExecutable b a m = some s) ↔
    ∃ s < p.stages.length, p.isExecutable b a m s = true := by
  unfold nextExecutable stageIds
  rw [← Option.isSome_iff_exists, List.find?_isSome]
  exact exists_congr fun s => and_congr_left' List.mem_range

/-- What an execution that comes to rest ends with. -/
theorem conclude_ne_iterationLimit {a : Agenda} {memory : ω} (k : Nat) :
    p.conclude b config a memory ≠ .error (.iterationLimit k) := fun h => by
  have hconclusion := p.conclude_conclusion b config a memory
  rw [h] at hconclusion
  cases hconclusion

/-- **An execution is given up** exactly where as many stage executions as are allowed have succeeded
and one more is possible. -/
theorem execute_eq_iterationLimit_iff (horderly : ∀ s < p.stages.length, p.IsOrderly s) {k : Nat} :
    (p.execute b config m).1 = .error (.iterationLimit k) ↔
      k = config.maxStageExecutions.toNat ∧ ∃ here,
        p.midway b config m config.maxStageExecutions.toNat = some here ∧
        ∃ s < p.stages.length, p.isExecutable b here.agenda here.machine s = true := by
  constructor
  · intro h
    obtain ⟨n, -, hending⟩ := p.execute_ending b config m
    generalize p.execute b config m = out at h hending
    cases hending with
    | rests hhere hnext hresult =>
      subst hresult
      cases hc : p.conclude b config _ _ with
      | ok _ => rw [hc] at h; exact absurd h nofun
      | error e =>
        rw [hc] at h
        obtain rfl := Except.error.inj h
        exact absurd hc (conclude_ne_iterationLimit k)
    | fails hhere hnext hrun =>
      obtain rfl := Except.error.inj h
      exact (executeStage_fails (horderly _ (nextExecutable_lt hnext)) hrun).elim
    | exceeds hhere hnext =>
      exact ⟨(ExecutionError.iterationLimit.inj (Except.error.inj h)).symm, _, hhere,
        exists_nextExecutable_iff.mp ⟨_, hnext⟩⟩
  · rintro ⟨rfl, here, hhere, hexecutable⟩
    obtain ⟨s, hnext⟩ := exists_nextExecutable_iff.mpr hexecutable
    rw [execute_of_excess hhere hnext]

/-- What bounds the executions of a plan. -/
structure Bounded (p : Plan) (b : Behaviour ω) (config : ExecutorConfig) (m : Machine ω) : Prop where
  /-- The push of a stage execution is one that ends by itself. -/
  pushes : ∀ s < p.stages.length, ∃ ts, ts.Nodup ∧ (∀ t ∈ ts, t ∈ (p.stage s).tasks) ∧
    Workspace.Pushes p b s m.state ts (m.entering p s)
      (Workspace.push p b s m.state (m.entering p s))
  /-- Each task of a stage is evaluated once at most. -/
  evaluations : ∀ s < p.stages.length, ((p.evaluations b config s m).map Evaluation.task).Nodup ∧
    ∀ t ∈ (p.evaluations b config s m).map Evaluation.task, t ∈ (p.stage s).tasks
  /-- There are no more stage executions than are allowed, failing ones included. -/
  ends : ∃ n ≤ config.maxStageExecutions.toNat, p.Ending b config m n (p.execute b config m)
  limit : ∀ k, (p.execute b config m).1 = .error (.iterationLimit k) ↔
    k = config.maxStageExecutions.toNat ∧ ∃ here,
      p.midway b config m config.maxStageExecutions.toNat = some here ∧
      here.reports.length = config.maxStageExecutions.toNat ∧
      ∃ s < p.stages.length, p.isExecutable b here.agenda here.machine s = true

end Plan

/-- **Executions of a planned graph are bounded**, whatever the operators do: a push ends by itself,
having evaluated each task of its stage once at most, and an execution of the plan ends after the
number of stage executions that is allowed, if not before. -/
theorem PreliminaryPlan.execution_bounded {ω : Type} {p : PreliminaryPlan} {plan : Plan}
    (hg : p.graph.Built) (h : p.assign = .ok plan) (b : Behaviour ω) (config : ExecutorConfig)
    (m : Machine ω) : plan.Bounded b config m := by
  have horderly : ∀ s < plan.stages.length, plan.IsOrderly s := fun s hs =>
    (isOrderly_of_assign hg h hs).1
  refine ⟨fun s hs => Workspace.push_pushes (horderly s hs) rfl,
    fun s hs => Plan.nodup_evaluations (horderly s hs) b config m, plan.execute_ending b config m,
    fun k => ?_⟩
  rw [Plan.execute_eq_iterationLimit_iff horderly]
  refine and_congr_right fun _ => exists_congr fun here => and_congr_right fun hhere => ?_
  rw [and_iff_right (Plan.length_reports hhere)]

/-! ## A loop that takes too long -/

/-- Three stage executions are one too few for the first iteration of a loop. -/
theorem counting_bounded : ∃ plan here, counting.assign = .ok plan ∧
    plan.Bounded (adding.withLoop 2) { maxStageExecutions := 3 } { memory := untilFour } ∧
    (plan.execute (adding.withLoop 2) { maxStageExecutions := 3 } { memory := untilFour }).1 =
      .error (.iterationLimit 3) ∧
    plan.midway (adding.withLoop 2) { maxStageExecutions := 3 } { memory := untilFour } 3 =
      some here ∧
    ∃ s < plan.stages.length,
      plan.isExecutable (adding.withLoop 2) here.agenda here.machine s = true := by
  obtain ⟨plan, hplan, hlimit⟩ : ∃ plan, counting.assign = .ok plan ∧
      (plan.execute (adding.withLoop 2) { maxStageExecutions := 3 } { memory := untilFour }).1 =
        .error (.iterationLimit 3) :=
    PreliminaryPlan.exists_assign_of_decide (by decide +kernel)
  have hbounded := PreliminaryPlan.execution_bounded built_counting hplan (adding.withLoop 2)
    { maxStageExecutions := 3 } { memory := untilFour }
  obtain ⟨-, here, hhere, -, hexecutable⟩ := (hbounded.limit 3).mp hlimit
  exact ⟨plan, here, hplan, hbounded, hlimit, hhere, hexecutable⟩

end Dataflow
