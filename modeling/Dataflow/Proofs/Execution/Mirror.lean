import Dataflow.Proofs.Execution.References

/-!
# Operators that keep more in memory

The engine does not look into the memory of the operators, it hands it on from one operator to the
next. So operators that reply like others and keep something of their own beside what those keep are
executed like those.

* `Behaviour.Mirrors`: operators that are others as seen through a part of their memory.
* `Mirrors`: the same of computations, with a lemma for each way to put computations together.
* `executeTask_mirrors`, `push_mirrors`, `publish_mirrors`: the parts of a stage execution.
* **`Behaviour.Mirrors.executeStage`**, **`Behaviour.Mirrors.execute`**: what is executed does not
  depend on what is kept besides.
* **`Behaviour.Mirrors.exists_reaches`**: wherever stage executions lead, they lead there with
  everything that is kept besides.

It is a simulation with a function instead of a relation: the memory of the one is a part of that of
the other. Each computation of the engine is shown to commute with taking the part, from the smallest
ones up. This is proved once for all records, and a record is then one instance of
`Behaviour.Mirrors`: of evaluations, of emissions, of what is done to references, or of the calls of
one operator.
-/

namespace Dataflow

/-! ## A part of the memory -/

section Part

variable {ω ω' : Type}

/-- The same reply, with a part of the memory. -/
def Reply.map (f : ω' → ω) (r : Reply ω') : Reply ω := { r with memory := f r.memory }

/-- The same workspace, with a part of the memory. -/
def Workspace.map (f : ω' → ω) (w : Workspace ω') : Workspace ω :=
  ⟨w.ledger, f w.memory, w.events, w.run⟩

/-- The same machine, with a part of the memory. -/
def Machine.map (f : ω' → ω) (m : Machine ω') : Machine ω :=
  ⟨m.ledger, m.state, f m.memory, m.events⟩

@[simp] theorem Workspace.memory_map (f : ω' → ω) (w : Workspace ω') :
    (w.map f).memory = f w.memory := rfl

@[simp] theorem Workspace.run_map (f : ω' → ω) (w : Workspace ω') : (w.map f).run = w.run := rfl

@[simp] theorem Machine.ledger_map (f : ω' → ω) (m : Machine ω') :
    (m.map f).ledger = m.ledger := rfl

@[simp] theorem Machine.memory_map (f : ω' → ω) (m : Machine ω') :
    (m.map f).memory = f m.memory := rfl

@[simp] theorem Machine.events_map (f : ω' → ω) (m : Machine ω') :
    (m.map f).events = m.events := rfl

/-- The same machine, with something beside the memory of the operators. -/
def Machine.beside {α : Type} (m : Machine ω) (x : α) : Machine (ω × α) :=
  ⟨m.ledger, m.state, (m.memory, x), m.events⟩

@[simp] theorem Machine.memory_beside {α : Type} (m : Machine ω) (x : α) :
    (m.beside x).memory = (m.memory, x) := rfl

@[simp] theorem Machine.map_beside {α : Type} (m : Machine ω) (x : α) :
    (m.beside x).map Prod.fst = m := rfl

/-- What was beside the memory is put there again. -/
@[simp] theorem Machine.beside_map {α : Type} (m : Machine (ω × α)) :
    (m.map Prod.fst).beside m.memory.2 = m := rfl

/-- The operators `b'` are the operators `b` if only a part of their memory is seen. -/
structure Behaviour.Mirrors (b' : Behaviour ω') (b : Behaviour ω) (f : ω' → ω) : Prop where
  prepare : ∀ o ctx m, b.prepare o ctx (f m) = (b'.prepare o ctx m).map f
  evaluate : ∀ o ctx m, b.evaluate o ctx (f m) = (b'.evaluate o ctx m).map f
  loopState : ∀ o m, b.loopState o (f m) = b'.loopState o m
  advance : ∀ o s m, b.advance o s (f m) = ((b'.advance o s m).1, f (b'.advance o s m).2)

end Part

/-! ## Computations -/

/-- The computation `x` does to a part of the state what `x'` does to the state. -/
def Mirrors {ε σ σ' α : Type} (g : σ' → σ) (x' : EStateM ε σ' α) (x : EStateM ε σ α) : Prop :=
  ∀ s, x (g s) = match x' s with
    | .ok a s' => .ok a (g s')
    | .error e s' => .error e (g s')

namespace Mirrors

variable {ε σ σ' α β : Type} {g : σ' → σ} {x' : EStateM ε σ' α} {x : EStateM ε σ α} {t t' : σ'}

theorem ok (h : Mirrors g x' x) {a : α} (hx : x' t = .ok a t') : x (g t) = .ok a (g t') := by
  rw [h t, hx]

theorem error (h : Mirrors g x' x) {e : ε} (hx : x' t = .error e t') :
    x (g t) = .error e (g t') := by
  rw [h t, hx]

theorem pure {a : α} : Mirrors g (Pure.pure a : EStateM ε σ' α) (Pure.pure a) := fun _ => rfl

theorem throw {e : ε} :
    Mirrors g (MonadExceptOf.throw e : EStateM ε σ' α) (MonadExceptOf.throw e) := fun _ => rfl

theorem bind {k' : α → EStateM ε σ' β} {k : α → EStateM ε σ β} (hx : Mirrors g x' x)
    (hk : ∀ a, Mirrors g (k' a) (k a)) : Mirrors g (x' >>= k') (x >>= k) := by
  intro s
  change EStateM.bind x k (g s) = match EStateM.bind x' k' s with
    | .ok a s' => .ok a (g s')
    | .error e s' => .error e (g s')
  unfold EStateM.bind
  rw [hx s]
  cases x' s with
  | ok a s' => exact hk a s'
  | error e s' => rfl

/-- Reading the state. -/
theorem get_bind {k' : σ' → EStateM ε σ' β} {k : σ → EStateM ε σ β}
    (hk : ∀ s, Mirrors g (k' s) (k (g s))) : Mirrors g (get >>= k') (get >>= k) := fun s => hk s s

theorem modify {h' : σ' → σ'} {h : σ → σ} (hh : ∀ s, h (g s) = g (h' s)) :
    Mirrors g (modify h' : EStateM ε σ' PUnit) (modify h) := fun s =>
  congrArg (EStateM.Result.ok PUnit.unit) (hh s)

theorem modifyGet {h' : σ' → α × σ'} {h : σ → α × σ}
    (hh : ∀ s, h (g s) = ((h' s).1, g (h' s).2)) :
    Mirrors g (modifyGet h' : EStateM ε σ' α) (modifyGet h) := by
  intro s
  change EStateM.modifyGet h (g s) = .ok (h' s).1 (g (h' s).2)
  unfold EStateM.modifyGet
  rw [hh s]

end Mirrors

variable {ω ω' : Type} {b' : Behaviour ω'} {b : Behaviour ω} {f : ω' → ω} {p : Plan} {s : StageId}
  {state : ExecutionState}

namespace Behaviour.Mirrors

variable (hb : b'.Mirrors b f)
include hb

theorem loopState_map {t : TaskId} (m : ω') : p.loopState b (f m) t = p.loopState b' m t :=
  hb.loopState _ m

theorem readiness_map {a : Activator} (m : ω') :
    a.readiness p.graph b (f m) = a.readiness p.graph b' m := by
  unfold Activator.readiness
  exact congrArg (fun state => readiness (p.graph.task a.task) state a.isBound)
    (hb.loopState (p.graph.task a.task).operator.object m)

end Behaviour.Mirrors

/-! ## The push -/

namespace Workspace

theorem onLedger_mirrors {α : Type} {x : LedgerM α} :
    Mirrors (map f) (onLedger x : WorkspaceM ω' α) (onLedger x) := by
  rintro ⟨ledger, memory, events, run⟩
  unfold onLedger map
  dsimp only
  cases x ledger <;> rfl

theorem emit_mirrors {e : ExecutionEvent} :
    Mirrors (map f) (emit e : WorkspaceM ω' Unit) (emit e) := .modify fun _ => rfl

theorem modifyRun_mirrors {h : StageRun → StageRun} :
    Mirrors (map f) (modifyRun h : WorkspaceM ω' Unit) (modifyRun h) := .modify fun _ => rfl

theorem consult_mirrors {inputs : List (Option InstanceId)} {ctx : TaskContext}
    {ask' : TaskContext → ω' → Reply ω'} {ask : TaskContext → ω → Reply ω}
    (h : ∀ ctx m, ask ctx (f m) = (ask' ctx m).map f) :
    Mirrors (map f) (consult inputs ctx ask') (consult inputs ctx ask) := by
  intro w
  unfold consult map
  simp only [h]
  rfl

theorem produce_mirrors {t : TaskId} : ∀ {output : Nat} {out : Emissions},
    Mirrors (map f) (produce p t output out : WorkspaceM ω' _) (produce p t output out)
  | _, [] => .pure
  | output, none :: rest => by
    unfold produce
    exact produce_mirrors
  | output, some e :: rest => by
    unfold produce
    cases (p.graph.task t).outputChannel output with
    | none => exact produce_mirrors
    | some c => exact .bind (.modifyGet fun _ => rfl) fun _ => .bind produce_mirrors fun _ => .pure

section Operators

variable (hb : b'.Mirrors b f)
include hb

theorem activate_mirrors {stage : Stage} {a : Activator} {activation : Activation} :
    Mirrors (map f) (activate p b' stage a activation) (activate p b stage a activation) := by
  unfold activate
  refine .bind (consult_mirrors fun ctx m => hb.prepare _ ctx m) fun reply => ?_
  cases reply with
  | error e => exact .pure
  | ok _ => exact consult_mirrors fun ctx m => hb.evaluate _ ctx m

theorem followLoopHead_mirrors {t : TaskId} {activation : Activation} {before : LoopState} :
    Mirrors (map f) (followLoopHead p b' t activation before)
      (followLoopHead p b t activation before) := by
  unfold followLoopHead
  refine .get_bind fun w => ?_
  simp only [memory_map, hb.loopState]
  split
  on_goal 1 =>
    refine .get_bind fun w => ?_
    simp only [memory_map, hb.advance]
    refine .bind (fun _ => rfl) fun _ => ?_
    cases (b'.advance (p.graph.task t).operator.object .running w.memory).1
    on_goal 1 => exact .throw
    dsimp only
  -- whether the loop head had to be started or not, it is read again
  all_goals
    refine .get_bind fun w => ?_
    simp only [memory_map, hb.loopState]
    split
    · exact emit_mirrors
    · exact .pure

theorem feed_mirrors {t : TaskId} {input : Nat} {i : InstanceId} :
    Mirrors (map f) (feed p b' state t input i) (feed p b state t input i) := by
  unfold feed
  refine .get_bind fun w => ?_
  rw [run_map]
  cases w.run.find? t
  on_goal 1 => refine .bind onLedger_mirrors fun _ => .bind modifyRun_mirrors fun _ => ?_
  -- whether the activator is new or not, it accepts the instance
  all_goals
    refine .bind .pure fun _ => .bind onLedger_mirrors fun a => .bind modifyRun_mirrors fun _ =>
      .get_bind fun w => ?_
    rw [memory_map, hb.readiness_map]
    cases a.readiness p.graph b' w.memory with
    | some activation => exact modifyRun_mirrors
    | none => exact .pure

theorem feedEach_mirrors {i : InstanceId} : ∀ {ks : List Consumer},
    Mirrors (map f) (feedEach p b' state i ks) (feedEach p b state i ks)
  | [] => .pure
  | _ :: _ => .bind (feed_mirrors hb) fun _ => feedEach_mirrors

theorem feedAll_mirrors : ∀ {is : List InstanceId},
    Mirrors (map f) (feedAll p b' s state is) (feedAll p b s state is)
  | [] => .pure
  | _ :: _ => .get_bind fun _ => .bind (feedEach_mirrors hb) fun _ => feedAll_mirrors

theorem executeTask_mirrors {a : Activator} {activation : Activation} :
    Mirrors (map f) (executeTask p b' s state a activation)
      (executeTask p b s state a activation) := by
  unfold executeTask
  refine .get_bind fun w => .bind (activate_mirrors hb) fun reply => ?_
  cases reply with
  | error cause => exact .bind onLedger_mirrors fun _ => .throw
  | ok out =>
    simp only [memory_map, hb.loopState_map]
    split
    on_goal 1 => refine .bind (followLoopHead_mirrors hb) fun _ => ?_
    all_goals
      exact .bind produce_mirrors fun _ => .bind onLedger_mirrors fun _ =>
        .bind modifyRun_mirrors fun _ => .bind emit_mirrors fun _ => feedAll_mirrors hb

theorem seed_mirrors : ∀ {ts : List TaskId},
    Mirrors (map f) (seed p b' s state ts) (seed p b s state ts)
  | [] => .pure
  | t :: ts => by
    unfold seed
    refine .bind onLedger_mirrors fun a => .get_bind fun w => ?_
    rw [memory_map, hb.readiness_map]
    cases a.readiness p.graph b' w.memory with
    | some activation => exact .bind modifyRun_mirrors fun _ => seed_mirrors
    | none => exact .bind onLedger_mirrors fun _ => .throw

theorem drain_mirrors : ∀ {fuel : Nat},
    Mirrors (map f) (drain p b' s state fuel) (drain p b s state fuel)
  | 0 => .pure
  | fuel + 1 => by
    unfold drain
    refine .get_bind fun w => ?_
    rw [run_map]
    cases w.run.ready with
    | nil => exact .pure
    | cons r rest =>
      exact .bind modifyRun_mirrors fun _ => .bind (executeTask_mirrors hb) fun _ => drain_mirrors

theorem push_mirrors : Mirrors (map f) (push p b' s state) (push p b s state) :=
  .bind (seed_mirrors hb) fun _ => drain_mirrors hb

end Operators

end Workspace

/-! ## The publication -/

namespace Machine

theorem onStore_mirrors {α : Type} {x : StoreM α} :
    Mirrors (map f) (onStore x : MachineM ω' α) (onStore x) := by
  rintro ⟨ledger, state, memory, events⟩
  unfold onStore map
  dsimp only
  cases x ⟨ledger, state⟩ <;> rfl

theorem recordCardinalities_mirrors : ∀ {is : List InstanceId},
    Mirrors (map f) (recordCardinalities is : MachineM ω' Unit) (recordCardinalities is)
  | [] => .pure
  | i :: is => by
    unfold recordCardinalities
    refine .get_bind fun m => ?_
    rw [ledger_map]
    dsimp only
    split
    · exact .bind (.modify fun _ => rfl) fun _ => .bind (.modify fun _ => rfl) fun _ =>
        recordCardinalities_mirrors
    · exact recordCardinalities_mirrors

theorem publish_mirrors {config : ExecutorConfig} {is : List InstanceId} :
    Mirrors (map f) (publish p config s is : MachineM ω' Unit) (publish p config s is) := by
  have hrecord : ∀ c : Prop, [Decidable c] → Mirrors (map f)
      (if c then recordCardinalities is else Pure.pure () : MachineM ω' Unit)
      (if c then recordCardinalities is else Pure.pure ()) := fun c _ => by
    split
    · exact recordCardinalities_mirrors
    · exact .pure
  unfold publish
  refine .get_bind fun m => ?_
  rw [ledger_map]
  dsimp only
  split
  · exact .bind .throw fun _ => hrecord _
  · exact .bind onStore_mirrors fun _ => hrecord _

end Machine

/-! ## Whole executions -/

namespace Behaviour.Mirrors

open Machine

variable (hb : b'.Mirrors b f)
include hb

/-- **A stage execution does not depend on what operators keep besides.** -/
theorem executeStage (config : ExecutorConfig) (m : Machine ω') :
    p.executeStage b config s (m.map f) =
      ((p.executeStage b' config s m).1, (p.executeStage b' config s m).2.map f) := by
  have hpush : Dataflow.Mirrors (Workspace.map f) (Workspace.push p b' s m.state)
      (Workspace.push p b s m.state) := Workspace.push_mirrors hb
  have hending := executeStage_ending p b' config s m
  generalize p.executeStage b' config s m = out at hending
  apply Plan.StageEnding.executeStage_eq
  cases hending with
  | @pushFails e w h => exact .pushFails (m := m.map f) (w := w.map f) (hpush.error h)
  | @publishFails w e m₁ h h₁ =>
    exact .publishFails (m := m.map f) (w := w.map f) (hpush.ok h) (publish_mirrors.error h₁)
  | @releaseFails w m₁ e m₂ h h₁ h₂ =>
    exact .releaseFails (m := m.map f) (w := w.map f) (hpush.ok h) (publish_mirrors.ok h₁)
      (onStore_mirrors.error h₂)
  | @completes w m₁ m₂ h h₁ h₂ =>
    exact .completes (m := m.map f) (w := w.map f) (hpush.ok h) (publish_mirrors.ok h₁)
      (onStore_mirrors.ok h₂)

/-! ### The driver -/

theorem inboundReady_map {t : TaskId} (m : ω') :
    p.inboundReady b (f m) state t = p.inboundReady b' m state t := by
  unfold Plan.inboundReady
  rw [hb.loopState_map]

theorem nextExecutable_map {a : Agenda} (m : Machine ω') :
    p.nextExecutable b a (m.map f) = p.nextExecutable b' a m := by
  have hready : ∀ s, p.isExecutable b a (m.map f) s = p.isExecutable b' a m s := fun s => by
    unfold Plan.isExecutable
    exact congrArg (_ && List.all _ ·) (funext fun t => hb.inboundReady_map m.memory)
  unfold Plan.nextExecutable
  rw [funext hready]

theorem headState_map (m : ω') : p.headState b (f m) s = p.headState b' m s := by
  unfold Plan.headState
  exact congrArg (Option.map · _) (funext fun t => hb.loopState_map m)

theorem rearm_map {a : Agenda} (m : ω') : p.rearm b (f m) s a = p.rearm b' m s a := by
  unfold Plan.rearm Plan.rearmBody Plan.rearmHead
  simp only [hb.headState_map]

theorem conclude_map {config : ExecutorConfig} {a : Agenda} (m : ω') :
    p.conclude b config a (f m) = p.conclude b' config a m := by
  unfold Plan.conclude Plan.unfinishedLoop
  simp only [hb.loopState_map]

theorem drive {config : ExecutorConfig} : ∀ {allowed : Nat} {a : Agenda}
    {reports : Array StageReport} {m : Machine ω'}, p.drive b config allowed a reports (m.map f) =
      ((p.drive b' config allowed a reports m).1, (p.drive b' config allowed a reports m).2.1,
        (p.drive b' config allowed a reports m).2.2.map f)
  | 0, a, reports, m => by
    unfold Plan.drive
    rw [hb.nextExecutable_map]
    cases p.nextExecutable b' a m with
    | none => exact congrArg (·, reports, m.map f) (hb.conclude_map m.memory)
    | some s => rfl
  | allowed + 1, a, reports, m => by
    unfold Plan.drive
    rw [hb.nextExecutable_map]
    cases p.nextExecutable b' a m with
    | none => exact congrArg (·, reports, m.map f) (hb.conclude_map m.memory)
    | some s =>
      dsimp only
      rw [hb.executeStage]
      rcases p.executeStage b' config s m with ⟨_ | report, m'⟩
      · rfl
      · dsimp only
        rw [memory_map, hb.rearm_map]
        exact drive

/-- **A plan execution does not depend on what operators keep besides.** -/
theorem execute (config : ExecutorConfig) (m : Machine ω') : p.execute b config (m.map f) =
    ((p.execute b' config m).1, (p.execute b' config m).2.map f) := by
  have hdrive : p.drive b config config.maxStageExecutions.toNat (.allPending p.stages.length) #[]
      { m.map f with events := m.events.push (.planStarted p.stages.length) } = _ :=
    hb.drive (m := { m with events := m.events.push (.planStarted p.stages.length) })
  unfold Plan.execute
  dsimp only
  rw [events_map, hdrive]
  rfl

/-- Wherever stage executions lead, they lead there with everything that is kept besides. -/
theorem exists_reaches {m₀' : Machine ω'} {m : Machine ω} (hm : p.Reaches b (m₀'.map f) m) :
    ∃ m', p.Reaches b' m₀' m' ∧ m = m'.map f := by
  induction hm with
  | refl => exact ⟨m₀', .refl, rfl⟩
  | step config hs _ ih =>
    obtain ⟨m', hm', rfl⟩ := ih
    exact ⟨_, hm'.step config hs, congrArg Prod.snd (hb.executeStage config m')⟩

end Behaviour.Mirrors

/-- A record of the evaluations beside the memory changes nothing of what is executed. -/
theorem Behaviour.mirrors_recording : b.recording.Mirrors b Prod.fst :=
  ⟨fun _ _ _ => rfl, fun _ _ _ => rfl, fun _ _ => rfl, fun _ _ _ => rfl⟩

end Dataflow
