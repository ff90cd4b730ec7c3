import Dataflow.Proofs.Execution.Obtained
import Dataflow.Proofs.Execution.Trace

/-!
# What is measured

An instance reports a cardinality if its channel was marked when the instance was made and its
producer told the cardinality with the data. The engine changes neither afterwards, and the operators
do not as long as they leave the instances on their inputs alone. So what the instances of a push
report is what the operators told in this push, and nothing of it gets lost or comes twice.

* `measures`: what instances report.
* `Plan.Measures`: what a task tells when it emits data.
* `Behaviour.reporting`: a record of what is emitted, beside the operators' memory.
* **`push_measures`**: what has been emitted in a push is what its instances report.
-/

namespace Dataflow

/-- What some instances report, in order. -/
def measures (l : Ledger) (is : List InstanceId) : List (ChannelId × Nat) :=
  is.filterMap fun i => (l.get i).measure?

section Measures

variable {l : Ledger} {i : InstanceId} {is : List InstanceId} {c : ChannelId} {n : Nat}

theorem mem_measures : (c, n) ∈ measures l is ↔ ∃ i ∈ is, (l.get i).measure? = some (c, n) :=
  List.mem_filterMap

theorem measures_cons_none (h : (l.get i).measure? = none) : measures l (i :: is) = measures l is :=
  List.filterMap_cons_none h

theorem measures_cons_some {x : ChannelId × Nat} (h : (l.get i).measure? = some x) :
    measures l (i :: is) = x :: measures l is := List.filterMap_cons_some h

/-- Instances of different channels report on different channels. -/
theorem nodup_measures (h : (is.map fun i => (l.get i).channel).Nodup) :
    ((measures l is).map Prod.fst).Nodup := by
  refine h.sublist ?_
  clear h
  induction is with
  | nil => exact List.Sublist.refl _
  | cons i is ih =>
    cases hm : (l.get i).measure? with
    | none =>
      rw [measures_cons_none hm]
      exact ih.cons _
    | some x =>
      rw [measures_cons_some hm, List.map_cons, List.map_cons, (Instance.measure?_eq_some.mp hm).1]
      exact ih.cons_cons _

end Measures

theorem Ledger.SameMeasures.measures {l l' : Ledger} (h : l.SameMeasures l') {is : List InstanceId}
    (his : ∀ i ∈ is, i < l.cells.size) : measures l' is = measures l is :=
  List.filterMap_congr fun i hi => h.measure i (his i hi)

/-! ## What is emitted -/

/-- An operator neither changes the references on its inputs nor notes anything about them. -/
structure Behaviour.LeavesInputs {ω : Type} (b : Behaviour ω) (o : ObjectId) : Prop where
  prepare : ∀ ctx m, (b.prepare o ctx m).touches = []
  evaluate : ∀ ctx m, (b.evaluate o ctx m).touches = []

theorem Behaviour.LeavesInputs.onlyNotes {ω : Type} {b : Behaviour ω} {o : ObjectId}
    (h : b.LeavesInputs o) : b.OnlyNotes o :=
  ⟨fun ctx m => h.prepare ctx m ▸ nofun, fun ctx m => h.evaluate ctx m ▸ nofun⟩

/-- A task together with what it has emitted on its outputs. -/
abbrev EmittedBy := TaskId × Emissions

/-- What is emitted by an evaluation: nothing if it fails. -/
def Reply.emittedBy {ω : Type} (r : Reply ω) (t : TaskId) : List EmittedBy :=
  match r.result with
  | .ok _ => [(t, r.emissions)]
  | .error _ => []

/-- The operators' memory has a record of what an operator emits. -/
structure Behaviour.LogsEmissions {ω : Type} (b : Behaviour ω) (o : ObjectId)
    (log : ω → List EmittedBy) : Prop where
  prepare : ∀ ctx m, log (b.prepare o ctx m).memory = log m
  evaluate : ∀ ctx m, log (b.evaluate o ctx m).memory =
    log m ++ (b.evaluate o ctx m).emittedBy ctx.task
  advance : ∀ s m, log (b.advance o s m).2 = log m

/-- The same operators, with a record of what they emit beside their memory. -/
def Behaviour.reporting {ω : Type} (b : Behaviour ω) : Behaviour (ω × List EmittedBy) where
  prepare o ctx m :=
    let r := b.prepare o ctx m.1
    { result := r.result, emissions := r.emissions, touches := r.touches, memory := (r.memory, m.2) }
  evaluate o ctx m :=
    let r := b.evaluate o ctx m.1
    { result := r.result, emissions := r.emissions, touches := r.touches,
      memory := (r.memory, m.2 ++ r.emittedBy ctx.task) }
  loopState o m := b.loopState o m.1
  advance o s m := ((b.advance o s m.1).1, (b.advance o s m.1).2, m.2)

theorem Behaviour.logsEmissions_reporting {ω : Type} (b : Behaviour ω) (o : ObjectId) :
    b.reporting.LogsEmissions o Prod.snd := ⟨fun _ _ => rfl, fun _ _ => rfl, fun _ _ => rfl⟩

/-- The record changes nothing of what is executed. -/
theorem Behaviour.mirrors_reporting {ω : Type} (b : Behaviour ω) : b.reporting.Mirrors b Prod.fst :=
  ⟨fun _ _ _ => rfl, fun _ _ _ => rfl, fun _ _ => rfl, fun _ _ _ => rfl⟩

theorem Behaviour.LeavesInputs.reporting {ω : Type} {b : Behaviour ω} {o : ObjectId}
    (h : b.LeavesInputs o) : b.reporting.LeavesInputs o :=
  ⟨fun ctx m => h.prepare ctx m.1, fun ctx m => h.evaluate ctx m.1⟩

/-- A task has told the cardinality of what it emitted on the output of a channel that reports. -/
def Plan.Measures (p : Plan) (x : EmittedBy) (c : ChannelId) (n : Nat) : Prop :=
  c < p.graph.channels.length ∧ (p.graph.channel c).producer = x.1 ∧
    (p.graph.channel c).instrumented = true ∧
    ∃ e, x.2[(p.graph.channel c).output]? = some (some e) ∧ e.cardinality = some n

namespace Workspace

variable {ω : Type} {p : Plan} {b : Behaviour ω} {s : StageId} {state : ExecutionState}
  {log : ω → List EmittedBy} {w w₀ w' : Workspace ω} {a : Activator} {activation : Activation}

/-- Emissions tell a cardinality for a channel that reports; `output` is the number of the first
output. -/
def Tells (p : Plan) (t : TaskId) (output : Nat) (out : Emissions) (c : ChannelId) (n : Nat) : Prop :=
  ∃ j e, out[j]? = some (some e) ∧ (p.graph.task t).outputChannel (output + j) = some c ∧
    (p.graph.channel c).instrumented = true ∧ e.cardinality = some n

theorem tells_cons {t : TaskId} {output : Nat} {x : Option Emission} {out : Emissions}
    {c : ChannelId} {n : Nat} : Tells p t output (x :: out) c n ↔
      (∃ e, x = some e ∧ (p.graph.task t).outputChannel output = some c ∧
        (emittedInstance p t c e).measure? = some (c, n)) ∨ Tells p t (output + 1) out c n := by
  unfold Tells
  rw [← Nat.or_exists_add_one]
  simp [Instance.measure?_eq_some, emittedInstance, Instance.create, Nat.add_assoc, Nat.add_comm 1]

/-- All of what was told for a channel that reports was told on the output that feeds it. -/
theorem tells_iff (hw : p.graph.Wired) {t : TaskId} {out : Emissions} {c : ChannelId} {n : Nat} :
    Tells p t 0 out c n ↔ p.Measures (t, out) c n := by
  unfold Tells Plan.Measures
  simp only [Nat.zero_add, hw.output_iff]
  constructor
  · rintro ⟨j, e, he, ⟨hc, hprod, rfl⟩, hmark, hn⟩
    exact ⟨hc, hprod, hmark, e, he, hn⟩
  · rintro ⟨hc, hprod, hmark, e, he, hn⟩
    exact ⟨_, e, he, ⟨hc, hprod, rfl⟩, hmark, hn⟩

theorem Makes.sameMeasures {is : List InstanceId} (h : Makes w is w') :
    w.ledger.SameMeasures w'.ledger :=
  ⟨h.later.size, fun i hi => congrArg Instance.measure? (h.old i hi)⟩

/-- The instances that are made of emissions report what these tell. -/
theorem produce_measures {t : TaskId} : ∀ {out : Emissions} {output : Nat} {w : Workspace ω},
    Succeeds (produce p t output out) w fun is w' =>
      ∀ c n, (c, n) ∈ measures w'.ledger is ↔ Tells p t output out c n
  | [], output, w => by
    refine Succeeds.pure fun c n => iff_of_false List.not_mem_nil ?_
    rintro ⟨j, e, he, -⟩
    exact absurd he (by simp)
  | none :: rest, output, w => by
    unfold produce
    refine produce_measures.mono fun is w' h c n => ?_
    rw [h, tells_cons]
    refine (or_iff_right ?_).symm
    rintro ⟨e, he, -⟩
    exact absurd he.symm (Option.some_ne_none e)
  | some e :: rest, output, w => by
    unfold produce
    cases ho : (p.graph.task t).outputChannel output with
    | none =>
      refine produce_measures.mono fun is w' h c n => ?_
      rw [h, tells_cons]
      refine (or_iff_right ?_).symm
      rintro ⟨e, -, hc, -⟩
      exact absurd (hc.symm.trans ho) (Option.some_ne_none c)
    | some d =>
      refine Succeeds.bind (enter_spec (emittedInstance p t d e)) ?_
      rintro _ _ ⟨rfl, rfl⟩
      refine Succeeds.bind (produce_makes.and_ends (E := fun _ _ => True) produce_measures.ends) ?_
      rintro is w' ⟨⟨-, hmakes⟩, h⟩
      obtain ⟨-, -, hget⟩ := Ledger.create_spec w.ledger (emittedInstance p t d e) rfl
      have hlt : (w.ledger.create (emittedInstance p t d e)).2 <
          (w.ledger.create (emittedInstance p t d e)).1.cells.size :=
        Nat.lt_of_lt_of_eq (Nat.lt_succ_self _) (Array.size_push _).symm
      have hnew : w'.ledger.get (w.ledger.create (emittedInstance p t d e)).2 =
          emittedInstance p t d e := (hmakes.old _ hlt).trans hget
      refine Succeeds.pure fun c n => ?_
      rw [tells_cons, ← h, mem_measures, mem_measures, List.exists_mem_cons_iff, hnew]
      refine or_congr_left ⟨fun hm => ⟨e, rfl, ?_⟩, ?_⟩
      · obtain rfl := (Instance.measure?_eq_some.mp hm).1
        exact ⟨ho, hm⟩
      · rintro ⟨e', he, hc, hm⟩
        obtain rfl := Option.some.inj he
        obtain rfl := Option.some.inj (ho.symm.trans hc)
        exact hm

/-! ## Executing a task -/

/-- Asking an operator that leaves its inputs alone changes no instance. -/
theorem consult_leaves {inputs : List (Option InstanceId)} {ctx : TaskContext}
    {ask : TaskContext → ω → Reply ω} (hask : ∀ ctx m, (ask ctx m).touches = []) :
    Succeeds (consult inputs ctx ask) w fun _ w' => w'.ledger = w.ledger := by
  refine ⟨_, _, rfl, ?_⟩
  change List.foldl _ w.ledger _ = w.ledger
  rw [hask]
  rfl

/-- An activation of such an operator adds what it emits to the record, and does nothing else. -/
theorem activate_emits {stage : Stage} (hb : b.LeavesInputs (p.graph.task a.task).operator.object)
    (hlog : b.LogsEmissions (p.graph.task a.task).operator.object log) :
    Succeeds (activate p b stage a activation) w fun reply w' =>
      w'.run = w.run ∧ w'.ledger = w.ledger ∧ log w'.memory = log w.memory ++
        match reply with
        | .ok out => [(a.task, out)]
        | .error _ => [] := by
  have hledger : Succeeds (activate p b stage a activation) w fun _ w' => w'.ledger = w.ledger := by
    unfold activate
    refine Succeeds.bind (consult_leaves hb.prepare) fun reply w₁ h₁ => ?_
    cases reply with
    | error cause => exact Succeeds.pure h₁
    | ok _ => exact (consult_leaves hb.evaluate).mono fun _ _ h₂ => h₂.trans h₁
  refine (activate_computes.and_ends (E := fun _ _ => True) hledger.ends).mono ?_
  rintro reply w' ⟨⟨hrun, -, hcomputes⟩, hl⟩
  refine ⟨hrun, hl, ?_⟩
  cases hcomputes with
  | prepared _ _ hmemory => rw [hmemory, hlog.prepare, List.append_nil]
  | evaluated _ _ hm _ _ hshown hr hmemory =>
    rw [hmemory, hr, hlog.evaluate, hm, hlog.prepare, hshown.task]
    unfold Reply.emittedBy
    cases (b.evaluate (p.graph.task a.task).operator.object _ _).result <;> rfl

/-- The operators have emitted this, and it was recorded. -/
def Logged (log : ω → List EmittedBy) (w w' : Workspace ω) (xs : List EmittedBy) : Prop :=
  log w'.memory = log w.memory ++ xs

/-- What is left when a task has emitted data: its instances report what was told with the data, and
the other ones report what they did. -/
structure Yielded (p : Plan) (log : ω → List EmittedBy) (t : TaskId) (w w' : Workspace ω) : Prop where
  ledger : w.ledger.SameMeasures w'.ledger
  made : ∃ out is, Logged log w w' [(t, out)] ∧ w'.run.instances = w.run.instances ++ is ∧
    ∀ c n, (c, n) ∈ measures w'.ledger is ↔ p.Measures (t, out) c n

/-- What follows when the operator of a task has emitted data. -/
theorem deliver_yields (hw : p.graph.Wired) {w₁ : Workspace ω} {out : Emissions} {e : ExecutionEvent}
    (hl : w₁.ledger = w.ledger) (hrun : w₁.run = w.run) (hlog : Logged log w w₁ [(a.task, out)]) :
    Ends (do
      let produced ← produce p a.task 0 out
      onLedger a.dispose
      modifyRun fun r => { r with
        instances := r.instances ++ produced
        executed := r.executed ++ [⟨a.task, activation⟩] }
      emit e
      feedAll p b s state produced) w₁ (fun _ w' => Yielded p log a.task w w')
      fun _ w' => Logged log w w' [(a.task, out)] := by
  have hkept : ∀ {w₂ : Workspace ω}, w₂.memory = w₁.memory → Logged log w w₂ [(a.task, out)] :=
    fun hm => by
      unfold Logged
      rw [hm]
      exact hlog
  refine Ends.bind (produce_makes.and_ends (E := fun _ _ => True) produce_measures.ends).ends ?_
  rintro is w₂ ⟨⟨-, hmakes⟩, hmeasures⟩
  have his : ∀ i ∈ is, i < w₂.ledger.cells.size := fun i hi => (hmakes.fresh i hi).2
  refine Ends.bind ((idle_onLedger Activator.unmeasured_dispose w₂).mono (fun _ _ h => h)
    fun _ _ h => hkept (h.memory.trans hmakes.memory)) fun _ w₃ h₃ => ?_
  refine Ends.bind (modifyRun_spec _).ends ?_
  rintro _ _ rfl
  refine Ends.bind (emit_spec _).ends ?_
  rintro _ _ ⟨events, rfl⟩
  refine (idle_feedAll _).mono (fun _ w' h₄ => ?_) fun _ w' h₄ =>
    hkept (h₄.memory.trans (h₃.memory.trans hmakes.memory))
  have hsame : w₂.ledger.SameMeasures w'.ledger := h₃.ledger.trans h₄.ledger
  refine ⟨hl ▸ hmakes.sameMeasures.trans hsame, out, is,
    hkept (h₄.memory.trans (h₃.memory.trans hmakes.memory)), ?_, fun c n => ?_⟩
  · rw [h₄.instances]
    change w₃.run.instances ++ is = _
    rw [h₃.instances, hmakes.run, hrun]
  · rw [hsame.measures his, hmeasures, tells_iff hw]

/-- **What is emitted when a ready activator is executed** is recorded, and the new instances report
it. A task that fails may have emitted data too. -/
theorem executeTask_yields (hw : p.graph.Wired)
    (hb : b.LeavesInputs (p.graph.task a.task).operator.object)
    (hlog : b.LogsEmissions (p.graph.task a.task).operator.object log) :
    Ends (executeTask p b s state a activation) w (fun _ w' => Yielded p log a.task w w')
      fun _ w' => ∃ xs, Logged log w w' xs ∧ ∀ x ∈ xs, x.1 = a.task := by
  unfold executeTask
  refine Ends.bind Succeeds.get.ends ?_
  rintro _ _ ⟨rfl, rfl⟩
  refine Ends.bind (activate_emits hb hlog).ends ?_
  rintro reply w₁ ⟨hrun₁, hl₁, hlog₁⟩
  cases reply with
  | error cause =>
    have hnone : ∀ {w₂ : Workspace ω}, SameResults w₁ w₂ →
        ∃ xs, Logged log w w₂ xs ∧ ∀ x ∈ xs, x.1 = a.task := fun h =>
      ⟨[], (congrArg log h.memory).trans hlog₁, nofun⟩
    exact Ends.bind ((idle_onLedger Activator.unmeasured_dispose w₁).mono (fun _ _ h => h)
      fun _ _ h => hnone h) fun _ _ h => Ends.throw (hnone h)
  | ok out =>
    have hone : ∀ {w₂ : Workspace ω}, Logged log w w₂ [(a.task, out)] →
        ∃ xs, Logged log w w₂ xs ∧ ∀ x ∈ xs, x.1 = a.task := fun h =>
      ⟨_, h, List.forall_mem_singleton.mpr rfl⟩
    simp only
    split
    · refine Ends.bind (followLoopHead_ends.mono (fun _ _ h => h) ?_) ?_
      · rintro _ w₂ ⟨-, -, -, -, cause, -, hadvance⟩
        refine hone ?_
        have hsame := hlog.advance .running w₁.memory
        rw [hadvance] at hsame
        exact hsame.trans hlog₁
      · rintro _ w₂ ⟨hl₂, hrun₂, hfollowed⟩
        have hlog₂ : log w₂.memory = log w₁.memory := by
          unfold Followed at hfollowed
          split at hfollowed
          · obtain ⟨old, hadvance⟩ := hfollowed
            have hsame := hlog.advance .running w₁.memory
            rwa [hadvance] at hsame
          · rw [hfollowed]
        exact (deliver_yields hw (hl₂.trans hl₁) (hrun₂.trans hrun₁) (hlog₂.trans hlog₁)).mono
          (fun _ _ h => h) fun _ _ h => hone h
    · exact (deliver_yields hw hl₁ hrun₁ hlog₁).mono (fun _ _ h => h) fun _ _ h => hone h

/-! ## The whole push -/

/-- What was emitted in a push up to some point is what its instances report. -/
def Reported (p : Plan) (log : ω → List EmittedBy) (s : StageId) (w₀ w : Workspace ω) : Prop :=
  ∃ xs, Logged log w₀ w xs ∧ (∀ x ∈ xs, x.1 ∈ (p.stage s).tasks) ∧
    ∀ c n, (c, n) ∈ measures w.ledger w.run.instances ↔ ∃ x ∈ xs, p.Measures x c n

/-- One more task has emitted data. -/
theorem Reported.step {t : TaskId} (h : Reported p log s w₀ w) (ht : t ∈ (p.stage s).tasks)
    (hknown : ∀ i ∈ w.run.instances, i < w.ledger.cells.size) (hy : Yielded p log t w w') :
    Reported p log s w₀ w' := by
  obtain ⟨xs, hxs, htasks, hmeasures⟩ := h
  obtain ⟨out, is, hout, hinstances, hmade⟩ := hy.made
  refine ⟨xs ++ [(t, out)], ?_, ?_, fun c n => ?_⟩
  · unfold Logged at *
    rw [hout, hxs, List.append_assoc]
  · exact List.forall_mem_append.mpr ⟨htasks, List.forall_mem_singleton.mpr ht⟩
  · have hsplit : measures w'.ledger (w.run.instances ++ is) =
        measures w'.ledger w.run.instances ++ measures w'.ledger is := List.filterMap_append
    rw [hinstances, hsplit, List.mem_append, hy.ledger.measures hknown, hmeasures, hmade]
    simp [or_and_right, exists_or]

/-- **What is emitted in a push is what its instances report.** A push that fails has emitted data of
its tasks only. -/
theorem push_measures (hp : p.IsOrderly s) (hrun : w.run = {})
    (hb : ∀ t ∈ (p.stage s).tasks, b.LeavesInputs (p.graph.task t).operator.object)
    (hlog : ∀ t ∈ (p.stage s).tasks, b.LogsEmissions (p.graph.task t).operator.object log) :
    Ends (push p b s state) w (fun _ w' => Reported p log s w w') fun _ w' =>
      ∃ xs, Logged log w w' xs ∧ ∀ x ∈ xs, x.1 ∈ (p.stage s).tasks := by
  have hsame : ∀ {w' : Workspace ω}, SameResults w w' → Logged log w w' [] := fun h => by
    unfold Logged
    rw [h.memory, List.append_nil]
  refine Ends.bind (((seed_start (fedBy p s []) hp hrun).and (idle_seed w)).mono (fun _ _ h => h)
    fun _ _ h => ⟨[], hsame h.2, nofun⟩) ?_
  rintro _ w₁ ⟨ho, h₁⟩
  have hstart : Reported p log s w w₁ := by
    refine ⟨[], hsame h₁, nofun, fun c n => ?_⟩
    rw [h₁.instances, hrun]
    exact ⟨nofun, nofun⟩
  refine (drain_ends (I := fun _ w' => (∃ done, Once p s state w.ledger (fedBy p s done) done w') ∧
    Reported p log s w w') (E := fun _ w' => ∃ xs, Logged log w w' xs ∧
      ∀ x ∈ xs, x.1 ∈ (p.stage s).tasks) ?_ ⟨⟨[], ho⟩, hstart⟩).mono ?_ fun _ _ h => h
  · rintro _ w₂ a activation rest ⟨⟨done, ho⟩, h⟩ hready
    have ht := (ho.head_ready hready).2.1
    refine ((executeTask_once hp ho hready).and (executeTask_yields hp.wired (hb _ ht)
      (hlog _ ht))).mono ?_ ?_
    · rintro _ w₃ ⟨hdone, hy⟩
      refine ⟨⟨_, hdone⟩, h.step (w := w₂) ht (fun i hi => (ho.fresh i hi).2) ?_⟩
      exact ⟨hy.ledger, hy.made⟩
    · rintro _ w₃ ⟨-, ys, hys, htask⟩
      obtain ⟨xs, hxs, htasks, -⟩ := h
      refine ⟨xs ++ ys, ?_, List.forall_mem_append.mpr ⟨htasks, fun y hy => htask y hy ▸ ht⟩⟩
      unfold Logged at *
      rw [hys, hxs, List.append_assoc]
  · rintro _ w' ⟨-, ⟨-, h⟩, -⟩
    exact h

end Workspace

end Dataflow
