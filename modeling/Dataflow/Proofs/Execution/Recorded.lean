import Dataflow.Proofs.Execution.Measured

/-!
# What a stage execution records

The cardinalities that the instances of a stage execution report are recorded when its results are
published, outside of loops and if they are asked for, and each of them is told when it is recorded.
After that the stage execution cannot fail any more as long as operators leave references alone, so
that a stage execution records either everything or, when it fails, nothing.

* `Machine.Recorded`: what was recorded from one machine to another one.
* `recordCardinalities_recorded`, `publish_recorded`: what a publication records.
* `settles_of_push`: nothing fails after the push.
* **`executeStage_recorded`**: a stage execution.
-/

namespace Dataflow

open Workspace

/-- The measurement that an event tells of. -/
def ExecutionEvent.measured? : ExecutionEvent → Option (ChannelId × Nat)
  | .cardinalityMeasured c n => some (c, n)
  | _ => none

/-- From one machine to another one these measurements were recorded, and each of them was told. -/
structure Machine.Recorded {ω : Type} (m m' : Machine ω) (xs : List (ChannelId × Nat)) : Prop where
  cardinalities : m'.state.cardinalities = m.state.cardinalities.insertMany xs
  told : ∃ es, m'.events.toList = m.events.toList ++ es ∧ es.filterMap ExecutionEvent.measured? = xs

namespace Machine

variable {ω : Type} {m m₁ m' : Machine ω} {is : List InstanceId} {xs ys : List (ChannelId × Nat)}

/-- Nothing of what happened was a measurement. -/
theorem recorded_nil {es : List ExecutionEvent}
    (hc : m'.state.cardinalities = m.state.cardinalities)
    (hes : m'.events.toList = m.events.toList ++ es)
    (hnone : ∀ e ∈ es, e.measured? = none) : m.Recorded m' [] :=
  ⟨hc.trans Std.TreeMap.insertMany_nil.symm, es, hes, List.filterMap_eq_nil_iff.mpr hnone⟩

theorem Recorded.refl (m : Machine ω) : m.Recorded m [] :=
  recorded_nil rfl (List.append_nil _).symm nofun

theorem Recorded.trans (h : m.Recorded m₁ xs) (h' : m₁.Recorded m' ys) :
    m.Recorded m' (xs ++ ys) := by
  obtain ⟨es, hes, hxs⟩ := h.told
  obtain ⟨es', hes', hys⟩ := h'.told
  refine ⟨?_, es ++ es', ?_, ?_⟩
  · rw [h'.cardinalities, h.cardinalities, Std.TreeMap.insertMany_append]
  · rw [hes', hes, List.append_assoc]
  · rw [List.filterMap_append, hxs, hys]

/-- One measurement, which is told. -/
theorem recorded_one {c : ChannelId} {n : Nat} : m.Recorded
    { m with
      state := m.state.recordCardinality c n
      events := m.events.push (.cardinalityMeasured c n) } [(c, n)] :=
  ⟨Std.TreeMap.insertMany_list_singleton.symm, _, Array.toList_push, rfl⟩

/-- **Recording cardinalities** records what the instances report, in order. -/
theorem recordCardinalities_recorded : ∀ {is : List InstanceId} {m : Machine ω},
    Succeeds (recordCardinalities is) m fun _ m' => m.Recorded m' (measures m.ledger is)
  | [], m => Succeeds.pure (Recorded.refl m)
  | i :: is, m => by
    unfold recordCardinalities
    refine Succeeds.bind Succeeds.get ?_
    rintro _ _ ⟨rfl, rfl⟩
    simp only
    split
    · rename_i n hmark hn
      refine Succeeds.bind record_spec ?_
      rintro _ _ rfl
      refine Succeeds.bind emit_spec ?_
      rintro _ _ rfl
      refine recordCardinalities_recorded.mono fun _ m' h => ?_
      rw [measures_cons_some (Instance.measure?_eq_some.mpr ⟨rfl, hmark, hn⟩)]
      exact recorded_one.trans h
    · rename_i hnone
      rw [measures_cons_none (Instance.measure?_eq_none hnone)]
      exact recordCardinalities_recorded

end Machine

/-! ## The publication -/

namespace Store

/-- Neither what instances report nor what was recorded has changed. -/
structure SameMeasures (st st' : Store) : Prop where
  ledger : st.ledger.SameMeasures st'.ledger
  cardinalities : st'.state.cardinalities = st.state.cardinalities

theorem register_measures {st : Store} {i : InstanceId} : Ends (register i) st
    (fun _ st' => SameMeasures st st') fun _ _ => True := by
  refine register_of (R := fun l => st.ledger.SameMeasures l) ?_ (fun l hl _ => ⟨hl, rfl⟩)
    fun l q hl _ => ?_
  · refine (Ledger.obtain_ends.and (Ledger.unmeasured_obtain st.ledger)).mono ?_ fun _ _ _ => trivial
    rintro _ l ⟨⟨hr, hl, -⟩, hsame⟩
    exact ⟨hsame, hl.channel i (Ledger.lt_size_of_references hr)⟩
  · exact (Ledger.unmeasured_release l).mono (fun _ _ h => ⟨hl.trans h, rfl⟩) fun _ _ _ => trivial

theorem registerEach_measures : ∀ {is : List InstanceId} {st : Store}, Ends (registerEach is) st
    (fun _ st' => SameMeasures st st') fun _ _ => True
  | [], _ => Ends.pure ⟨Ledger.SameMeasures.refl _, rfl⟩
  | _ :: _, _ => Ends.bind register_measures fun _ _ h => registerEach_measures.mono
      (fun _ _ h' => ⟨h.ledger.trans h'.ledger, h'.cardinalities.trans h.cardinalities⟩)
      fun _ _ _ => trivial

end Store

/-- Whether the cardinalities that a stage measures are kept. -/
def Plan.keepsMeasures (p : Plan) (config : ExecutorConfig) (s : StageId) : Bool :=
  config.collectCardinalities && !(p.stage s).isInLoop && !(p.stage s).isLoopHeadStage

/-- What is kept of what the instances of a stage execution report. -/
def Plan.keptMeasures (p : Plan) (config : ExecutorConfig) (s : StageId) (l : Ledger)
    (is : List InstanceId) : List (ChannelId × Nat) :=
  if p.keepsMeasures config s then measures l is else []

section KeptMeasures

variable {p : Plan} {config : ExecutorConfig} {s : StageId} {l : Ledger} {is : List InstanceId}

theorem Plan.mem_keptMeasures {c : ChannelId} {n : Nat} : (c, n) ∈ p.keptMeasures config s l is ↔
    p.keepsMeasures config s = true ∧ (c, n) ∈ measures l is := by
  unfold keptMeasures
  split
  · rename_i hkeeps
    exact (and_iff_right hkeeps).symm
  · rename_i hnot
    exact ⟨nofun, fun h => absurd h.1 hnot⟩

theorem Plan.nodup_keptMeasures (h : (is.map fun i => (l.get i).channel).Nodup) :
    ((p.keptMeasures config s l is).map Prod.fst).Nodup := by
  unfold keptMeasures
  split
  · exact nodup_measures h
  · exact List.nodup_nil

end KeptMeasures

namespace Machine

variable {ω : Type} {m m' : Machine ω} {is : List InstanceId} {p : Plan} {config : ExecutorConfig}
  {s : StageId}

/-- **A publication records what its instances report**, if that is asked for. -/
theorem publish_recorded (hknown : ∀ i ∈ is, i < m.ledger.cells.size) :
    Ends (publish p config s is) m (fun _ m' =>
      m.Recorded m' (p.keptMeasures config s m.ledger is)) fun _ _ => True := by
  unfold publish Plan.keptMeasures Plan.keepsMeasures
  refine Ends.bind Succeeds.get.ends ?_
  rintro _ _ ⟨rfl, rfl⟩
  simp only
  split
  · exact Ends.bind (R := fun _ _ => False) (Ends.throw trivial) nofun
  · refine Ends.bind ((onStore_ends Store.registerEach_measures).mono (fun _ _ h => h)
      fun _ _ _ => trivial) ?_
    rintro _ _ ⟨st, h, rfl⟩
    have hregistered : m.Recorded { m with ledger := st.ledger, state := st.state } [] :=
      recorded_nil h.cardinalities (List.append_nil _).symm nofun
    split
    · refine (recordCardinalities_recorded.mono fun _ m' hm => ?_).ends
      have hrecorded := hregistered.trans hm
      rwa [List.nil_append, h.ledger.measures hknown] at hrecorded
    · exact Ends.pure hregistered

/-- Giving back references and telling of the end of a stage execution records nothing. -/
theorem giveBack_recorded {r : StageRun} {e : ExecutionEvent} (he : e.measured? = none)
    (h : onStore (Store.onLedger r.releaseAll) m = .ok () m') :
    m.Recorded { m' with events := m'.events.push e } [] := by
  obtain ⟨-, hstate, -⟩ := (giveBack_ends r m).ok h
  have htold : (m'.events.push e).toList = m.events.toList ++ [e] := by
    rw [Array.toList_push, onStore_silent.ok h]
  exact recorded_nil (congrArg ExecutionState.cardinalities hstate) htold
    (List.forall_mem_singleton.mpr he)

/-- Neither does giving up. -/
theorem abort_recorded {r : StageRun} {e : ExecutionError} : m.Recorded (abort s r e m) [] :=
  recorded_nil rfl (events_abort s r e (List.append_nil _).symm) (List.forall_mem_singleton.mpr rfl)

end Machine

/-! ## A stage execution -/

section Stage

variable {ω : Type} {p : Plan} {b : Behaviour ω} {config : ExecutorConfig} {s : StageId}
  {m m' : Machine ω} {log : ω → List EmittedBy} {extra : InstanceId → Nat}

/-- After a push with operators that leave references alone nothing can fail any more. -/
theorem settles_of_push (hp : p.IsOrderly s) (config : ExecutorConfig)
    (hb : ∀ t ∈ (p.stage s).tasks, b.OnlyNotes (p.graph.task t).operator.object)
    (hm : Accounted m.ledger m.state extra []) {w : Workspace ω}
    (hpush : Workspace.push p b s m.state (m.entering p s) = .ok () w) : ∃ m₁ m₂,
      Machine.publish p config s w.run.instances (w.leaving m.state) = .ok () m₁ ∧
      Machine.onStore (Store.onLedger w.run.releaseAll) m₁ = .ok () m₂ ∧
      Accounted m₂.ledger m₂.state extra [] := by
  have hknown : m.Known := fun c i hi => (hm.known hi).2
  have hbooks := (push_books hp hknown (fun t ht => (hb t ht).logsHandlings)
    (w := m.entering p s) (m.books rfl)).ok hpush
  have hlater : m.ledger.Later w.ledger := by
    obtain ⟨done, hw⟩ := (push_ends hp).ok hpush
    exact hw.later
  have hbalanced : w.ledger.Balanced (fun i => extra i + m.state.holds m.ledger i) w.run.held := by
    intro i
    -- operators have done nothing, so that what is due is what there was before the push
    have htally : ((w.ledger.get i).references : Int) =
        (m.ledger.get i).references + 0 + w.run.held.count i := hbooks.tallies i
    have hbefore : (m.ledger.get i).references = extra i + m.state.holds m.ledger i + 0 :=
      hm.balanced i
    change (w.ledger.get i).references = extra i + m.state.holds m.ledger i + w.run.held.count i
    omega
  obtain ⟨m₁, m₂, hpublish, hrelease, -, haccounted⟩ := Workspace.Sound.settles config hm
    ⟨hbooks.isOf.staged, hbooks.isOf.tasks, hlater, hbalanced⟩
  exact ⟨m₁, m₂, hpublish, hrelease, haccounted⟩

/-- The events of a push tell of no measurement. -/
theorem Plan.TellsTasks.unmeasured {R : TaskId → LoopState → LoopState → Prop} {executed : List ExecutedTask}
    {es : List ExecutionEvent} (h : p.TellsTasks R s executed es) : ∀ e ∈ es, e.measured? = none := by
  obtain ⟨-, parts, hparts, rfl⟩ := h
  refine List.forall_mem_flatten.mpr ?_
  induction hparts with
  | nil => exact nofun
  | cons htold _ ih =>
    refine List.forall_mem_cons.mpr ⟨?_, ih⟩
    cases htold with
    | stays => exact List.forall_mem_singleton.mpr rfl
    | moves => exact List.forall_mem_cons.mpr ⟨rfl, List.forall_mem_singleton.mpr rfl⟩

/-- A push records nothing. -/
theorem push_recorded (hp : p.IsOrderly s) : Ends (Workspace.push p b s m.state) (m.entering p s)
    (fun _ w => m.Recorded (w.leaving m.state) []) fun _ w => m.Recorded (w.leaving m.state) [] := by
  have hleaves : ∀ {w : Workspace ω} {es : List ExecutionEvent}, Adds (m.entering p s) w es →
      (∀ e ∈ es, e.measured? = none) → m.Recorded (w.leaving m.state) [] := fun hadds hnone =>
    Machine.recorded_nil rfl hadds.leaving (List.forall_mem_cons.mpr ⟨rfl, hnone⟩)
  refine (push_tells hp (R := fun _ _ _ => True) (fun _ _ _ _ _ _ _ => trivial) rfl).mono ?_ ?_
  · rintro _ w ⟨es, htasks, hadds⟩
    exact hleaves hadds htasks.unmeasured
  · rintro _ w ⟨executed, es, move, htasks, hmove, hadds⟩
    refine hleaves hadds (List.forall_mem_append.mpr ⟨htasks.unmeasured, ?_⟩)
    cases hmove with
    | stays => exact nofun
    | moves => exact List.forall_mem_singleton.mpr rfl

/-- What a stage execution records: a success keeps what the tasks of the stage have told, if that is
asked for, and a failure nothing. -/
structure Plan.RecordsStage (p : Plan) (config : ExecutorConfig) (log : ω → List EmittedBy)
    (extra : InstanceId → Nat) (s : StageId) (m : Machine ω)
    (result : Except ExecutionError StageReport) (m' : Machine ω) (emitted : List EmittedBy)
    (xs : List (ChannelId × Nat)) : Prop where
  logged : log m'.memory = log m.memory ++ emitted
  tasks : ∀ x ∈ emitted, x.1 ∈ (p.stage s).tasks
  recorded : m.Recorded m' xs
  nodup : (xs.map Prod.fst).Nodup
  success : ∀ report, result = .ok report → report.stage = s ∧
    Accounted m'.ledger m'.state extra [] ∧
    ∀ c n, (c, n) ∈ xs ↔ p.keepsMeasures config s = true ∧ ∃ x ∈ emitted, p.Measures x c n
  failure : ∀ e, result = .error e → xs = []

/-- **What a stage execution records**, whether it succeeds or fails. -/
theorem executeStage_recorded (hp : p.IsOrderly s)
    (hb : ∀ t ∈ (p.stage s).tasks, b.LeavesInputs (p.graph.task t).operator.object)
    (hlog : ∀ t ∈ (p.stage s).tasks, b.LogsEmissions (p.graph.task t).operator.object log)
    (hm : Accounted m.ledger m.state extra []) {result : Except ExecutionError StageReport}
    (hrun : p.executeStage b config s m = (result, m')) :
    ∃ emitted xs, p.RecordsStage config log extra s m result m' emitted xs := by
  have hmeasures : Ends (push p b s m.state) (m.entering p s) _ _ := push_measures hp rfl hb hlog
  have hrecorded := push_recorded (b := b) (m := m) hp
  have hsettles := fun w => settles_of_push (w := w) hp config (fun t ht => (hb t ht).onlyNotes) hm
  have hending := executeStage_ending p b config s m
  rw [hrun] at hending
  cases hending with
  | @pushFails e w hpush =>
    obtain ⟨emitted, hemitted, htasks⟩ := hmeasures.error hpush
    exact ⟨emitted, [], hemitted, htasks, (hrecorded.error hpush).trans Machine.abort_recorded,
      List.nodup_nil, nofun, fun _ _ => rfl⟩
  | @publishFails w _ _ hpush hpublish =>
    obtain ⟨m₁, m₂, hok, -⟩ := hsettles w hpush
    exact absurd (hok.symm.trans hpublish) nofun
  | @releaseFails w _ _ _ hpush hpublish hrelease =>
    obtain ⟨_, _, hok, hreleased, -⟩ := hsettles w hpush
    obtain rfl := (EStateM.Result.ok.inj (hpublish.symm.trans hok)).2
    exact absurd (hreleased.symm.trans hrelease) nofun
  | @completes w m₁ m₂ hpush hpublish hrelease =>
    obtain ⟨_, _, hok, hreleased, haccounted⟩ := hsettles w hpush
    obtain rfl := (EStateM.Result.ok.inj (hpublish.symm.trans hok)).2
    obtain rfl := (EStateM.Result.ok.inj (hrelease.symm.trans hreleased)).2
    obtain ⟨emitted, hemitted, htasks, hreports⟩ := hmeasures.ok hpush
    obtain ⟨done, hw, ho⟩ := publish_overrides hp hpush hpublish
    obtain ⟨-, -, hmemory⟩ := (Machine.giveBack_ends w.run _).ok hrelease
    have hpublished := (Machine.publish_recorded (m := w.leaving m.state)
      fun i hi => (hw.fresh i hi).2).ok hpublish
    have hall := ((hrecorded.ok hpush).trans hpublished).trans
      (Machine.giveBack_recorded (e := .stageCompleted s w.run.executed.length) rfl hrelease)
    rw [List.nil_append, List.append_nil] at hall
    refine ⟨emitted, _, ?_, htasks, hall, Plan.nodup_keptMeasures hw.channels, ?_, nofun⟩
    · change log m₂.memory = _
      rw [hmemory, ho.memory]
      exact hemitted
    · rintro _ ⟨rfl⟩
      exact ⟨rfl, haccounted, fun c n =>
        Plan.mem_keptMeasures.trans (and_congr_right fun _ => hreports c n)⟩

end Stage

end Dataflow
