import Dataflow.Proofs.Execution.Failures
import Dataflow.Proofs.Execution.Recorded
import Dataflow.Proofs.Execution.Rounds
import Dataflow.Plan.Instrumentation

/-!
# Collected cardinalities

A stage execution outside of loops records all cardinalities that were told in it if it succeeds, and
none if it fails. Such a stage is executed once, so that no two stage executions record anything for
the same channel, and what the execution of a plan has collected in the end can be read off the graph,
the marks on its channels, the stages that were executed and what the tasks emitted.

In loops nothing is recorded, which is why the statement can speak of the execution of a stage:
outside of a loop body there is one at most. The stage of a loop head counts as inside, although it
belongs to no body, since it is executed in each iteration.

* `Plan.ToRecord`, `Plan.Collects`: what there is to be recorded after some stage executions.
* `Plan.not_mem_of_keepsMeasures`: why nothing is recorded twice.
* `Plan.Collecting.succ`, `Plan.execute_collecting`: one more stage execution, and all of them.
* `Plan.emissions`: what the tasks emit.
* `Plan.instrument`: a plan with other marks.
* **`PreliminaryPlan.execute_collects`**
* `counting_collects`: a loop between a source and a sink.

The marks are an arbitrary function of the channels, since a plan can be instrumented at will once it
is made. The state begins without cardinalities, because those from before would be reported as well.
Operators that change the references on their inputs could dispose of an instance before its
cardinality is read, and so they have to leave them alone.
-/

namespace Dataflow

/-! ## Looking up what was recorded -/

namespace Machine

variable {ω : Type} {m m' : Machine ω} {xs : List (ChannelId × Nat)} {c : ChannelId} {n : Nat}

/-- What is there after recording measurements of different channels where none was before. -/
theorem Recorded.cardinality?_eq_some (h : m.Recorded m' xs) (hxs : (xs.map Prod.fst).Nodup)
    (hm : ∀ c, m.state.cardinality? c = none) :
    m'.state.cardinality? c = some n ↔ (c, n) ∈ xs := by
  unfold ExecutionState.cardinality? at hm ⊢
  rw [h.cardinalities]
  have hdistinct : xs.Pairwise fun a b => ¬ compare a.1 b.1 = .eq :=
    (List.pairwise_map.mp hxs).imp fun hne heq => hne (Nat.compare_eq_eq.mp heq)
  constructor
  · intro hn
    by_cases hc : (xs.map Prod.fst).contains c = true
    · obtain ⟨⟨d, k⟩, hx, rfl⟩ := List.mem_map.mp (List.contains_iff_mem.mp hc)
      rw [Std.TreeMap.getElem?_insertMany_list_of_mem (Nat.compare_eq_eq.mpr rfl) hdistinct hx] at hn
      exact Option.some.inj hn ▸ hx
    · rw [Std.TreeMap.getElem?_insertMany_list_of_contains_eq_false (Bool.eq_false_iff.mpr hc), hm]
        at hn
      exact absurd hn nofun
  · intro hx
    exact Std.TreeMap.getElem?_insertMany_list_of_mem (Nat.compare_eq_eq.mpr rfl) hdistinct hx

end Machine

/-! ## From one stage execution to the next -/

section Run

variable {ω : Type} {p : Plan} {b : Behaviour ω} {config : ExecutorConfig} {s : StageId}
  {m₀ m m' : Machine ω} {log : ω → List EmittedBy} {extra : InstanceId → Nat}
  {reports : List StageReport} {emitted : List EmittedBy} {xs ys : List (ChannelId × Nat)}
  {c : ChannelId} {n : Nat}

/-- The cardinality `n` is to be recorded for a channel: some task has told it, and its stage was
executed, in which cardinalities are kept. -/
def Plan.ToRecord (p : Plan) (config : ExecutorConfig) (reports : List StageReport)
    (emitted : List EmittedBy) (c : ChannelId) (n : Nat) : Prop :=
  ∃ x ∈ emitted, p.Measures x c n ∧ ∃ s, (p.graph.task x.1).stage = some s ∧
    p.keepsMeasures config s = true ∧ s ∈ reports.map StageReport.stage

/-- What was recorded up to some point, where the stage executions `reports` have succeeded. -/
structure Plan.Collects (p : Plan) (config : ExecutorConfig) (m₀ : Machine ω)
    (reports : List StageReport) (emitted : List EmittedBy) (m : Machine ω)
    (xs : List (ChannelId × Nat)) : Prop where
  recorded : m₀.Recorded m xs
  nodup : (xs.map Prod.fst).Nodup
  mem_iff : ∀ c n, (c, n) ∈ xs ↔ p.ToRecord config reports emitted c n

/-- What can be looked up are the measurements that were recorded. -/
theorem Plan.Collects.cardinality?_eq_some (h : p.Collects config m₀ reports emitted m xs)
    (hm : ∀ c, m₀.state.cardinality? c = none) :
    m.state.cardinality? c = some n ↔ (c, n) ∈ xs :=
  h.recorded.cardinality?_eq_some h.nodup hm

/-- Whatever was emitted before was emitted in one of the stage executions. -/
def Plan.Attributed (p : Plan) (reports : List StageReport) (emitted : List EmittedBy) : Prop :=
  ∀ x ∈ emitted, ∃ s ∈ reports.map StageReport.stage, (p.graph.task x.1).stage = some s

/-- Nothing is to be recorded of a stage that has emitted data but was not executed to the end. -/
theorem Plan.toRecord_failed (hnew : p.keepsMeasures config s = true → s ∉ reports.map StageReport.stage)
    {new : List EmittedBy} (hstage : ∀ x ∈ new, (p.graph.task x.1).stage = some s) :
    p.ToRecord config reports (emitted ++ new) c n ↔ p.ToRecord config reports emitted c n := by
  constructor
  · rintro ⟨x, hx, hmeasures, y, hy, hkeeps, hdone⟩
    refine ⟨x, (List.mem_append.mp hx).resolve_right fun hx => ?_, hmeasures, y, hy, hkeeps, hdone⟩
    obtain rfl := Option.some.inj ((hstage x hx).symm.trans hy)
    exact hnew hkeeps hdone
  · rintro ⟨x, hx, h⟩
    exact ⟨x, List.mem_append_left _ hx, h⟩

/-- What is to be recorded when one more stage has been executed. -/
theorem Plan.toRecord_succ (hattributed : p.Attributed reports emitted) {new : List EmittedBy}
    (hstage : ∀ x ∈ new, (p.graph.task x.1).stage = some s) {report : StageReport}
    (hreport : report.stage = s) : p.ToRecord config (reports ++ [report]) (emitted ++ new) c n ↔
      p.ToRecord config reports emitted c n ∨
        p.keepsMeasures config s = true ∧ ∃ x ∈ new, p.Measures x c n := by
  have hlast : s ∈ (reports ++ [report]).map StageReport.stage := by
    rw [List.map_append, List.map_singleton, hreport]
    exact List.mem_append_right _ (List.mem_singleton.mpr rfl)
  have hsub : ∀ y ∈ reports.map StageReport.stage,
      y ∈ (reports ++ [report]).map StageReport.stage := fun y hy => by
    rw [List.map_append]
    exact List.mem_append_left _ hy
  constructor
  · rintro ⟨x, hx, hmeasures, y, hy, hkeeps, -⟩
    rcases List.mem_append.mp hx with hx | hx
    · obtain ⟨z, hz, hxz⟩ := hattributed x hx
      obtain rfl := Option.some.inj (hxz.symm.trans hy)
      exact Or.inl ⟨x, hx, hmeasures, z, hy, hkeeps, hz⟩
    · obtain rfl := Option.some.inj ((hstage x hx).symm.trans hy)
      exact Or.inr ⟨hkeeps, x, hx, hmeasures⟩
  · rintro (⟨x, hx, hmeasures, y, hy, hkeeps, hdone⟩ | ⟨hkeeps, x, hx, hmeasures⟩)
    · exact ⟨x, List.mem_append_left _ hx, hmeasures, y, hy, hkeeps, hsub y hdone⟩
    · exact ⟨x, List.mem_append_right _ hx, hmeasures, s, hstage x hx, hkeeps, hlast⟩

/-- A stage execution that succeeds adds what its tasks have told. -/
theorem Plan.Collects.succ (h : p.Collects config m₀ reports emitted m xs)
    (hattributed : p.Attributed reports emitted) (hp : p.IsOrderly s)
    (hnew : p.keepsMeasures config s = true → s ∉ reports.map StageReport.stage) {report : StageReport}
    {new : List EmittedBy} (hs : p.RecordsStage config log extra s m (.ok report) m' new ys) :
    p.Collects config m₀ (reports ++ [report]) (emitted ++ new) m' (xs ++ ys) := by
  obtain ⟨hreport, -, hys⟩ := hs.success report rfl
  have hstage : ∀ x ∈ new, (p.graph.task x.1).stage = some s := fun x hx =>
    (hp.placed x.1).mpr (hs.tasks x hx)
  refine ⟨h.recorded.trans hs.recorded, ?_, fun c n => ?_⟩
  · rw [List.map_append]
    refine List.nodup_append.mpr ⟨h.nodup, hs.nodup, ?_⟩
    rintro _ hc _ hd rfl
    -- the producer of such a channel would be in this stage, and in one that was executed before
    obtain ⟨⟨c, n⟩, hx, rfl⟩ := List.mem_map.mp hc
    obtain ⟨⟨d, k⟩, hy, rfl⟩ := List.mem_map.mp hd
    obtain ⟨x, -, ⟨-, hprod, -⟩, z, hz, -, hdone⟩ := (h.mem_iff _ _).mp hx
    obtain ⟨hkeeps, y, hy, -, hprod', -⟩ := (hys _ _).mp hy
    have hsame : x.1 = y.1 := hprod.symm.trans hprod'
    obtain rfl := Option.some.inj ((hstage y hy).symm.trans (hsame ▸ hz))
    exact hnew hkeeps hdone
  · rw [List.mem_append, h.mem_iff, hys, Plan.toRecord_succ hattributed hstage hreport]

/-- A stage execution that fails adds nothing. -/
theorem Plan.Collects.failed (h : p.Collects config m₀ reports emitted m xs) (hp : p.IsOrderly s)
    (hnew : p.keepsMeasures config s = true → s ∉ reports.map StageReport.stage) {e : ExecutionError}
    {new : List EmittedBy} (hs : p.RecordsStage config log extra s m (.error e) m' new ys) :
    p.Collects config m₀ reports (emitted ++ new) m' xs := by
  have hrecorded := h.recorded.trans hs.recorded
  rw [hs.failure e rfl, List.append_nil] at hrecorded
  refine ⟨hrecorded, h.nodup, fun c n => ?_⟩
  rw [h.mem_iff, Plan.toRecord_failed hnew fun x hx => (hp.placed x.1).mpr (hs.tasks x hx)]

/-- An event besides. -/
theorem Plan.Collects.told (h : p.Collects config m₀ reports emitted m xs) {e : ExecutionEvent}
    (he : e.measured? = none) :
    p.Collects config m₀ reports emitted { m with events := m.events.push e } xs := by
  have hpush : m.Recorded { m with events := m.events.push e } [] :=
    Machine.recorded_nil rfl Array.toList_push (List.forall_mem_singleton.mpr he)
  have hrecorded := h.recorded.trans hpush
  rw [List.append_nil] at hrecorded
  exact ⟨hrecorded, h.nodup, h.mem_iff⟩

/-! ## The whole execution -/

namespace Plan

/-- A stage in which cardinalities are kept is executed once. -/
theorem not_mem_of_keepsMeasures (horderly : ∀ s < p.stages.length, p.IsOrderly s) {here : Midway ω}
    {k : Nat} (hhere : p.midway b config m k = some here)
    (hnext : p.nextExecutable b here.agenda here.machine = some s)
    (hs : p.keepsMeasures config s = true) : s ∉ here.reports.map StageReport.stage := by
  unfold keepsMeasures Stage.isInLoop Stage.isLoopHeadStage at hs
  simp only [Bool.and_eq_true, Bool.not_eq_true', Option.isSome_eq_false_iff,
    Option.isNone_iff_eq_none] at hs
  refine List.count_eq_zero.mp ?_
  rw [midway_executions horderly hs.2 hs.1.2 (nextExecutable_lt hnext) hhere,
    if_pos (isPending_of_nextExecutable hnext)]

variable (horderly : ∀ s < p.stages.length, p.IsOrderly s)
  (hb : ∀ s < p.stages.length, ∀ t ∈ (p.stage s).tasks,
    b.LeavesInputs (p.graph.task t).operator.object)
  (hlog : ∀ s < p.stages.length, ∀ t ∈ (p.stage s).tasks,
    b.LogsEmissions (p.graph.task t).operator.object log)

/-- What holds between two stage executions. -/
structure Collecting (p : Plan) (config : ExecutorConfig) (log : ω → List EmittedBy)
    (extra : InstanceId → Nat) (m₀ : Machine ω) (here : Midway ω) (xs : List (ChannelId × Nat)) :
    Prop where
  collects : p.Collects config m₀ here.reports (log here.machine.memory) here.machine xs
  attributed : p.Attributed here.reports (log here.machine.memory)
  accounted : Accounted here.machine.ledger here.machine.state extra []

/-- The beginning of an execution. -/
theorem collecting_zero (hempty : log m.memory = []) (hm : Accounted m.ledger m.state extra []) :
    ∃ here, p.midway b config m 0 = some here ∧ p.Collecting config log extra m here [] := by
  refine ⟨_, rfl, ?_, ?_, hm⟩
  · have hstart : p.Collects config m [] (log m.memory) m [] := by
      refine ⟨Machine.Recorded.refl m, List.nodup_nil, fun c n => ⟨nofun, ?_⟩⟩
      rintro ⟨x, hx, -⟩
      rw [hempty] at hx
      exact absurd hx List.not_mem_nil
    exact hstart.told rfl
  · intro x hx
    change x ∈ log m.memory at hx
    rw [hempty] at hx
    exact absurd hx List.not_mem_nil

include horderly hb hlog in
/-- One more stage execution. -/
theorem Collecting.succ {k : Nat} {here there : Midway ω}
    (h : p.Collecting config log extra m here xs) (hhere : p.midway b config m k = some here)
    (hthere : p.midway b config m (k + 1) = some there) :
    ∃ ys, p.Collecting config log extra m there (xs ++ ys) := by
  obtain ⟨here', s, report, hhere', hnext, hrun, -, hreports⟩ := midway_succ hthere
  obtain rfl := Option.some.inj (hhere.symm.trans hhere')
  have hs := nextExecutable_lt hnext
  obtain ⟨new, ys, hrecords⟩ := executeStage_recorded (horderly s hs) (hb s hs) (hlog s hs)
    h.accounted hrun
  obtain ⟨hstage, haccounted, -⟩ := hrecords.success report rfl
  have hcollects := h.collects.succ h.attributed (horderly s hs)
    (not_mem_of_keepsMeasures horderly hhere hnext) hrecords
  rw [← hrecords.logged, ← hreports] at hcollects
  refine ⟨ys, hcollects, fun x hx => ?_, haccounted⟩
  rw [hreports, List.map_append, List.map_singleton, hstage]
  rw [hrecords.logged] at hx
  rcases List.mem_append.mp hx with hx | hx
  · obtain ⟨y, hy, hxy⟩ := h.attributed x hx
    exact ⟨y, List.mem_append_left _ hy, hxy⟩
  · exact ⟨s, List.mem_append_right _ (List.mem_singleton.mpr rfl),
      ((horderly s hs).placed x.1).mpr (hrecords.tasks x hx)⟩

include horderly hb hlog in
/-- What was recorded is recorded at every later point. -/
theorem Collecting.later {j : Nat} {here : Midway ω} (h : p.Collecting config log extra m here xs)
    (hhere : p.midway b config m j = some here) : ∀ {k : Nat} {there : Midway ω}, j ≤ k →
    p.midway b config m k = some there → ∃ ys, p.Collecting config log extra m there (xs ++ ys)
  | 0, there, hk, hthere => by
    obtain rfl := Nat.le_zero.mp hk
    obtain rfl := Option.some.inj (hhere.symm.trans hthere)
    exact ⟨[], (List.append_nil xs).symm ▸ h⟩
  | k + 1, there, hk, hthere => by
    rcases Nat.le_succ_iff.mp hk with hk | rfl
    · obtain ⟨between, _, _, hbetween, -⟩ := midway_succ hthere
      obtain ⟨ys, hys⟩ := h.later hhere hk hbetween
      obtain ⟨zs, hzs⟩ := hys.succ horderly hb hlog hbetween hthere
      exact ⟨ys ++ zs, List.append_assoc xs ys zs ▸ hzs⟩
    · obtain rfl := Option.some.inj (hhere.symm.trans hthere)
      exact ⟨[], (List.append_nil xs).symm ▸ h⟩

include horderly hb hlog in
/-- What was recorded up to some point is among what was recorded up to a later one. -/
theorem Collecting.subset {j k : Nat} {here there : Midway ω}
    (h : p.Collecting config log extra m here xs) (hhere : p.midway b config m j = some here)
    (h' : p.Collecting config log extra m there ys) (hthere : p.midway b config m k = some there)
    (hjk : j ≤ k) : ∀ {x}, x ∈ xs → x ∈ ys := fun {x} hx => by
  obtain ⟨zs, hzs⟩ := h.later horderly hb hlog hhere hjk hthere
  exact (h'.collects.mem_iff x.1 x.2).mpr
    ((hzs.collects.mem_iff x.1 x.2).mp (List.mem_append_left zs hx))

include horderly hb hlog in
theorem exists_collecting (hempty : log m.memory = []) (hm : Accounted m.ledger m.state extra [])
    {k : Nat} {here : Midway ω} (hhere : p.midway b config m k = some here) :
    ∃ xs, p.Collecting config log extra m here xs := by
  obtain ⟨start, hstart, hnothing⟩ : ∃ start, p.midway b config m 0 = some start ∧
      p.Collecting config log extra m start [] := collecting_zero hempty hm
  exact hnothing.later horderly hb hlog hstart (Nat.zero_le _) hhere

include horderly hb hlog in
/-- **What is recorded in a whole execution**, however it ends. -/
theorem execute_collecting (hempty : log m.memory = []) (hm : Accounted m.ledger m.state extra []) :
    ∃ k here xs, p.EndsAt b config m k here ∧ p.Collecting config log extra m here xs ∧
      p.Collects config m here.reports (log (p.execute b config m).2.memory)
        (p.execute b config m).2 xs := by
  have hmidway : ∀ {k : Nat} {here : Midway ω}, p.midway b config m k = some here →
      ∃ xs, p.Collecting config log extra m here xs :=
    exists_collecting horderly hb hlog hempty hm
  obtain ⟨k, hk, hending⟩ := p.execute_ending b config m
  generalize p.execute b config m = out at hending
  cases hending with
  | @rests _ here ending hhere hnext hresult =>
    obtain ⟨xs, h⟩ := hmidway hhere
    exact ⟨k, here, xs, ⟨hhere, hk, fun _ => midway_succ_of_none hhere hnext⟩, h,
      h.collects.told rfl⟩
  | @fails k here s e m₁ hhere hnext hstage =>
    obtain ⟨xs, h⟩ := hmidway hhere
    have hs := nextExecutable_lt hnext
    obtain ⟨new, ys, hrecords⟩ := executeStage_recorded (horderly s hs) (hb s hs) (hlog s hs)
      h.accounted hstage
    have hfailed := h.collects.failed (horderly s hs) (not_mem_of_keepsMeasures horderly hhere hnext)
      hrecords
    rw [← hrecords.logged] at hfailed
    exact ⟨k, here, xs, ⟨hhere, Nat.le_of_succ_le hk, fun _ =>
      midway_succ_of_error hhere hnext hstage⟩, h, hfailed.told rfl⟩
  | @exceeds here s hhere hnext =>
    obtain ⟨xs, h⟩ := hmidway hhere
    exact ⟨_, here, xs, ⟨hhere, Nat.le_refl _, fun hlt => absurd hlt (Nat.lt_irrefl _)⟩, h,
      h.collects.told rfl⟩

end Plan

end Run

/-! ## A record beside the memory -/

section Mirror

variable {ω ω' : Type} {b' : Behaviour ω'} {b : Behaviour ω} {f : ω' → ω} {p : Plan}
  {config : ExecutorConfig}

/-- What is seen of a point of an execution if only a part of the operators' memory is. -/
def Plan.Midway.map (f : ω' → ω) (here : Plan.Midway ω') : Plan.Midway ω :=
  ⟨here.agenda, here.reports, here.machine.map f⟩

/-- An execution comes through the same points, whatever operators keep besides. -/
theorem Behaviour.Mirrors.midway (hb : b'.Mirrors b f) (m : Machine ω') : ∀ n,
    p.midway b config (m.map f) n = (p.midway b' config m n).map (Plan.Midway.map f)
  | 0 => rfl
  | n + 1 => by
    unfold Plan.midway
    rw [hb.midway m n]
    cases p.midway b' config m n with
    | none => rfl
    | some here =>
      simp only [Option.map_some, Option.bind_some, Plan.Midway.map]
      rw [hb.nextExecutable_map]
      cases p.nextExecutable b' here.agenda here.machine with
      | none => rfl
      | some s =>
        simp only [Option.bind_some]
        rw [hb.executeStage]
        rcases p.executeStage b' config s here.machine with ⟨_ | report, m'⟩
        · rfl
        · simp only [Option.map_some, Plan.Midway.map, Machine.memory_map, hb.rearm_map]

/-- Where an execution ends does not depend on it either. -/
theorem Behaviour.Mirrors.endsAt (hb : b'.Mirrors b f) {m : Machine ω'} {n : Nat}
    {here : Plan.Midway ω'} (h : p.EndsAt b' config m n here) :
    p.EndsAt b config (m.map f) n (here.map f) := by
  refine ⟨?_, h.allowed, fun hlt => ?_⟩
  · rw [hb.midway, h.comes]
    rfl
  · rw [hb.midway, h.last hlt]
    rfl

end Mirror

section Reporting

variable {ω : Type} {p : Plan} {b : Behaviour ω} {config : ExecutorConfig} {m : Machine ω}

/-- A machine with a record in which there is nothing yet. -/
def Machine.reporting (m : Machine ω) : Machine (ω × List EmittedBy) :=
  ⟨m.ledger, m.state, (m.memory, []), m.events⟩

/-- What the tasks emit in an execution of a plan, in order. The operators keep a record of it, which
changes nothing of what is executed (`Behaviour.mirrors_reporting`). -/
def Plan.emissions (p : Plan) (b : Behaviour ω) (config : ExecutorConfig) (m : Machine ω) :
    List EmittedBy :=
  (p.execute b.reporting config m.reporting).2.memory.2

/-- An execution comes through the same points with the record. -/
theorem Plan.exists_midway_reporting {n : Nat} {here : Plan.Midway ω}
    (h : p.midway b config m n = some here) : ∃ there,
      p.midway b.reporting config m.reporting n = some there ∧ there.map Prod.fst = here :=
  Option.map_eq_some_iff.mp ((b.mirrors_reporting.midway m.reporting n).symm.trans h)

theorem Plan.execute_reporting : (p.execute b config m).2 =
    (p.execute b.reporting config m.reporting).2.map Prod.fst :=
  congrArg Prod.snd (b.mirrors_reporting.execute config m.reporting)

/-- What a plan execution, which ends after `n` stage executions, collects: the cardinality `k` for
channel `c` if `R c k`. -/
structure Plan.Gathers (p : Plan) (b : Behaviour ω) (config : ExecutorConfig) (m : Machine ω)
    (n : Nat) (here : Plan.Midway ω) (R : ChannelId → Nat → Prop) : Prop where
  ends : p.EndsAt b config m n here
  cardinality : ∀ c k, (p.execute b config m).2.state.cardinality? c = some k ↔ R c k
  /-- What is told is what was recorded, one after the other, and no channel comes twice. -/
  recorded : ∃ xs, m.Recorded (p.execute b config m).2 xs ∧ (xs.map Prod.fst).Nodup
  /-- What is recorded after some stage executions stays as it is. -/
  kept : ∀ {i j before after}, i ≤ j → j ≤ n → p.midway b config m i = some before →
    p.midway b config m j = some after → ∀ c k,
      before.machine.state.cardinality? c = some k →
        after.machine.state.cardinality? c = some k ∧
          (p.execute b config m).2.state.cardinality? c = some k

/-- What an execution collects that starts without any cardinalities. -/
theorem Plan.execute_gathers (horderly : ∀ s < p.stages.length, p.IsOrderly s)
    (hb : ∀ s < p.stages.length, ∀ t ∈ (p.stage s).tasks,
      b.LeavesInputs (p.graph.task t).operator.object)
    (hs : m.state.isEmpty = true) (hc : ∀ c, m.state.cardinality? c = none) : ∃ n here,
      p.Gathers b config m n here (p.ToRecord config here.reports (p.emissions b config m)) := by
  have hleaves := fun s hs t ht => (hb s hs t ht).reporting
  have hlog := fun (s : StageId) (_ : s < p.stages.length) t (_ : t ∈ (p.stage s).tasks) =>
    b.logsEmissions_reporting (p.graph.task t).operator.object
  obtain ⟨extra, hextra⟩ := (Machine.isLive_of_isEmpty hs).accounted
  have haccounted : Accounted m.reporting.ledger m.reporting.state extra [] := hextra
  have hnone : ∀ c, m.reporting.state.cardinality? c = none := hc
  obtain ⟨n, there, xs, hends, hthere, hxs⟩ : ∃ n there xs,
      p.EndsAt b.reporting config m.reporting n there ∧
      p.Collecting config Prod.snd extra m.reporting there xs ∧
      p.Collects config m.reporting there.reports (p.emissions b config m)
        (p.execute b.reporting config m.reporting).2 xs :=
    Plan.execute_collecting horderly hleaves hlog rfl haccounted
  refine ⟨n, there.map Prod.fst, b.mirrors_reporting.endsAt hends, fun c k => ?_, ⟨xs, ?_, hxs.nodup⟩,
    ?_⟩
  · rw [execute_reporting]
    exact (hxs.cardinality?_eq_some hnone).trans (hxs.mem_iff c k)
  · rw [execute_reporting]
    exact ⟨hxs.recorded.cardinalities, hxs.recorded.told⟩
  · intro i j before after hij hjn hbefore hafter c k hk
    obtain ⟨before, hbefore', rfl⟩ := exists_midway_reporting hbefore
    obtain ⟨after, hafter', rfl⟩ := exists_midway_reporting hafter
    obtain ⟨ys, hys⟩ := Plan.exists_collecting horderly hleaves hlog rfl haccounted hbefore'
    obtain ⟨zs, hzs⟩ := Plan.exists_collecting horderly hleaves hlog rfl haccounted hafter'
    have hmem : (c, k) ∈ zs := hys.subset horderly hleaves hlog hbefore' hzs hafter' hij
      ((hys.collects.cardinality?_eq_some hnone).mp hk)
    refine ⟨(hzs.collects.cardinality?_eq_some hnone).mpr hmem, ?_⟩
    rw [execute_reporting]
    exact (hxs.cardinality?_eq_some hnone).mpr
      (hzs.subset horderly hleaves hlog hafter' hthere hends.comes hjn hmem)

/-- The same may be said in other words. -/
theorem Plan.Gathers.congr {n : Nat} {here : Plan.Midway ω} {R R' : ChannelId → Nat → Prop}
    (h : p.Gathers b config m n here R) (hR : ∀ c k, R c k ↔ R' c k) :
    p.Gathers b config m n here R' :=
  ⟨h.ends, fun c k => (h.cardinality c k).trans (hR c k), h.recorded, h.kept⟩

end Reporting

/-! ## Marks -/

/-- The plan in which these channels report and no others. -/
def Plan.instrument (p : Plan) (marks : ChannelId → Bool) : Plan :=
  let channels := p.graph.channels.mapIdx fun c channel => { channel with instrumented := marks c }
  { p with graph := { p.graph with channels } }

section Marks

variable {p : Plan} {marks : ChannelId → Bool} {s : StageId} {c : ChannelId}

/-- An instrumentation marks the channels that it selects. -/
theorem Instrumentation.apply_eq (i : Instrumentation) (p : Plan) :
    i.apply p = p.instrument fun c => i.selects (p.graph.channel c) := by
  have hchannels : (p.graph.channels.map fun c => { c with instrumented := i.selects c }) =
      p.graph.channels.mapIdx fun c channel =>
        { channel with instrumented := i.selects (p.graph.channel c) } := by
    refine List.ext_getElem? fun c => ?_
    rw [List.getElem?_map, List.getElem?_mapIdx]
    unfold TaskGraph.channel
    rw [List.getD_eq_getElem?_getD]
    cases p.graph.channels[c]? <;> rfl
  unfold apply Plan.instrument
  simp only [hchannels]

/-- Nothing but the marks of the channels is another. -/
theorem Plan.channel_instrument (p : Plan) (marks : ChannelId → Bool) (c : ChannelId) :
    (p.instrument marks).graph.channel c = { p.graph.channel c with
      instrumented := decide (c < p.graph.channels.length) && marks c } := by
  have hmapped : (p.instrument marks).graph.channel c = (p.graph.channels.mapIdx fun c channel =>
      { channel with instrumented := marks c }).getD c default := rfl
  rw [hmapped, List.getD_eq_getElem?_getD, List.getElem?_mapIdx]
  by_cases hc : c < p.graph.channels.length
  · unfold TaskGraph.channel
    rw [List.getD_eq_getElem?_getD, List.getElem?_eq_getElem hc, decide_eq_true hc]
    rfl
  · rw [TaskGraph.channel_of_le (Nat.le_of_not_lt hc), List.getElem?_eq_none (Nat.le_of_not_lt hc),
      decide_eq_false hc]
    rfl

theorem Plan.sameWiring_instrument (p : Plan) (marks : ChannelId → Bool) :
    p.graph.SameWiring (p.instrument marks).graph := by
  refine ⟨fun _ _ => rfl, fun _ _ => rfl, List.length_mapIdx, fun c => ?_, fun c => ?_,
    fun c => ?_⟩ <;>
    rw [p.channel_instrument marks]

/-- Marks do not matter for which stage feeds which. -/
theorem Plan.IsOrderly.instrument (h : p.IsOrderly s) (marks : ChannelId → Bool) :
    (p.instrument marks).IsOrderly s := by
  have hfed : ∀ t i, (p.instrument marks).isFedExternally t i = p.isFedExternally t i := fun t i => by
    unfold isFedExternally
    simp only [p.channel_instrument marks]
    rfl
  exact ⟨h.wired.congr (p.sameWiring_instrument marks), h.placed, h.start, h.nodup_start,
    fun t ht i c hc => (hfed t i).trans (h.external t ht i c hc), h.plain⟩

end Marks

/-! ## What is collected -/

namespace PreliminaryPlan

/-- A stage is neither that of a loop head nor in the body of a loop. -/
structure IsApart (p : PreliminaryPlan) (plan : Plan) (s : StageId) : Prop where
  head : (plan.stage s).loopHead = none
  body : ∀ head, ¬ p.InBody plan head s

/-- A cardinality is collected for a channel, with some marks on the channels of a plan and where
these stage executions have succeeded. -/
structure Collected {ω : Type} (p : PreliminaryPlan) (plan : Plan) (marks : ChannelId → Bool)
    (b : Behaviour ω) (config : ExecutorConfig) (m : Machine ω) (reports : List StageReport)
    (c : ChannelId) (n : Nat) : Prop where
  asked : config.collectCardinalities = true
  known : c < p.graph.channels.length
  marked : marks c = true
  /-- The stage of the producer was executed to its end, and only once. -/
  stage : ∃ s, (plan.graph.task (p.graph.channel c).producer).stage = some s ∧ p.IsApart plan s ∧
    (reports.map StageReport.stage).count s = 1
  /-- The producer has told the cardinality with the data that it emitted on the output. -/
  told : ∃ out e, ((p.graph.channel c).producer, out) ∈ (plan.instrument marks).emissions b config m ∧
    out[(p.graph.channel c).output]? = some (some e) ∧ e.cardinality = some n

section Collected

variable {ω : Type} {p : PreliminaryPlan} {plan : Plan} {marks : ChannelId → Bool} {b : Behaviour ω}
  {config : ExecutorConfig} {m : Machine ω} {s : StageId} {c : ChannelId} {n : Nat}

/-- The stage of a task is one of the plan. -/
theorem lt_of_placed (hg : p.graph.Built) (h : p.assign = .ok plan) {t : TaskId}
    (ht : (plan.graph.task t).stage = some s) : s < plan.stages.length := by
  obtain ⟨hs, -⟩ := assign_eq_ok hg h
  obtain ⟨r, -, hfin⟩ := finished_of_assign hg h
  rw [hfin.task] at ht
  split at ht
  · rename_i hmem
    obtain rfl := Option.some.inj ht
    rw [hfin.length_stages]
    exact hfin.resolved.place_lt_count (isScope_plannedTasks hg.wired hs) hmem
  · rw [hg.unplaced] at ht
    exact absurd ht nofun

/-- Cardinalities are kept outside of loops, if they are asked for. -/
theorem keepsMeasures_iff (hg : p.graph.Built) (h : p.assign = .ok plan) (hs : s < plan.stages.length) :
    plan.keepsMeasures config s = true ↔ config.collectCardinalities = true ∧ p.IsApart plan s := by
  obtain ⟨hsinks, -⟩ := assign_eq_ok hg h
  obtain ⟨r, -, hfin⟩ := finished_of_assign hg h
  have hbody := hfin.loopHeadStage_eq_none_iff hg hsinks (hfin.length_stages ▸ hs)
  unfold Plan.keepsMeasures Stage.isInLoop Stage.isLoopHeadStage
  simp only [Bool.and_eq_true, Bool.not_eq_true', Option.isSome_eq_false_iff,
    Option.isNone_iff_eq_none, hbody]
  exact ⟨fun ⟨⟨hasked, hout⟩, hhead⟩ => ⟨hasked, hhead, hout⟩,
    fun ⟨hasked, hhead, hout⟩ => ⟨⟨hasked, hout⟩, hhead⟩⟩

/-- What is told for a channel of a plan with marks. -/
theorem measures_instrument (hg : p.graph.Built) (h : p.assign = .ok plan) {x : EmittedBy} :
    (plan.instrument marks).Measures x c n ↔ c < p.graph.channels.length ∧ marks c = true ∧
      (p.graph.channel c).producer = x.1 ∧
      ∃ e, x.2[(p.graph.channel c).output]? = some (some e) ∧ e.cardinality = some n := by
  obtain ⟨r, -, hfin⟩ := finished_of_assign hg h
  have hsame := plan.sameWiring_instrument marks
  unfold Plan.Measures
  rw [hsame.length, hsame.producer, hsame.source, hfin.sameWiring.length, hfin.sameWiring.producer,
    hfin.sameWiring.source, plan.channel_instrument marks, hfin.sameWiring.length]
  simp only [Bool.and_eq_true, decide_eq_true_eq]
  exact ⟨fun ⟨hc, hprod, ⟨_, hmark⟩, htold⟩ => ⟨hc, hmark, hprod, htold⟩,
    fun ⟨hc, hmark, hprod, htold⟩ => ⟨hc, hprod, ⟨hc, hmark⟩, htold⟩⟩

/-- **What is to be recorded at the end of an execution**, read off the graph and the marks. -/
theorem toRecord_iff (hg : p.graph.Built) (h : p.assign = .ok plan) {k : Nat} {here : Plan.Midway ω}
    (hhere : (plan.instrument marks).midway b config m k = some here) :
    (plan.instrument marks).ToRecord config here.reports
        ((plan.instrument marks).emissions b config m) c n ↔
      p.Collected plan marks b config m here.reports c n := by
  have horderly : ∀ y < plan.stages.length, (plan.instrument marks).IsOrderly y := fun y hy =>
    (isOrderly_of_assign hg h hy).1.instrument marks
  obtain ⟨hsinks, -⟩ := assign_eq_ok hg h
  obtain ⟨r, -, hfin⟩ := finished_of_assign hg h
  constructor
  · rintro ⟨x, hx, hmeasures, s, hs, hkeeps, hdone⟩
    obtain ⟨hc, hmark, hprod, e, he, hn⟩ := (measures_instrument hg h).mp hmeasures
    have hlt := lt_of_placed hg h hs
    obtain ⟨hasked, hapart⟩ := (keepsMeasures_iff hg h hlt).mp hkeeps
    refine ⟨hasked, hc, hmark, ⟨s, hprod ▸ hs, hapart, ?_⟩, x.2, e, ?_, he, hn⟩
    · have hhead : ((plan.instrument marks).stage s).loopHead = none := hapart.head
      have hout : ((plan.instrument marks).stage s).loopHeadStage = none :=
        (hfin.loopHeadStage_eq_none_iff hg hsinks (hfin.length_stages ▸ hlt)).mpr hapart.body
      have hcount := Plan.midway_executions horderly hhead hout hlt hhere
      have hpos := List.count_pos_iff.mpr hdone
      split at hcount
      · exact absurd hcount (Nat.ne_of_gt hpos)
      · exact hcount
    · rw [hprod]
      exact hx
  · rintro ⟨hasked, hc, hmark, ⟨s, hs, hapart, hcount⟩, out, e, hout, he, hn⟩
    refine ⟨_, hout, (measures_instrument hg h).mpr ⟨hc, hmark, rfl, e, he, hn⟩, s, hs,
      (keepsMeasures_iff hg h (lt_of_placed hg h hs)).mpr ⟨hasked, hapart⟩, ?_⟩
    exact List.count_pos_iff.mp (hcount ▸ Nat.one_pos)

end Collected

/-- **The cardinalities that an execution collects**, whether it succeeds or fails. From a state
without any, with operators that leave what is on their inputs alone, and whichever channels are
marked: those that the producers told on marked channels, in the stages outside of loops that were
executed to the end, if they are asked for. Each of them is recorded once. -/
theorem execute_collects {ω : Type} {p : PreliminaryPlan} {plan : Plan} {b : Behaviour ω}
    {m : Machine ω} (hg : p.graph.Built) (h : p.assign = .ok plan)
    (hb : ∀ t, p.Needs t → b.LeavesInputs (p.graph.task t).operator.object)
    (hs : m.state.isEmpty = true) (hc : ∀ c, m.state.cardinality? c = none)
    (marks : ChannelId → Bool) (config : ExecutorConfig) : ∃ n here,
      (plan.instrument marks).Gathers b config m n here
        (p.Collected plan marks b config m here.reports) := by
  obtain ⟨r, -, hfin⟩ := finished_of_assign hg h
  have horderly : ∀ s < plan.stages.length, (plan.instrument marks).IsOrderly s := fun s hs =>
    (isOrderly_of_assign hg h hs).1.instrument marks
  have hleaves : ∀ s < plan.stages.length, ∀ t ∈ (plan.stage s).tasks,
      b.LeavesInputs (plan.graph.task t).operator.object := fun s _ t ht => by
    rw [hfin.operator]
    exact hb t (needs_of_mem_stage hg h ht)
  obtain ⟨n, here, hgathers⟩ : ∃ n here, (plan.instrument marks).Gathers b config m n here
      ((plan.instrument marks).ToRecord config here.reports
        ((plan.instrument marks).emissions b config m)) :=
    Plan.execute_gathers horderly hleaves hs hc
  exact ⟨n, here, hgathers.congr fun c k => toRecord_iff hg h hgathers.ends.comes⟩

end PreliminaryPlan

/-! ## A loop that tells -/

/-- Operators that add up, and tell with all that they emit that it is a single value. -/
def telling : Behaviour Unit :=
  { adding with
    evaluate := fun o ctx m =>
      let r := adding.evaluate o ctx m
      { r with emissions := r.emissions.map (Option.map fun e => { e with cardinality := some 1 }) } }

theorem leavesInputs_telling (o k : ObjectId) : (telling.withLoop o).LeavesInputs k := by
  refine ⟨fun ctx l => ?_, fun ctx l => ?_⟩ <;> unfold Behaviour.withLoop <;> simp only
  · split <;> rfl
  · split
    · exact LoopOperator.touches_evaluate l ctx
    · rfl

/-- With all channels marked, what is read before the loop is measured, and what the first task of the
body tells in each iteration is not. -/
theorem counting_collects : ∃ plan n here, counting.assign = .ok plan ∧
    (∀ t, counting.Needs t →
      (telling.withLoop 2).LeavesInputs (counting.graph.task t).operator.object) ∧
    (Instrumentation.full.apply plan).Gathers (telling.withLoop 2) {} { memory := untilFour } n here
      (counting.Collected plan (fun c => Instrumentation.full.selects (plan.graph.channel c))
        (telling.withLoop 2) {} { memory := untilFour } here.reports) ∧
    counting.Collected plan (fun c => Instrumentation.full.selects (plan.graph.channel c))
      (telling.withLoop 2) {} { memory := untilFour } here.reports 0 1 ∧
    ∀ k, ¬ counting.Collected plan (fun c => Instrumentation.full.selects (plan.graph.channel c))
      (telling.withLoop 2) {} { memory := untilFour } here.reports 2 k := by
  obtain ⟨plan, hplan, hread, hbody⟩ : ∃ plan, counting.assign = .ok plan ∧
      ((Instrumentation.full.apply plan).execute (telling.withLoop 2) {}
        { memory := untilFour }).2.state.cardinality? 0 = some 1 ∧
      ((Instrumentation.full.apply plan).execute (telling.withLoop 2) {}
        { memory := untilFour }).2.state.cardinality? 2 = none :=
    PreliminaryPlan.exists_assign_of_decide (by decide +kernel)
  have hleaves : ∀ t, counting.Needs t →
      (telling.withLoop 2).LeavesInputs (counting.graph.task t).operator.object :=
    fun _ _ => leavesInputs_telling 2 _
  have hnone : ∀ c, ({ memory := untilFour } : Machine LoopOperator).state.cardinality? c = none :=
    fun _ => Std.TreeMap.getElem?_emptyc
  obtain ⟨n, here, hgathers⟩ := PreliminaryPlan.execute_collects built_counting hplan hleaves rfl
    hnone (fun c => Instrumentation.full.selects (plan.graph.channel c)) {}
  rw [← Instrumentation.apply_eq] at hgathers
  refine ⟨plan, n, here, hplan, hleaves, hgathers, (hgathers.cardinality 0 1).mp hread,
    fun k hk => ?_⟩
  exact absurd (hbody.symm.trans ((hgathers.cardinality 2 k).mpr hk)) nofun

end Dataflow
