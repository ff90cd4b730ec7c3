import Dataflow.Proofs.Plan.Finish

/-!
# The outcome of stage assignment

A preliminary plan can be cut into stages iff four conditions hold: its sinks are known
(`SinksKnown`), every input of a needed task is fed (`InputsFed`), the needed tasks form no cycle
but through loop heads (`Acyclic`), and a channel that can be read once is read in one stage
(`ReadOnce`). The first condition that fails gives the class of the error.

Each condition is about the graph, and each is decided by one check of the program, in this order. The
graph has to be one that wiring operations built (`TaskGraph.Built`): the two ends of a channel then
agree on each other, so that a search along the consumers and one along the producers go over the same
edges. Nothing is asked of the sinks. A list that names a task twice is planned like one that names it
once, and one that names an unknown task fails.

* `findTaskCycle_eq_none_iff`, `materialize_eq_ok_iff`: the third and the fourth condition.
* **`assign_outcome`**: all of them, and that the splitting of runs does not fail.

A cycle is looked for among needed tasks only, so a graph with a cycle that no sink depends on has a
plan, without the tasks of the cycle (`Dataflow.Proofs.Plan.Coverage`).

`ReadOnce` is stated of the partition that splitting ends with and not of the graph alone: whether two
readers of a channel end up in one stage can depend on what was split, and which run of a cycle is
split is a choice of the algorithm. The errors for a cycle that cannot be broken and for runs that
cannot be put in order guard the algorithm against itself, and no graph leads to them.
-/

namespace Dataflow

namespace PreliminaryPlan

/-- A needed task reads what `u` feeds, and not on a body input of a loop head. -/
def Forward (p : PreliminaryPlan) (u v : TaskId) : Prop :=
  p.Needs v ∧ ∃ i c, (p.graph.task v).inputChannel i = some c ∧ (p.graph.channel c).producer = u ∧
    i ∉ (p.graph.task v).operator.bodyInputs

/-- Needed tasks form no cycle but through the body inputs of loop heads. -/
def Acyclic (p : PreliminaryPlan) : Prop := ∀ t, ¬ Relation.TransGen p.Forward t t

/-- The runs from which the splitting starts. -/
def firstRuns (p : PreliminaryPlan) : Runs := .initial p.graph p.plannedTasks

/-- In the partition that splitting ends with, the needed tasks that read a channel which can be
read once are in one stage. -/
def ReadOnce (p : PreliminaryPlan) : Prop :=
  ∀ r, p.firstRuns.resolve = .ok r → ∀ c < p.graph.channels.length,
    (p.graph.channel c).descriptor.reusable = false →
    ∀ k ∈ (p.graph.channel c).consumers, ∀ k' ∈ (p.graph.channel c).consumers,
      p.Needs k.task → p.Needs k'.task → r.place k.task = r.place k'.task

/-- Stage assignment fails with an error of a class. -/
def FailsWith (p : PreliminaryPlan) (kind : PlanningError.Kind) : Prop :=
  ∃ e, p.assign = .error e ∧ e.kind = kind

variable {p : PreliminaryPlan}

/-! ## Cycles of tasks -/

section Cycles

theorem mem_forward_firstRuns (hg : p.graph.Wired) (hs : p.SinksKnown) {u v : TaskId} :
    v ∈ p.firstRuns.forward u ↔ p.Forward u v := by
  rw [Runs.mem_forward]
  change (∃ e ∈ Edge.among p.graph p.plannedTasks, _) ↔ _
  unfold Forward
  constructor
  · rintro ⟨e, he, hf, rfl, rfl⟩
    obtain ⟨t, ht, i, c, hc, rfl⟩ := mem_among_iff.mp he
    refine ⟨(mem_plannedTasks hg hs).mp ht, i, c, hc, rfl, fun hi => ?_⟩
    exact absurd (List.contains_iff_mem.mpr hi) (Bool.eq_false_iff.mp hf)
  · rintro ⟨hn, i, c, hc, rfl, hi⟩
    refine ⟨Edge.ofInput p.graph v i c, ?_, ?_, rfl, rfl⟩
    · exact mem_among_iff.mpr ⟨v, (mem_plannedTasks hg hs).mpr hn, i, c, hc, rfl⟩
    · exact Bool.eq_false_iff.mpr fun h => hi (List.contains_iff_mem.mp h)

theorem leads_firstRuns (hg : p.graph.Wired) (hs : p.SinksKnown) :
    Digraph.Leads p.firstRuns.forward = p.Forward := by
  funext u v
  exact propext (mem_forward_firstRuns hg hs)

theorem isClosed_forward (hg : p.graph.Wired) (hs : p.SinksKnown) :
    Digraph.IsClosed p.firstRuns.forward p.plannedTasks := by
  intro u _ v hv
  exact (mem_plannedTasks hg hs).mpr ((mem_forward_firstRuns hg hs).mp hv).1

theorem findTaskCycle_firstRuns : findTaskCycle p.firstRuns =
    (Digraph.findCycle p.firstRuns.forward p.plannedTasks).map fun cycle =>
      cycle ++ cycle.take 1 := rfl

/-- No walk along forward edges is infinite iff none comes back. -/
theorem acyclic_iff_grounded (hg : p.graph.Wired) (hs : p.SinksKnown) : p.Acyclic ↔
    ∀ t ∈ p.plannedTasks, Digraph.Grounded p.firstRuns.forward t := by
  constructor
  · intro ha
    cases hc : Digraph.findCycle p.firstRuns.forward p.plannedTasks with
    | none => exact Digraph.findCycle_none (isClosed_forward hg hs) hc
    | some cycle =>
      obtain ⟨t, -, ht⟩ := (Digraph.findCycle_some (isClosed_forward hg hs) hc).trans
      rw [leads_firstRuns hg hs] at ht
      exact absurd ht (ha t)
  · intro h t ht
    have hn : p.Needs t := by
      obtain ⟨u, -, hu⟩ := Relation.TransGen.tail'_iff.mp ht
      exact hu.1
    rw [← leads_firstRuns hg hs] at ht
    exact (h t ((mem_plannedTasks hg hs).mpr hn)).not_trans ht

theorem findTaskCycle_eq_none_iff (hg : p.graph.Wired) (hs : p.SinksKnown) :
    findTaskCycle p.firstRuns = none ↔ p.Acyclic := by
  rw [acyclic_iff_grounded hg hs, findTaskCycle_firstRuns, Option.map_eq_none_iff]
  refine ⟨Digraph.findCycle_none (isClosed_forward hg hs), fun h => ?_⟩
  cases hc : Digraph.findCycle p.firstRuns.forward p.plannedTasks with
  | none => rfl
  | some cycle =>
    obtain ⟨t, -, ht⟩ := (Digraph.findCycle_some (isClosed_forward hg hs) hc).trans
    have hn : p.Needs t := by
      obtain ⟨u, -, hu⟩ := Relation.TransGen.tail'_iff.mp ht
      exact ((mem_forward_firstRuns hg hs).mp hu).1
    exact absurd ht (h t ((mem_plannedTasks hg hs).mpr hn)).not_trans

end Cycles

/-! ## The splitting of runs -/

section Splitting

/-- Splitting has come to an end. -/
theorem resolved_of_splits (hg : p.graph.Wired) (hs : p.SinksKnown) {r : Runs}
    (h : Relation.ReflTransGen Runs.SplitsTo p.firstRuns r) (hc : r.findCycle = none) :
    r.Resolved p.graph p.plannedTasks :=
  ⟨Runs.valid_of_splits (isScope_plannedTasks hg hs) h
    (Runs.valid_initial (isScope_plannedTasks hg hs)), hc⟩

/-- Where tasks form no cycle, splitting ends with runs that form no cycle. -/
theorem exists_resolved (hg : p.graph.Wired) (hs : p.SinksKnown) (ha : p.Acyclic) :
    ∃ r, p.firstRuns.resolve = .ok r ∧ r.Resolved p.graph p.plannedTasks := by
  obtain ⟨r, hr, hsteps, hnone⟩ := Runs.resolve_spec (isScope_plannedTasks hg hs)
    ((acyclic_iff_grounded hg hs).mp ha)
  exact ⟨r, hr, resolved_of_splits hg hs hsteps hnone⟩

/-- A channel that can be read once is read once iff it is not read too often in any stage. -/
theorem readOnce_iff (hg : p.graph.Wired) (hs : p.SinksKnown) {r : Runs}
    (hr : p.firstRuns.resolve = .ok r) (hres : r.Resolved p.graph p.plannedTasks) :
    p.ReadOnce ↔ ∀ c < p.graph.channels.length,
      ¬ Overread r.tasks.contains r.place r.count (p.graph.channel c) := by
  have hplanned : ∀ t, r.tasks.contains t = true ↔ p.Needs t := fun t => by
    rw [hres.valid.tasks_eq, List.contains_iff_mem, mem_plannedTasks hg hs]
  have hlt : ∀ t, r.tasks.contains t = true → r.place t < r.count := fun t ht => by
    rw [hplanned, ← mem_plannedTasks hg hs] at ht
    exact hres.place_lt_count (isScope_plannedTasks hg hs) ht
  unfold Overread
  simp only [one_lt_length_readers hlt, hplanned]
  constructor
  · rintro h c hc ⟨-, hreuse, k, hk, k', hk', hn, hn', hne⟩
    exact hne (h r hr c hc hreuse k hk k' hk' hn hn')
  · intro h r' hr' c hc hreuse k hk k' hk' hn hn'
    obtain rfl : r = r' := Except.ok.inj (hr.symm.trans hr')
    by_contra hne
    -- whatever feeds a needed task is needed
    have hfed : (p.graph.task k.task).inputChannel k.input = some c :=
      (hg.input_iff _ _ c).mpr ⟨hc, hk⟩
    exact h c hc ⟨hn.producer hfed, hreuse, k, hk, k', hk', hn, hn', hne⟩

end Splitting

/-! ## All conditions -/

section Outcome

theorem assign_of_invalid {e : PlanningError} (h : p.validate = .error e) :
    p.assign = .error e := by
  unfold assign
  rw [h]
  rfl

theorem assign_of_cycle (h : p.validate = .ok ()) {cycle : List TaskId}
    (hc : findTaskCycle p.firstRuns = some cycle) :
    p.assign = .error (.dataCycle (cycle.map p.graph.taskLabel)) := by
  have hc' : findTaskCycle (.initial p.graph p.plannedTasks) = some cycle := hc
  unfold assign
  rw [h]
  simp only [hc']
  rfl

theorem assign_of_acyclic (h : p.validate = .ok ()) (hc : findTaskCycle p.firstRuns = none)
    {r : Runs} (hr : p.firstRuns.resolve = .ok r) : p.assign = materialize p.graph r := by
  have hc' : findTaskCycle (.initial p.graph p.plannedTasks) = none := hc
  have hr' : Runs.resolve (.initial p.graph p.plannedTasks) = .ok r := hr
  unfold assign
  rw [h]
  simp only [hc', hr']
  rfl

theorem exists_assign_of_map {α : Type} {f : Plan → α} {x : α} (h : p.assign.map f = .ok x) :
    ∃ plan, p.assign = .ok plan ∧ f plan = x := by
  cases hassign : p.assign with
  | error e =>
    rw [hassign] at h
    exact absurd h nofun
  | ok plan =>
    rw [hassign] at h
    exact ⟨plan, rfl, Except.ok.inj h⟩

theorem exists_assign_of_decide {P : Plan → Prop} [DecidablePred P]
    (h : (p.assign.map fun plan => decide (P plan)) = .ok true) :
    ∃ plan, p.assign = .ok plan ∧ P plan := by
  obtain ⟨plan, hplan, hP⟩ := exists_assign_of_map h
  exact ⟨plan, hplan, of_decide_eq_true hP⟩

/-- What a plan is made of. -/
theorem assign_eq_ok (hg : p.graph.Built) {plan : Plan} (h : p.assign = .ok plan) :
    p.SinksKnown ∧ p.InputsFed ∧ p.Acyclic ∧ ∃ r, p.firstRuns.resolve = .ok r ∧
      r.Resolved p.graph p.plannedTasks ∧ materialize p.graph r = .ok plan := by
  have hs : p.SinksKnown := by
    refine ⟨fun hnil => ?_, fun s hs => ?_⟩
    · rw [assign_of_invalid (validate_of_nil hnil)] at h
      exact absurd h (by simp)
    · by_contra hlt
      obtain ⟨t, ht⟩ := validate_of_unknown (List.ne_nil_of_mem hs) hs hlt
      rw [assign_of_invalid ht] at h
      exact absurd h (by simp)
  have hf : p.InputsFed := by
    by_contra hf
    obtain ⟨i, t, ht⟩ := validate_of_unfed hg hs hf
    rw [assign_of_invalid ht] at h
    exact absurd h (by simp)
  have hv := validate_eq_ok hg hs hf
  have ha : findTaskCycle p.firstRuns = none := by
    cases hc : findTaskCycle p.firstRuns with
    | none => rfl
    | some cycle =>
      rw [assign_of_cycle hv hc] at h
      exact absurd h (by simp)
  have hac := (findTaskCycle_eq_none_iff hg.wired hs).mp ha
  obtain ⟨r, hr, hres⟩ := exists_resolved hg.wired hs hac
  rw [assign_of_acyclic hv ha hr] at h
  exact ⟨hs, hf, hac, r, hr, hres, h⟩

/-- The splitting of runs ends, and never gets stuck before. -/
structure SplittingEnds (p : PreliminaryPlan) : Prop where
  /-- No state has an empty run, and so none has more runs than tasks. -/
  occupied : ∀ r, Relation.ReflTransGen Runs.SplitsTo p.firstRuns r →
    (∀ k < r.count, ∃ t ∈ p.plannedTasks, r.run t = k) ∧ r.count ≤ p.plannedTasks.length
  /-- Where there is a cycle of runs, one of them can be split, which makes one run more. -/
  progress : ∀ r, Relation.ReflTransGen Runs.SplitsTo p.firstRuns r → ∀ cycle,
    r.findCycle = some cycle → ∃ run part, r.findSplit cycle = some (run, part) ∧
      Runs.SplitsTo r (r.splitOff run part) ∧ (r.splitOff run part).count = r.count + 1
  /-- In the end there is no cycle of runs. -/
  ends : ∃ r, p.firstRuns.resolve = .ok r ∧ Relation.ReflTransGen Runs.SplitsTo p.firstRuns r ∧
    r.findCycle = none

theorem splittingEnds (hg : p.graph.Wired) (hs : p.SinksKnown) (ha : p.Acyclic) :
    p.SplittingEnds := by
  have hscope := isScope_plannedTasks hg hs
  have hground := (acyclic_iff_grounded hg hs).mp ha
  have hvalid : ∀ r, Relation.ReflTransGen Runs.SplitsTo p.firstRuns r →
      r.Valid p.graph p.plannedTasks := fun r hr =>
    Runs.valid_of_splits hscope hr (Runs.valid_initial hscope)
  refine ⟨fun r hr => ⟨(hvalid r hr).occupied, (hvalid r hr).count_le⟩, fun r hr cycle hc => ?_,
    Runs.resolve_spec hscope hground⟩
  obtain ⟨run, part, hf, hstep⟩ := Runs.exists_splitsTo hscope (hvalid r hr) hground hc
  exact ⟨run, part, hf, hstep, rfl⟩

/-- What an assignment that fails says is one of five things. -/
theorem assign_cases (hg : p.graph.Built) :
    (p.sinks = [] ∧ p.assign = .error .noTerminalTask) ∨
    (p.sinks ≠ [] ∧ ¬ p.SinksKnown ∧ ∃ t, p.assign = .error (.unknownTask t)) ∨
    (p.SinksKnown ∧ ¬ p.InputsFed ∧ ∃ i t, p.assign = .error (.noProducer i t)) ∨
    (p.SinksKnown ∧ p.InputsFed ∧ ¬ p.Acyclic ∧ ∃ path, p.assign = .error (.dataCycle path)) ∨
    (p.SinksKnown ∧ p.InputsFed ∧ p.Acyclic ∧
      ((p.ReadOnce ∧ ∃ plan, p.assign = .ok plan) ∨
        (¬ p.ReadOnce ∧ ∃ e, p.assign = .error e ∧ e.kind = .nonReusableFanOut))) := by
  by_cases hnil : p.sinks = []
  · exact Or.inl ⟨hnil, assign_of_invalid (validate_of_nil hnil)⟩
  by_cases hs : p.SinksKnown
  swap
  · have hunknown : ∃ s ∈ p.sinks, ¬ s < p.graph.tasks.length := by
      by_contra hno
      push Not at hno
      exact hs ⟨hnil, hno⟩
    obtain ⟨s, hsm, hlt⟩ := hunknown
    obtain ⟨t, ht⟩ := validate_of_unknown hnil hsm hlt
    exact Or.inr (Or.inl ⟨hnil, hs, t, assign_of_invalid ht⟩)
  by_cases hf : p.InputsFed
  swap
  · obtain ⟨i, t, ht⟩ := validate_of_unfed hg hs hf
    exact Or.inr (Or.inr (Or.inl ⟨hs, hf, i, t, assign_of_invalid ht⟩))
  have hv := validate_eq_ok hg hs hf
  refine Or.inr (Or.inr (Or.inr ?_))
  cases hc : findTaskCycle p.firstRuns with
  | some cycle =>
    refine Or.inl ⟨hs, hf, fun ha => ?_, _, assign_of_cycle hv hc⟩
    rw [(findTaskCycle_eq_none_iff hg.wired hs).mpr ha] at hc
    exact absurd hc (by simp)
  | none =>
    have ha := (findTaskCycle_eq_none_iff hg.wired hs).mp hc
    obtain ⟨r, hr, hres⟩ := exists_resolved hg.wired hs ha
    have hlen := hres.length_executionOrder (isScope_plannedTasks hg.wired hs)
    refine Or.inr ⟨hs, hf, ha, ?_⟩
    rw [assign_of_acyclic hv hc hr, readOnce_iff hg.wired hs hr hres]
    rcases materialize_cases hlen with ⟨hok, hall⟩ | ⟨herr, c, hcl, hover⟩
    · exact Or.inl ⟨hall, hok⟩
    · exact Or.inr ⟨fun hall => hall c hcl hover, herr⟩

/-- **The outcome of stage assignment**, for every graph that wiring operations built and every
list of sinks: there is a plan iff the four conditions hold, and the first one that does not hold
gives the class of the error. Once the needed tasks form no cycle, the splitting of runs ends, and
the errors of runs that cannot be split or put in order do not occur. -/
theorem assign_outcome (hg : p.graph.Built) :
    ((∃ plan, p.assign = .ok plan) ↔ p.SinksKnown ∧ p.InputsFed ∧ p.Acyclic ∧ p.ReadOnce) ∧
    (p.sinks = [] → p.FailsWith .emptyPlan) ∧
    (p.sinks ≠ [] → ¬ p.SinksKnown → p.FailsWith .inconsistentWiring) ∧
    (p.SinksKnown → ¬ p.InputsFed → p.FailsWith .missingProducer) ∧
    (p.SinksKnown → p.InputsFed → ¬ p.Acyclic → p.FailsWith .dataCycle) ∧
    (p.SinksKnown → p.InputsFed → p.Acyclic → ¬ p.ReadOnce → p.FailsWith .nonReusableFanOut) ∧
    (p.SinksKnown → p.Acyclic → p.SplittingEnds) ∧
    (∀ runs, p.assign ≠ .error (.unbreakableCycle runs)) ∧ p.assign ≠ .error .cyclicRuns := by
  have hends := fun hs ha => splittingEnds (p := p) hg.wired hs ha
  unfold FailsWith
  rcases assign_cases hg with ⟨h, he⟩ | ⟨hne, h, t, he⟩ | ⟨hs, h, i, t, he⟩ | ⟨hs, hf, h, path, he⟩ |
    ⟨hs, hf, ha, ⟨h, plan, he⟩ | ⟨h, e, he, hk⟩⟩ <;> rw [he]
  · have hs : ¬ p.SinksKnown := fun hs => hs.1 h
    simp [h, hs, PlanningError.kind]
  · simp [hne, h, PlanningError.kind]
  · simpa [hs, hs.1, h, PlanningError.kind] using hends hs
  · simp [hs, hs.1, hf, h, PlanningError.kind]
  · simp [hs, hs.1, hf, ha, h, hends hs ha]
  · have hne : (∀ runs, e ≠ .unbreakableCycle runs) ∧ e ≠ .cyclicRuns := by
      constructor
      · rintro runs rfl
        exact absurd hk (by simp [PlanningError.kind])
      · rintro rfl
        exact absurd hk (by simp [PlanningError.kind])
    simp [hs, hs.1, hf, ha, h, hk, hends hs ha, hne]

/-- Three operators, the middle one on a platform of its own; the last one reads both others. -/
def interleaved (kind : ChannelDescriptor) : PreliminaryPlan where
  graph := (((((TaskGraph.empty.addTask
    { object := 0, name := "read", platform := ⟨"a"⟩, inputs := [], outputs := [.any] }).addTask
    { object := 1, name := "sort", platform := ⟨"b"⟩, inputs := [.any], outputs := [.any] }).addTask
    { object := 2, name := "join", platform := ⟨"a"⟩, inputs := [.any, .any], outputs := [] }).wire
      0 0 1 0 kind).wire 1 0 2 0 kind).wire 0 0 2 1 kind
  sinks := [2]

theorem built_interleaved (kind : ChannelDescriptor) : (interleaved kind).graph.Built :=
  .wire (.wire (.wire (.addTask _ (.addTask _ (.addTask _ .empty))) rfl) rfl) rfl

/-- Reading and joining cannot stay together, for sorting comes between them; so they cannot share
what can be read once, but anything else. -/
theorem interleaved_outcome :
    (interleaved .collection).graph.Built ∧ (interleaved .stream).graph.Built ∧
    ((interleaved .collection).SinksKnown ∧ (interleaved .collection).InputsFed ∧
      (interleaved .collection).Acyclic ∧ (interleaved .collection).ReadOnce) ∧
    (interleaved .collection).SplittingEnds ∧
    ¬ ((interleaved .stream).SinksKnown ∧ (interleaved .stream).InputsFed ∧
      (interleaved .stream).Acyclic ∧ (interleaved .stream).ReadOnce) := by
  have hb := assign_outcome (built_interleaved .collection)
  have hplan : (interleaved .collection).assign.isOk = true := by decide +kernel
  have hok : ∃ plan, (interleaved .collection).assign = .ok plan := by
    cases h : (interleaved .collection).assign with
    | ok plan => exact ⟨plan, rfl⟩
    | error e =>
      rw [h] at hplan
      exact absurd hplan (by simp [Except.isOk, Except.toBool])
  have hfail : (interleaved .stream).assign = .error (.nonReusableFanOut ⟨0, "stream"⟩ 2) := by
    decide +kernel
  have hall := hb.1.mp hok
  refine ⟨built_interleaved _, built_interleaved _, hall,
    hb.2.2.2.2.2.2.1 hall.1 hall.2.2.1, fun h => ?_⟩
  obtain ⟨plan, hp⟩ := (assign_outcome (built_interleaved .stream)).1.mpr h
  rw [hfail] at hp
  exact absurd hp (by simp)

end Outcome

end PreliminaryPlan

end Dataflow
