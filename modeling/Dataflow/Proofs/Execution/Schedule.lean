import Dataflow.Proofs.Execution.Evaluation
import Dataflow.Proofs.Execution.StageRun
import Dataflow.Proofs.Plan.StageGraph

/-!
# Executing the stages of a plan one after the other

The stages of a plan without loop heads may be executed in any order in which each comes once and
after its predecessors. All of these orders do the same: they evaluate each needed task once on the
data of its inputs, and leave published the data of the channels that leave a stage.

* `IsSchedule`, `isSchedule_stageIds`: such orders, and that the order of the stages is one.
* `Progress`, `Progress.step`: what holds after some of the stages were executed.
* **`exists_evaluated`**: all stages were executed, and the graph is evaluated.
-/

namespace Dataflow

namespace Plan

/-- Execute stages one after the other, whether they fail or not. -/
def executeEach {ω : Type} (p : Plan) (b : Behaviour ω) (config : ExecutorConfig) :
    List StageId → Machine ω → List (Except ExecutionError StageReport) × Machine ω
  | [], m => ([], m)
  | s :: ss, m =>
    let (r, m) := p.executeStage b config s m
    let (rs, m) := executeEach p b config ss m
    (r :: rs, m)

/-- An order in which each stage comes once and after its predecessors. -/
structure IsSchedule (p : Plan) (order : List StageId) : Prop where
  perm : order.Perm p.stageIds
  after : ∀ done s rest, order = done ++ s :: rest → ∀ q ∈ (p.stage s).predecessors, q ∈ done

end Plan

namespace PreliminaryPlan

/-- The executions of all stages evaluate the needed tasks, given the data of each channel. -/
structure Evaluated {ω : Type} (p : PreliminaryPlan) (plan : Plan) (b : Behaviour ω)
    (v : ChannelId → Payload) (order : List StageId) (m : Machine ω) (reports : List StageReport)
    (m' : Machine ω) : Prop where
  stages : reports.map StageReport.stage = order
  complete : ∀ r ∈ reports, r.unexecuted = []
  /-- Each needed task is evaluated once, on the data of its inputs. -/
  once : ∃ done : List TaskId, done.Nodup ∧ (∀ t, t ∈ done ↔ p.Needs t) ∧
    reports.flatMap StageReport.executed = done.map (fun t => ⟨t, .plain⟩) ∧
    ∀ log, b.Logs log → log m'.memory = log m.memory ++ done.map (p.graph.evaluation v)
  /-- Published are the channels that a needed task feeds and that leave its stage. -/
  published : ∀ c, (m'.state.get? c).isSome = true ↔
    c < p.graph.channels.length ∧ p.Needs (p.graph.channel c).producer ∧ plan.isOutward c = true
  live : ∀ c i, m'.state.get? c = some i → (m'.ledger.get i).isDisposed = false ∧
    m'.ledger.Live i c (v c)

section Schedule

variable {ω : Type} {p : PreliminaryPlan} {r : Runs} {plan : Plan} {b : Behaviour ω}
  {f : TaskFunctions} {v : ChannelId → Payload} {m₀ m : Machine ω}

/-- The order of the stages is a schedule. -/
theorem isSchedule_stageIds (hg : p.graph.Built) (h : p.assign = .ok plan) :
    plan.IsSchedule plan.stageIds := by
  obtain ⟨hs, -⟩ := assign_eq_ok hg h
  obtain ⟨r, -, hfin⟩ := finished_of_assign hg h
  refine ⟨List.Perm.refl _, fun done s rest heq q hq => ?_⟩
  have hsorted : (done ++ s :: rest).Pairwise (· < ·) := heq ▸ List.pairwise_lt_range
  have hmem : ∀ x, x ∈ done ++ s :: rest ↔ x < r.count := fun x => by
    rw [← heq, ← hfin.length_stages]
    exact List.mem_range
  have hlt := (hmem s).mp (List.mem_append_right _ List.mem_cons_self)
  obtain ⟨hqlt, e, he, hf, rfl, rfl, hne⟩ := (hfin.mem_predecessors hlt).mp hq
  have hbefore := hfin.resolved.place_lt (isScope_plannedTasks hg.wired hs) he hf hne
  rcases List.mem_append.mp ((hmem _).mpr hqlt) with hd | hd
  · exact hd
  · rcases List.mem_cons.mp hd with heq | hr
    · exact absurd heq hne
    · have hafter := (List.pairwise_cons.mp (List.pairwise_append.mp hsorted).2.1).1 _ hr
      exact absurd hafter (Nat.lt_asymm hbefore)

/-- What holds after some stages were executed. -/
structure Progress (p : PreliminaryPlan) (plan : Plan) (b : Behaviour ω) (v : ChannelId → Payload)
    (m₀ : Machine ω) (past : List StageId) (reports : List StageReport) (done : List TaskId)
    (m : Machine ω) : Prop where
  stages : reports.map StageReport.stage = past
  complete : ∀ r ∈ reports, r.unexecuted = []
  executed : reports.flatMap StageReport.executed = done.map fun t => ⟨t, .plain⟩
  tasks : done.Perm (past.flatMap fun s => (plan.stage s).tasks)
  logged : ∀ log, b.Logs log → log m.memory = log m₀.memory ++ done.map (p.graph.evaluation v)
  rest : m.AtRest
  published : ∀ s ∈ past, ∀ c, plan.Leaves s c → m.Publishes c (v c)
  others : ∀ c, (∀ s ∈ past, ¬ plan.Leaves s c) → m.state.get? c = none

theorem progress_nil (hm : m.state.isEmpty = true) : Progress p plan b v m [] [] [] m :=
  ⟨rfl, by simp, rfl, List.Perm.refl _, fun log _ => by simp, Machine.atRest_of_isEmpty hm, by simp,
    fun c _ => Machine.get?_of_isEmpty hm c⟩

/-- A channel leaves the stage of its producer only. -/
theorem Finished.leaves_unique {g : TaskGraph} {tasks : List TaskId}
    (h : Finished g tasks r plan) {s s' : StageId} (hlt : s < r.count) (hlt' : s' < r.count)
    {c : ChannelId} (hc : plan.Leaves s c) (hc' : plan.Leaves s' c) : s = s' := by
  have hs := ((h.mem_tasks hlt).mp hc.2.1).2
  have hs' := ((h.mem_tasks hlt').mp hc'.2.1).2
  exact hs.symm.trans hs'

/-- What a stage reads from another one leaves that stage, which is a predecessor. -/
theorem Finished.exists_leaves {g : TaskGraph} {tasks : List TaskId} (hw : g.Wired)
    (hs : g.IsScope tasks) (h : Finished g tasks r plan) {s : StageId} (hlt : s < r.count)
    {t : TaskId} (ht : t ∈ (plan.stage s).tasks) {i : Nat} {c : ChannelId}
    (hc : (plan.graph.task t).inputChannel i = some c)
    (hi : i ∉ (g.task t).operator.bodyInputs) (hx : plan.isFedExternally t i = true) :
    ∃ q ∈ (plan.stage s).predecessors, plan.Leaves q c := by
  obtain ⟨htm, hts⟩ := (h.mem_tasks hlt).mp ht
  have hc' : (g.task t).inputChannel i = some c := by rw [← h.sameWiring.input, hc]
  have hprod := producer_mem hs htm hc'
  have hplace := h.resolved.place_lt_count hs hprod
  refine ⟨r.place (g.channel c).producer, (h.mem_predecessors hlt).mpr ⟨hplace,
    Edge.ofInput g t i c, edge_mem htm hc', feedback_ofInput.mpr hi, hts, rfl,
    (h.isFedExternally_iff hw hs htm hc' hi).mp hx⟩, ?_, ?_, ?_⟩
  · rw [h.sameWiring.length]
    exact ((hw.input_iff t i c).mp hc').1
  · rw [h.sameWiring.producer, h.mem_tasks hplace]
    exact ⟨hprod, rfl⟩
  · exact h.isOutward_of_external hw hs htm hc' hx

/-- What is known of a plan without loop heads and of the operators of its tasks. -/
structure Computing (p : PreliminaryPlan) (r : Runs) (plan : Plan) (b : Behaviour ω)
    (f : TaskFunctions) (v : ChannelId → Payload) : Prop where
  built : p.graph.Built
  known : p.SinksKnown
  fed : p.InputsFed
  acyclic : p.Acyclic
  finished : Finished p.graph p.plannedTasks r plan
  plain : ∀ t, p.Needs t → (p.graph.task t).isLoopHead = false
  computes : ∀ t, p.Needs t → b.Computes p.graph f t
  values : p.Values f v

namespace Computing

theorem scope (h : Computing p r plan b f v) : p.graph.IsScope p.plannedTasks :=
  isScope_plannedTasks h.built.wired h.known

theorem needs (h : Computing p r plan b f v) {s : StageId} (hlt : s < r.count) {t : TaskId}
    (ht : t ∈ (plan.stage s).tasks) : p.Needs t :=
  (mem_plannedTasks h.built.wired h.known).mp ((h.finished.mem_tasks hlt).mp ht).1

theorem bodyInputs (h : Computing p r plan b f v) {t : TaskId} (ht : p.Needs t) (i : Nat) :
    i ∉ (p.graph.task t).operator.bodyInputs := Task.not_mem_bodyInputs (h.plain t ht) i

theorem isPlain (h : Computing p r plan b f v) {s : StageId} (hlt : s < r.count) :
    plan.IsPlain s := by
  have hg := h.built.wired
  have hneeds : ∀ t, t ∈ p.plannedTasks ↔ p.Needs t := fun t => mem_plannedTasks hg h.known
  refine h.finished.isPlain hg h.built.unplaced h.scope
    ((acyclic_iff_grounded hg h.known).mp h.acyclic) (fun t ht => h.fed t ((hneeds t).mp ht)) hlt
    fun t ht => h.plain t (h.needs hlt ht)

end Computing

/-- One more stage is executed. -/
theorem Progress.step (h : Computing p r plan b f v) (config : ExecutorConfig)
    {past : List StageId} {reports : List StageReport} {done : List TaskId}
    (hm : Progress p plan b v m₀ past reports done m) {s : StageId} (hlt : s < r.count)
    (hpast : ∀ q ∈ past, q < r.count) (hnew : s ∉ past)
    (hpreds : ∀ q ∈ (plan.stage s).predecessors, q ∈ past) :
    ∃ report m' done', plan.executeStage b config s m = (.ok report, m') ∧
      Progress p plan b v m₀ (past ++ [s]) (reports ++ [report]) done' m' := by
  have hserves : ∀ t ∈ (plan.stage s).tasks, Serves plan b v (fun new (memory : ω) =>
      ∀ log, b.Logs log → log memory =
        (log m₀.memory ++ done.map (p.graph.evaluation v)) ++ new.map (p.graph.evaluation v)) t :=
    fun t ht => serves_of_computes h.built.wired h.fed h.values h.finished (h.needs hlt ht)
      (h.computes t (h.needs hlt ht)) fun log => log m₀.memory ++ done.map (p.graph.evaluation v)
  have hreads : Reads plan s v (fun new (memory : ω) => ∀ log, b.Logs log → log memory =
      (log m₀.memory ++ done.map (p.graph.evaluation v)) ++ new.map (p.graph.evaluation v)) m := by
    refine ⟨hm.rest, fun log hlog => ?_, fun t ht i c hc hx => ?_⟩
    · rw [hm.logged log hlog, List.map_nil, List.append_nil]
    · obtain ⟨q, hq, hleaves⟩ := h.finished.exists_leaves h.built.wired h.scope hlt ht hc
        (h.bodyInputs (h.needs hlt ht) i) hx
      exact hm.published q (hpreds q hq) c hleaves
  obtain ⟨report, m', hrun, hex⟩ := executeStage_spec config (h.isPlain hlt) hserves hreads
  obtain ⟨new, hperm, hexecuted, hlogged⟩ := hex.tasks
  refine ⟨report, m', done ++ new, hrun, {
    stages := ?stages
    complete := ?complete
    executed := ?executed
    tasks := ?tasks
    logged := ?logged
    rest := hex.rest
    published := ?published
    others := ?others }⟩
  case stages =>
    rw [List.map_append, hm.stages, List.map_singleton, hex.stage]
  case complete =>
    intro x hx
    rcases List.mem_append.mp hx with hx | hx
    · exact hm.complete x hx
    · exact List.mem_singleton.mp hx ▸ hex.unexecuted
  case executed =>
    rw [List.flatMap_append, hm.executed, List.flatMap_singleton, hexecuted, List.map_append]
  case tasks =>
    rw [List.flatMap_append, List.flatMap_singleton]
    exact hm.tasks.append hperm
  case logged =>
    intro log hlog
    rw [hlogged log hlog, List.map_append, List.append_assoc]
  case published =>
    intro q hq c hc
    rcases List.mem_append.mp hq with hq | hq
    · have hkept : ¬ plan.Leaves s c := fun hc' =>
        hnew (h.finished.leaves_unique (hpast q hq) hlt hc hc' ▸ hq)
      exact (hex.kept c hkept).2 _ (hm.published q hq c hc)
    · obtain rfl := List.mem_singleton.mp hq
      exact hex.published c hc
  case others =>
    intro c hc
    have hkept := (hex.kept c (hc s (List.mem_append_right _ (List.mem_singleton_self s)))).1
    rw [hkept]
    exact hm.others c fun q hq => hc q (List.mem_append_left _ hq)

/-- The rest of a schedule is executed. -/
theorem Progress.run (h : Computing p r plan b f v) (config : ExecutorConfig) :
    ∀ {rest past : List StageId} {reports : List StageReport} {done : List TaskId} {m : Machine ω},
      plan.IsSchedule (past ++ rest) → Progress p plan b v m₀ past reports done m →
      ∃ (new : List StageReport) (done' : List TaskId) (m' : Machine ω),
        plan.executeEach b config rest m = (new.map .ok, m') ∧
        Progress p plan b v m₀ (past ++ rest) (reports ++ new) done' m' := by
  intro rest
  induction rest with
  | nil =>
    intro past reports done m _ hm
    refine ⟨[], done, m, rfl, ?_⟩
    rw [List.append_nil, List.append_nil]
    exact hm
  | cons s rest ih =>
    intro past reports done m hsched hm
    have hnodup : (past ++ s :: rest).Nodup := hsched.perm.nodup_iff.mpr List.nodup_range
    have hmem : ∀ q ∈ past ++ s :: rest, q < r.count := fun q hq => by
      rw [← h.finished.length_stages]
      exact List.mem_range.mp (hsched.perm.mem_iff.mp hq)
    have hnew : s ∉ past := fun hs =>
      (List.nodup_append.mp hnodup).2.2 s hs s List.mem_cons_self rfl
    obtain ⟨report, m₁, done₁, hrun, hm₁⟩ := hm.step h config
      (hmem s (List.mem_append_right _ List.mem_cons_self))
      (fun q hq => hmem q (List.mem_append_left _ hq)) hnew (hsched.after past s rest rfl)
    have hassoc : past ++ s :: rest = (past ++ [s]) ++ rest := List.append_cons past s rest
    obtain ⟨new, done₂, m₂, hruns, hm₂⟩ := ih (hassoc ▸ hsched) hm₁
    refine ⟨report :: new, done₂, m₂, ?_, ?_⟩
    · unfold Plan.executeEach
      simp only [hrun, hruns]
      rfl
    · rw [hassoc, List.append_cons reports]
      exact hm₂

/-- All stages were executed. -/
theorem Progress.evaluated (h : Computing p r plan b f v) {order : List StageId}
    (hsched : plan.IsSchedule order) {reports : List StageReport} {done : List TaskId}
    (hm : Progress p plan b v m₀ order reports done m) :
    Evaluated p plan b v order m₀ reports m := by
  have hfin := h.finished
  have horder : ∀ s, s ∈ order ↔ s < r.count := fun s => by
    rw [hsched.perm.mem_iff, ← hfin.length_stages]
    exact List.mem_range
  have hneeds : ∀ t, t ∈ p.plannedTasks ↔ p.Needs t := fun t =>
    mem_plannedTasks h.built.wired h.known
  have htasks : ∀ t, t ∈ done ↔ p.Needs t := fun t => by
    rw [hm.tasks.mem_iff, List.mem_flatMap, ← hneeds]
    constructor
    · rintro ⟨s, hs, ht⟩
      exact ((hfin.mem_tasks ((horder s).mp hs)).mp ht).1
    · intro ht
      have hlt := hfin.resolved.place_lt_count h.scope ht
      exact ⟨_, (horder _).mpr hlt, (hfin.mem_tasks hlt).mpr ⟨ht, rfl⟩⟩
  have hnodup : done.Nodup := by
    rw [hm.tasks.nodup_iff, List.nodup_flatMap]
    refine ⟨fun s hs => hfin.nodup_tasks h.scope ((horder s).mp hs), ?_⟩
    have hdistinct : order.Nodup := hsched.perm.nodup_iff.mpr List.nodup_range
    refine hdistinct.imp_of_mem fun hs hs' hne t ht ht' => hne ?_
    have hplace := ((hfin.mem_tasks ((horder _).mp hs)).mp ht).2
    exact hplace.symm.trans ((hfin.mem_tasks ((horder _).mp hs')).mp ht').2
  have hleaves : ∀ c, (∃ s ∈ order, plan.Leaves s c) ↔ c < p.graph.channels.length ∧
      p.Needs (p.graph.channel c).producer ∧ plan.isOutward c = true := fun c => by
    unfold Plan.Leaves
    rw [hfin.sameWiring.length, hfin.sameWiring.producer]
    constructor
    · rintro ⟨s, hs, hc, hp, hx⟩
      exact ⟨hc, h.needs ((horder s).mp hs) hp, hx⟩
    · rintro ⟨hc, hp, hx⟩
      have hlt := hfin.resolved.place_lt_count h.scope ((hneeds _).mpr hp)
      exact ⟨_, (horder _).mpr hlt, hc, (hfin.mem_tasks hlt).mpr ⟨(hneeds _).mpr hp, rfl⟩, hx⟩
  have hpublishes : ∀ c i, m.state.get? c = some i → m.Publishes c (v c) := fun c i hi => by
    by_contra hno
    have hnone := hm.others c fun s hs hc => hno (hm.published s hs c hc)
    rw [hnone] at hi
    exact absurd hi (by simp)
  refine ⟨hm.stages, hm.complete, ⟨done, hnodup, htasks, hm.executed, hm.logged⟩, fun c => ?_,
    fun c i hi => ?_⟩
  · rw [← hleaves, Option.isSome_iff_exists]
    constructor
    · rintro ⟨i, hi⟩
      by_contra hno
      rw [hm.others c fun s hs hc => hno ⟨s, hs, hc⟩] at hi
      exact absurd hi (by simp)
    · rintro ⟨s, hs, hc⟩
      obtain ⟨i, hi, -⟩ := hm.published s hs c hc
      exact ⟨i, hi⟩
  · obtain ⟨j, hj, hlive⟩ := hpublishes c i hi
    obtain rfl : j = i := Option.some.inj (hj.symm.trans hi)
    refine ⟨?_, hlive⟩
    unfold Instance.isDisposed
    rw [beq_eq_false_iff_ne]
    exact hm.rest.references hi

/-- In every order that respects their dependencies the stages are executed, and all needed tasks are
evaluated on what the channels carry. -/
theorem exists_evaluated (hg : p.graph.Built) (hp : p.assign = .ok plan)
    (hplain : ∀ t, p.Needs t → (p.graph.task t).isLoopHead = false)
    (hb : ∀ t, p.Needs t → b.Computes p.graph f t) (hv : p.Values f v) (config : ExecutorConfig)
    {order : List StageId} (hsched : plan.IsSchedule order) (hm : m.state.isEmpty = true) :
    ∃ reports m', plan.executeEach b config order m = (reports.map .ok, m') ∧
      p.Evaluated plan b v order m reports m' := by
  obtain ⟨hs, hf, ha, -⟩ := assign_eq_ok hg hp
  obtain ⟨r, -, hfin⟩ := finished_of_assign hg hp
  have hcomputing : Computing p r plan b f v := ⟨hg, hs, hf, ha, hfin, hplain, hb, hv⟩
  have hall : plan.IsSchedule ([] ++ order) := hsched
  obtain ⟨reports, done, m', hrun, hprogress⟩ := Progress.run hcomputing config hall
    (progress_nil hm)
  exact ⟨reports, m', hrun, hprogress.evaluated hcomputing hsched⟩

end Schedule

end PreliminaryPlan

end Dataflow
