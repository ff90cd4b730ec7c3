import Dataflow.Proofs.Execution.Latest
import Dataflow.Proofs.Execution.Spread
import Dataflow.Proofs.Plan.Bodies

/-!
# How often a task is executed

A loop makes whole stages pending again, and drops whole stages: those of its body. So a stage
outside of all bodies is executed once by a plan execution that succeeds, and a task that is no loop
head is executed as often as its stage is. What counts is the stage, not the task: a task that no
loop head leads to can share a stage with one that is in a body, and then it is executed once an
iteration.

The agenda makes stages pending and skips them, and it does both by the loop that is recorded for a
stage. A stage in no body is recorded for no loop, so it is executed once and never again. That the
tasks of a stage are executed as often as it is needs operators that emit on all outputs: then nothing
in a stage is left out.

* `executeStage_all`: one stage execution.
* `isPending_rearm_outside`: a stage outside of all bodies.
* `midway_executions`: such a stage after any number of stage executions.
* **`PreliminaryPlan.execute_rounds`**
* `sideReader_twice`: a source that is executed twice.

Of loop heads nothing is asked, since they emit on some of their outputs at a time, and nothing is
said of how often they are executed. In the other direction nothing is said either: a stage in the
body of a loop can be executed once or not at all, as when the loop ends at its initialization.
-/

namespace Dataflow

/-- How often a stage was executed. -/
def PlanReport.executions (r : PlanReport) (s : StageId) : Nat :=
  (r.stages.map StageReport.stage).count s

/-- How often a task was executed. -/
def PlanReport.evaluations (r : PlanReport) (t : TaskId) : Nat :=
  ((r.stages.flatMap StageReport.executed).map ExecutedTask.task).count t

namespace Plan

variable {ω : Type} {p : Plan} {b : Behaviour ω} {config : ExecutorConfig} {s x : StageId}
  {m m' : Machine ω} {a : Agenda}

/-! ## One stage execution -/

/-- What a stage execution that succeeds reports is what its push has done. -/
theorem exists_push (hp : p.IsOrderly s) {report : StageReport}
    (hrun : p.executeStage b config s m = (.ok report, m')) : ∃ w,
      Workspace.push p b s m.state (m.entering p s) = .ok () w ∧ report = w.run.report p s ∧
        w.ledger.Later m'.ledger := by
  have hending := executeStage_ending p b config s m
  rw [hrun] at hending
  cases hending with
  | @completes w m₁ m₂ hpush hpublish hrelease =>
    obtain ⟨-, -, ho⟩ := publish_overrides hp hpush hpublish
    exact ⟨w, hpush, rfl, ho.later.trans ((Machine.giveBack_ends w.run m₁).ok hrelease).1⟩

/-- Such a push has ended with no task ready. -/
theorem exists_spent (hp : p.IsOrderly s) {report : StageReport}
    (hrun : p.executeStage b config s m = (.ok report, m')) : ∃ done w,
      Workspace.Spent p b s m.state m.ledger done w ∧ report = w.run.report p s ∧
        w.ledger.Later m'.ledger := by
  obtain ⟨w, hpush, rfl, hl⟩ := exists_push hp hrun
  obtain ⟨done, hw⟩ := (Workspace.push_spread hp rfl).ok hpush
  exact ⟨done, w, hw, rfl, hl⟩

/-- Only tasks of the stage are executed, and none of them twice. -/
theorem executeStage_some (hp : p.IsOrderly s) {report : StageReport}
    (hrun : p.executeStage b config s m = (.ok report, m')) : report.stage = s ∧
      (report.executed.map ExecutedTask.task).Nodup ∧
      ∀ t ∈ report.executed.map ExecutedTask.task, t ∈ (p.stage s).tasks := by
  obtain ⟨done, w, hw, rfl, -⟩ := exists_spent hp hrun
  have hdone : (w.run.report p s).executed.map ExecutedTask.task = done := hw.once.executed
  rw [hdone]
  exact ⟨rfl, (List.nodup_append.mp hw.once.nodup).1,
    fun t ht => hw.once.tasks t (List.mem_append_left _ ht)⟩

/-- What a task without loop roles reads from other stages is published when the task could run. -/
theorem published_of_inboundReady {t : TaskId} (hplain : (p.graph.task t).operator.loopRoles = none)
    {memory : ω} {state : ExecutionState} (h : p.inboundReady b memory state t = true) {i : Nat}
    {c : ChannelId} (hc : (p.graph.task t).inputChannel i = some c)
    (hx : p.isFedExternally t i = true) : (state.get? c).isSome = true := by
  unfold inboundReady readiness at h
  simp only [hplain] at h
  split at h
  · rename_i hall
    have hi := List.all_eq_true.mp hall i (List.mem_range.mpr (lt_length_of_inputChannel hc))
    rw [hx, hc] at hi
    have hcontains : state.contains c = true := by simpa using hi
    unfold ExecutionState.contains at hcontains
    rwa [Std.TreeMap.contains_eq_isSome_getElem?] at hcontains
  · exact absurd h (by simp)

/-- Every activation of a stage execution has emitted on every connected output. -/
def EmitsFully (p : Plan) (l : Ledger) (report : StageReport) : Prop :=
  ∀ x ∈ report.executed, ∀ o c, (p.graph.task x.task).outputChannel o = some c →
    c ∈ report.instances.map fun i => (l.get i).channel

/-- So do operators that always emit on all outputs. -/
theorem emitsFully_of_emitsAll (hp : p.IsOrderly s)
    (hemits : ∀ t ∈ (p.stage s).tasks, b.EmitsAll p.graph t) {report : StageReport}
    (hrun : p.executeStage b config s m = (.ok report, m')) : p.EmitsFully m'.ledger report := by
  obtain ⟨done, w, hw, rfl, hl⟩ := exists_spent hp hrun
  intro x hx o c hc
  have hdone : x.task ∈ done := hw.once.executed ▸ List.mem_map_of_mem hx
  obtain ⟨i, hi, hchannel⟩ := hw.emitted x.task hdone
    (hemits _ (hw.once.tasks _ (List.mem_append_left _ hdone))) o c hc
  exact List.mem_map.mpr ⟨i, hi, (hw.once.channel_eq hl i hi).trans hchannel⟩

/-- **A stage that can be executed executes all its tasks**, provided that it has no loop head and
that its operators emit on all outputs. -/
theorem executeStage_all (hp : p.IsOrderly s) (hplain : p.IsPlain s)
    (hx : p.isExecutable b a m s = true) {report : StageReport}
    (hrun : p.executeStage b config s m = (.ok report, m')) (hemits : p.EmitsFully m'.ledger report) :
    (report.executed.map ExecutedTask.task).Perm (p.stage s).tasks ∧ report.unexecuted = [] := by
  obtain ⟨done, w, hw, rfl, hl⟩ := exists_spent hp hrun
  have hdone : (w.run.report p s).executed.map ExecutedTask.task = done := hw.once.executed
  have hready := (isExecutable_eq_true_iff.mp hx).2.2
  have hperm : done.Perm (p.stage s).tasks := by
    refine hw.all_done hplain (fun t ht i c hc hext =>
      published_of_inboundReady (hplain.plain t ht) (hready t ht) hc hext) fun t ht o c hc => ?_
    obtain ⟨x, hx, rfl⟩ := List.mem_map.mp (hdone ▸ ht)
    obtain ⟨i, hi, hchannel⟩ := List.mem_map.mp (hemits x hx o c hc)
    exact ⟨i, hi, (hw.once.channel_eq hl i hi).symm.trans hchannel⟩
  refine ⟨hdone ▸ hperm, unexecuted_report fun t ht => ?_⟩
  rw [hw.once.executed]
  exact hperm.mem_iff.mpr ht

/-! ## Stages outside of bodies -/

/-- A stage that is in no body and has no loop head is pending until it has been executed. -/
theorem isPending_rearm_outside {memory : ω} (hhead : (p.stage x).loopHead = none)
    (hout : (p.stage x).loopHeadStage = none) : (p.rearm b memory s a).isPending x = true ↔
      a.isPending x = true ∧ x ≠ s := by
  have hbody : ∀ y, p.isInBodyOf y x = false := fun y => by
    unfold isInBodyOf
    rw [hout]
    rfl
  have hrearmBody : ∀ a : Agenda, (p.rearmBody b memory s a).isPending x = a.isPending x :=
    fun a => by
      unfold rearmBody
      split <;> simp [Agenda.isPending_setWhere, hbody]
  have hrearmHead : ∀ (y : StageId) (a : Agenda),
      (p.rearmHead b memory y a).isPending x = a.isPending x := fun y a => by
    unfold rearmHead
    simp only
    split
    · rename_i h
      have hne : x ≠ y := by
        rintro rfl
        have hrunning := (Bool.and_eq_true_iff.mp h).2
        unfold headState at hrunning
        rw [hhead] at hrunning
        exact absurd hrunning (by simp)
      rw [Agenda.isPending_setWhere, if_neg fun h => hne (beq_iff_eq.mp h.2)]
    · rfl
  unfold rearm
  simp only
  split
  · rw [hrearmHead, hrearmBody, isPending_done]
  · rw [hrearmBody, isPending_done]

/-- **A stage that is in no body and has no loop head is executed once**, and pending before that. -/
theorem midway_executions (horderly : ∀ s < p.stages.length, p.IsOrderly s)
    (hhead : (p.stage x).loopHead = none) (hout : (p.stage x).loopHeadStage = none)
    (hx : x < p.stages.length) : ∀ {n : Nat} {here : Midway ω}, p.midway b config m n = some here →
      (here.reports.map StageReport.stage).count x = if here.agenda.isPending x then 0 else 1
  | 0, here, h => by
    obtain rfl := Option.some.inj h
    rw [if_pos (Agenda.isPending_allPending.mpr hx)]
    rfl
  | n + 1, there, h => by
    obtain ⟨here, s, report, hhere, hnext, hrun, ha, hreports⟩ := midway_succ h
    have hcount := midway_executions horderly hhead hout hx hhere
    obtain ⟨hstage, -⟩ := executeStage_some (horderly s (nextExecutable_lt hnext)) hrun
    have hpending : (p.rearm b there.machine.memory s here.agenda).isPending x = true ↔
        here.agenda.isPending x = true ∧ x ≠ s := isPending_rearm_outside hhead hout
    rw [hreports, ha, List.map_append, List.count_append, List.map_singleton, hstage, hcount]
    by_cases hs : s = x
    · subst hs
      have hnot : ¬ (p.rearm b there.machine.memory s here.agenda).isPending s = true :=
        fun h => (hpending.mp h).2 rfl
      rw [if_pos (isPending_of_nextExecutable hnext), if_neg hnot, List.count_singleton_self]
    · have hsame : (p.rearm b there.machine.memory s here.agenda).isPending x = true ↔
          here.agenda.isPending x = true := hpending.trans (and_iff_left (Ne.symm hs))
      have hother : ¬ (s == x) = true := fun h => hs (beq_iff_eq.mp h)
      rw [if_congr hsame rfl rfl, List.count_singleton, if_neg hother, Nat.add_zero]

/-! ## Whole plans -/

/-- A task that is no loop head is executed as often as its stage is. -/
theorem midway_evaluations (horderly : ∀ s < p.stages.length, p.IsOrderly s)
    (hplain : p.IsPlain x) (hemits : ∀ t ∈ (p.stage x).tasks, b.EmitsAll p.graph t) {t : TaskId}
    (ht : t ∈ (p.stage x).tasks) : ∀ {n : Nat} {here : Midway ω}, p.midway b config m n = some here →
      ((here.reports.flatMap StageReport.executed).map ExecutedTask.task).count t =
        (here.reports.map StageReport.stage).count x
  | 0, here, h => by
    obtain rfl := Option.some.inj h
    rfl
  | n + 1, there, h => by
    obtain ⟨here, s, report, hhere, hnext, hrun, -, hreports⟩ := midway_succ h
    have hs := horderly s (nextExecutable_lt hnext)
    obtain ⟨hstage, -, htasks⟩ := executeStage_some hs hrun
    have hone : (report.executed.map ExecutedTask.task).count t = [s].count x := by
      by_cases heq : s = x
      · subst heq
        have hperm := (executeStage_all hs hplain (isExecutable_of_nextExecutable hnext) hrun
          (emitsFully_of_emitsAll hs hemits hrun)).1
        rw [hperm.count_eq, List.count_eq_one_of_mem hplain.nodup ht, List.count_singleton_self]
      · rw [List.count_singleton, if_neg (by simpa using heq), List.count_eq_zero]
        intro hmem
        -- a task is in one stage only
        have hplace := ((hs.placed t).mpr (htasks t hmem)).symm.trans ((hplain.placed t).mpr ht)
        exact heq (Option.some.inj hplace)
    rw [hreports, List.flatMap_append, List.flatMap_singleton, List.map_append, List.map_append,
      List.count_append, List.count_append, List.map_singleton, hstage, hone,
      midway_evaluations horderly hplain hemits ht hhere]

end Plan

namespace PreliminaryPlan

variable {ω : Type} {p : PreliminaryPlan} {plan : Plan} {b : Behaviour ω}
  {config : ExecutorConfig} {m m' : Machine ω}

/-- The operator of a task emits in the plan as it does in the graph. -/
theorem emitsAll_of_assign (hg : p.graph.Built) (h : p.assign = .ok plan) {t : TaskId}
    (hb : b.EmitsAll p.graph t) : b.EmitsAll plan.graph t := by
  obtain ⟨r, -, hfin⟩ := finished_of_assign hg h
  have hout := hfin.outputs t
  intro ctx memory htask hcount hresult o c hc
  rw [hfin.operator] at hresult ⊢
  rw [hout] at hcount
  unfold Task.outputChannel at hc
  rw [hout] at hc
  exact hb ctx memory htask hcount hresult o c hc

/-- A stage with a task that is no loop head has none and is plain. -/
theorem isPlain_of_assign (hg : p.graph.Built) (h : p.assign = .ok plan) {s : StageId} {t : TaskId}
    (ht : t ∈ (plan.stage s).tasks) (hhead : (p.graph.task t).isLoopHead = false) :
    s < plan.stages.length ∧ plan.IsPlain s ∧ (plan.stage s).loopHead = none ∧
      ∀ u ∈ (plan.stage s).tasks, (p.graph.task u).isLoopHead = false := by
  obtain ⟨hs, hfed, hacyclic, -⟩ := assign_eq_ok hg h
  obtain ⟨r, -, hfin⟩ := finished_of_assign hg h
  have hscope := isScope_plannedTasks hg.wired hs
  obtain ⟨htp, hplace⟩ := (hfin.mem_stage hscope).mp ht
  have hlt : s < r.count := hplace ▸ hfin.resolved.place_lt_count hscope htp
  have hplain : ∀ u ∈ (plan.stage s).tasks, (p.graph.task u).isLoopHead = false := fun u hu => by
    rcases (hfin.joined hscope hlt ht hu).eq_or with rfl | ⟨-, huno⟩
    · exact hhead
    · exact huno
  refine ⟨hfin.length_stages ▸ hlt, ?_, ?_, hplain⟩
  · exact hfin.isPlain hg.wired hg.unplaced hscope ((acyclic_iff_grounded hg.wired hs).mp hacyclic)
      (fun u hu => hfed u ((mem_plannedTasks hg.wired hs).mp hu)) hlt hplain
  · refine Option.eq_none_iff_forall_ne_some.mpr fun u hu => ?_
    obtain ⟨hmem, huhead⟩ := (hfin.loopHead_eq_some hscope).mp hu
    rw [hplain u hmem] at huhead
    exact absurd huhead (by simp)

/-- **How often a task is executed** by a plan execution that succeeds, with operators that emit on
all outputs: a task that is no loop head as often as its stage, and once if the stage is in the body
of no loop. -/
theorem execute_rounds (hg : p.graph.Built) (h : p.assign = .ok plan)
    (hb : ∀ t, p.Needs t → (p.graph.task t).isLoopHead = false → b.EmitsAll p.graph t)
    {report : PlanReport} (hrun : plan.execute b config m = (.ok report, m')) {s : StageId}
    {t : TaskId} (ht : t ∈ (plan.stage s).tasks) (hhead : (p.graph.task t).isLoopHead = false) :
    report.evaluations t = report.executions s ∧
      ((∀ head, ¬ p.InBody plan head s) → report.evaluations t = 1) := by
  obtain ⟨hs, -⟩ := assign_eq_ok hg h
  obtain ⟨r, -, hfin⟩ := finished_of_assign hg h
  obtain ⟨hlt, hplain, hnone, hheads⟩ := isPlain_of_assign hg h ht hhead
  have horderly : ∀ s < plan.stages.length, plan.IsOrderly s := fun s hs =>
    (isOrderly_of_assign hg h hs).1
  have hemits : ∀ u ∈ (plan.stage s).tasks, b.EmitsAll plan.graph u := fun u hu =>
    emitsAll_of_assign hg h (hb u (needs_of_mem_stage hg h hu) (hheads u hu))
  obtain ⟨n, here, hhere, hstages, hrest⟩ := Plan.exists_midway_of_execute hrun
  have hsame : report.evaluations t = report.executions s := by
    unfold PlanReport.evaluations PlanReport.executions
    rw [hstages]
    exact Plan.midway_evaluations horderly hplain hemits ht hhere
  refine ⟨hsame, fun hout => ?_⟩
  have hbody := (hfin.loopHeadStage_eq_none_iff hg hs (hfin.length_stages ▸ hlt)).mpr hout
  rw [hsame]
  unfold PlanReport.executions
  rw [hstages, Plan.midway_executions horderly hnone hbody hlt hhere, hrest, if_neg (by simp)]

end PreliminaryPlan

/-! ## A source inside a loop -/

/-- An operator that adds up emits on all outputs, also beside a loop operator. -/
theorem emitsAll_adding {g : TaskGraph} {t : TaskId} {o : ObjectId}
    (hne : (g.task t).operator.object ≠ o) : (adding.withLoop o).EmitsAll g t := by
  intro ctx l _ hcount _ k c hc
  have hk : k < ctx.outputCount := by
    rw [hcount]
    by_contra hge
    unfold Task.outputChannel at hc
    rw [List.getElem?_eq_none (Nat.le_of_not_lt hge)] at hc
    exact absurd hc (by simp)
  refine ⟨{ payload := sumUp ctx.payloads }, ?_⟩
  unfold Behaviour.withLoop
  simp only [if_neg hne]
  exact List.getElem?_replicate_of_lt hk

/-- A loop whose body reads a source of its own. -/
def sideReader : PreliminaryPlan := .ofGraph
  ((((((((((((TaskGraph.empty.addTask
    { object := 0, name := "read", platform := ⟨"a"⟩, inputs := [], outputs := [.any] }).addTask
    (twice.declaration 1)).addTask
    { object := 2, name := "side", platform := ⟨"a"⟩, inputs := [], outputs := [.any] }).addTask
    { object := 3, name := "step", platform := ⟨"a"⟩, inputs := [.any, .any],
      outputs := [.any] }).addTask
    { object := 4, name := "show", platform := ⟨"a"⟩, inputs := [.any], outputs := [] }).wire
      0 0 1 0 .collection).wire 0 0 1 1 .collection).wire 1 0 3 0 .collection).wire
      2 0 3 1 .collection).wire 3 0 1 2 .collection).wire 3 0 1 3 .collection).wire
      1 2 4 0 .collection)

theorem built_sideReader : sideReader.graph.Built :=
  .wire (.wire (.wire (.wire (.wire (.wire (.wire (.addTask _ (.addTask _ (.addTask _
    (.addTask _ (.addTask _ .empty))))) rfl) rfl) rfl) rfl) rfl) rfl) rfl

theorem emitsAll_sideReader (t : TaskId) (ht : t ≠ 1) :
    (adding.withLoop 1).EmitsAll sideReader.graph t := by
  refine emitsAll_adding ?_
  rcases t with _ | _ | _ | _ | _ | t
  · decide +kernel
  · exact absurd rfl ht
  · decide +kernel
  · decide +kernel
  · decide +kernel
  · exact Nat.zero_ne_one

/-- An execution of it, with at most two iterations. -/
theorem sideReader_execute : ∃ plan report m', sideReader.assign = .ok plan ∧
    plan.execute (adding.withLoop 1) {} { memory := twice } = (.ok report, m') ∧
    (plan.stage 2).tasks = [2, 3] ∧ (plan.stage 3).tasks = [4] ∧
    (plan.stage 3).loopHeadStage = none ∧ report.evaluations 2 = 2 := by
  obtain ⟨plan, h, hbody, hbehind, hloop, hreport⟩ : ∃ plan, sideReader.assign = .ok plan ∧
      (plan.stage 2).tasks = [2, 3] ∧ (plan.stage 3).tasks = [4] ∧
      (plan.stage 3).loopHeadStage = none ∧
      (plan.execute (adding.withLoop 1) {} { memory := twice }).1.map
        (fun report => report.evaluations 2) = .ok 2 :=
    PreliminaryPlan.exists_assign_of_decide (by decide +kernel)
  rcases hrun : plan.execute (adding.withLoop 1) {} { memory := twice } with ⟨_ | report, m'⟩
  · rw [hrun] at hreport
    exact absurd hreport nofun
  · rw [hrun] at hreport
    exact ⟨plan, report, m', h, hrun, hbody, hbehind, hloop, Except.ok.inj hreport⟩

/-- The source of the body is executed twice, though no loop head leads to it. -/
theorem sideReader_twice : ∃ plan report m', sideReader.assign = .ok plan ∧
    (∀ t, t ≠ 1 → (adding.withLoop 1).EmitsAll sideReader.graph t) ∧
    plan.execute (adding.withLoop 1) {} { memory := twice } = (.ok report, m') ∧
    2 ∈ (plan.stage 2).tasks ∧
    (∀ head, (sideReader.graph.task head).isLoopHead = true →
      ¬ Relation.ReflTransGen (fun u v => ∃ o, sideReader.graph.Reads v u o) head 2) ∧
    report.evaluations 2 = 2 := by
  obtain ⟨plan, report, m', hplan, hrun, hbody, -, -, htwice⟩ := sideReader_execute
  refine ⟨plan, report, m', hplan, emitsAll_sideReader, hrun, ?_, fun head hhead hpath => ?_, htwice⟩
  · rw [hbody]
    exact List.mem_cons_self
  · rcases Relation.ReflTransGen.cases_tail hpath with rfl | ⟨u, -, o, i, c, hc, -⟩
    · exact absurd hhead (by decide +kernel)
    · have hnone : (sideReader.graph.task 2).inputs = [] := by decide +kernel
      unfold Task.inputChannel at hc
      rw [hnone] at hc
      exact absurd hc (by simp)

/-- Its stage is executed twice, and the one behind the loop once. -/
theorem sideReader_rounds : ∃ plan report m', sideReader.assign = .ok plan ∧
    plan.execute (adding.withLoop 1) {} { memory := twice } = (.ok report, m') ∧
    2 ∈ (plan.stage 2).tasks ∧ report.evaluations 2 = report.executions 2 ∧
    4 ∈ (plan.stage 3).tasks ∧ report.evaluations 4 = 1 := by
  obtain ⟨plan, report, m', hplan, hrun, hbody, hbehind, hloop, -⟩ := sideReader_execute
  have hemits : ∀ t, sideReader.Needs t → (sideReader.graph.task t).isLoopHead = false →
      (adding.withLoop 1).EmitsAll sideReader.graph t := fun t _ hhead =>
    emitsAll_sideReader t fun heq => by
      rw [heq] at hhead
      exact absurd hhead (by decide +kernel)
  have hside : 2 ∈ (plan.stage 2).tasks := hbody ▸ List.mem_cons_self
  have hshow : 4 ∈ (plan.stage 3).tasks := hbehind ▸ List.mem_cons_self
  obtain ⟨hs, -⟩ := PreliminaryPlan.assign_eq_ok built_sideReader hplan
  obtain ⟨r, -, hfin⟩ := PreliminaryPlan.finished_of_assign built_sideReader hplan
  obtain ⟨hlt, -⟩ := PreliminaryPlan.isPlain_of_assign built_sideReader hplan hshow (by decide +kernel)
  have hout := (hfin.loopHeadStage_eq_none_iff built_sideReader hs (hfin.length_stages ▸ hlt)).mp hloop
  obtain ⟨hsame, -⟩ := PreliminaryPlan.execute_rounds built_sideReader hplan hemits hrun hside
    (by decide +kernel)
  obtain ⟨-, honce⟩ := PreliminaryPlan.execute_rounds built_sideReader hplan hemits hrun hshow
    (by decide +kernel)
  exact ⟨plan, report, m', hplan, hrun, hside, hsame, hshow, honce hout⟩

end Dataflow
