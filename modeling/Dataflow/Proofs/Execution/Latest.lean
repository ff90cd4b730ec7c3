import Dataflow.Proofs.Execution.Atomic
import Dataflow.Proofs.Execution.Drive
import Dataflow.Proofs.Loop.Outcome

/-!
# What a plan execution reads

Between stages an instance is read through the execution state, which keeps it until another one of
the same channel is published. So what a task binds is not always from the last execution of the
stage that feeds it: a task that emits nothing leaves what it emitted before. It is from the last one
that produced an instance for the channel.

The proof follows the state through the stage executions. A success overrides the entries of the
channels on which something was produced, and leaves all others (`Plan.Commits`); a failure is the end
of the execution. So an entry is that of the last stage execution with an instance for its channel,
and the entry is what an activation binds.

* `Plan.ProducedLast`: the instance of a channel that was produced last.
* **`PreliminaryPlan.midway_binds_last`**: what an activation binds.
* `shortLoop_binds_stale`: an instance that is read again.

The last conjunct is the case that one expects, in which the latest execution of a stage has produced
the instance that is bound. For it to hold always, each execution of a stage would have to emit on the
same outputs as the ones before. The state begins empty, for an entry from before the execution would
be bound just the same.
-/

namespace Dataflow

namespace Plan

variable {ω : Type}

/-- The activator that a stage execution turns to after `n` activations. -/
def activator? (p : Plan) (b : Behaviour ω) (s : StageId) (m : Machine ω) (n : Nat) :
    Option Activator :=
  let activations : WorkspaceM ω Unit := do
    Workspace.seed p b s m.state (p.stage s).startTasks
    Workspace.drain p b s m.state n
  match activations (m.entering p s) with
  | .ok _ w => w.run.ready.head?.map Prod.fst
  | .error _ _ => none

section Activator

variable {p : Plan} {b : Behaviour ω} {config : ExecutorConfig} {m : Machine ω}

/-- The activator is one of the stage execution, which has bound what the state publishes. -/
theorem binds_of_activator? {s : StageId} (hp : p.IsOrderly s) {n : Nat} {v : Activator}
    (h : p.activator? b s m n = some v) {i : Nat} (hi : p.isFedExternally v.task i = true) :
    v.inputs[i]? = some (((p.graph.task v.task).inputChannel i).bind m.state.get?) := by
  have honce := @Workspace.push_once ω p b s m.state (m.entering p s) hp rfl n
  unfold activator? at h
  unfold Ends at honce
  simp only at h
  split at h
  · rename_i hw
    simp only [hw] at honce
    obtain ⟨done, hdone⟩ := honce
    obtain ⟨r, hr, rfl⟩ := Option.map_eq_some_iff.mp h
    refine (hdone.binds _ (List.mem_append_right _ ?_)).external i hi
    exact List.mem_map_of_mem (List.mem_of_head? hr)
  · exact absurd h (by simp)

end Activator

/-! ## Produced last -/

/-- Instances of different channels that a stage execution has produced. -/
structure Accounts (p : Plan) (l : Ledger) (report : StageReport) : Prop where
  known : ∀ i ∈ report.instances, i < l.cells.size
  stage : ∀ i ∈ report.instances,
    (p.graph.task (p.graph.channel (l.get i).channel).producer).stage = some report.stage
  channels : (report.instances.map fun i => (l.get i).channel).Nodup

theorem Accounts.later {p : Plan} {l l' : Ledger} {report : StageReport} (h : p.Accounts l report)
    (hl : l.Later l') : p.Accounts l' report := by
  have hchannel : ∀ i ∈ report.instances, (l'.get i).channel = (l.get i).channel := fun i hi =>
    hl.channel i (h.known i hi)
  refine ⟨fun i hi => Nat.lt_of_lt_of_le (h.known i hi) hl.size, fun i hi => ?_, ?_⟩
  · rw [hchannel i hi]
    exact h.stage i hi
  · rw [List.map_congr_left hchannel]
    exact h.channels

/-- The instance of a channel that was produced last: the stage of the producing task was executed
with it as a result, and no later stage execution has another one. -/
def ProducedLast (p : Plan) (l : Ledger) (c : ChannelId) (x : InstanceId)
    (reports : List StageReport) : Prop :=
  ∃ before report after, reports = before ++ report :: after ∧
    (p.graph.task (p.graph.channel c).producer).stage = some report.stage ∧
    x ∈ report.instances ∧ (l.get x).channel = c ∧
    ∀ r ∈ after, ∀ y ∈ r.instances, (l.get y).channel ≠ c

section ProducedLast

variable {p : Plan} {l l' : Ledger} {c : ChannelId} {x : InstanceId} {reports : List StageReport}

/-- It stays the last one while others of other channels are produced. -/
theorem ProducedLast.append (h : p.ProducedLast l c x reports)
    (hknown : ∀ r ∈ reports, p.Accounts l r) (hl : l.Later l') {report : StageReport}
    (hreport : c ∉ report.instances.map fun i => (l'.get i).channel) :
    p.ProducedLast l' c x (reports ++ [report]) := by
  obtain ⟨before, r, after, rfl, hstage, hx, hc, hafter⟩ := h
  have hchannel : ∀ q ∈ before ++ r :: after, ∀ y ∈ q.instances,
      (l'.get y).channel = (l.get y).channel := fun q hq y hy =>
    hl.channel y ((hknown q hq).known y hy)
  refine ⟨before, r, after ++ [report], by simp, hstage, hx, ?_, fun q hq y hy => ?_⟩
  · rw [hchannel r (List.mem_append_right _ List.mem_cons_self) x hx, hc]
  · rcases List.mem_append.mp hq with hq | hq
    · rw [hchannel q (List.mem_append_right _ (List.mem_cons_of_mem _ hq)) y hy]
      exact hafter q hq y hy
    · obtain rfl := List.mem_singleton.mp hq
      exact fun heq => hreport (List.mem_map.mpr ⟨y, hy, heq⟩)

/-- If the last execution of the stage has produced an instance of the channel then that is it. -/
theorem ProducedLast.eq_of_last (h : p.ProducedLast l c x reports)
    (hreports : ∀ r ∈ reports, p.Accounts l r) {before after : List StageReport}
    {report : StageReport} (hsplit : reports = before ++ report :: after)
    (hafter : ∀ r ∈ after, r.stage ≠ report.stage) {y : InstanceId} (hy : y ∈ report.instances)
    (hyc : (l.get y).channel = c) : y = x := by
  obtain ⟨before', report', after', rfl, hstage', hx, hxc, hafter'⟩ := h
  have hstage : (p.graph.task (p.graph.channel c).producer).stage = some report.stage := by
    rw [← hyc]
    exact (hreports report (hsplit ▸ List.mem_append_right _ List.mem_cons_self)).stage y hy
  have hsame : report' = report → y = x := by
    rintro rfl
    have hnodup := (hreports report' (List.mem_append_right _ List.mem_cons_self)).channels
    exact List.inj_on_of_nodup_map hnodup hy hx (hyc.trans hxc.symm)
  rcases List.append_eq_append_iff.mp hsplit with ⟨between, -, hlate⟩ | ⟨between, -, hlate⟩
  · cases between with
    | nil => exact hsame (List.cons.inj hlate).1
    | cons r between =>
      -- the other execution is later and has an instance of the channel
      obtain ⟨-, rfl⟩ := List.cons.inj hlate
      exact absurd hyc (hafter' report (List.mem_append_right _ List.mem_cons_self) y hy)
  · cases between with
    | nil => exact hsame (List.cons.inj hlate).1.symm
    | cons r between =>
      -- the execution that produced the instance is later and of the same stage
      obtain ⟨-, rfl⟩ := List.cons.inj hlate
      refine absurd ?_ (hafter report' (List.mem_append_right _ List.mem_cons_self))
      exact Option.some.inj (hstage'.symm.trans hstage)

end ProducedLast

end Plan

/-! ## All stage executions -/

/-- What is published was produced last. -/
structure Plan.Published {ω : Type} (p : Plan) (here : Plan.Midway ω) : Prop where
  known : here.machine.Known
  reports : ∀ r ∈ here.reports, p.Accounts here.machine.ledger r
  outward : ∀ c x, here.machine.state.get? c = some x → p.isOutward c = true
  last : ∀ c x, here.machine.state.get? c = some x →
    p.ProducedLast here.machine.ledger c x here.reports

section Published

variable {ω : Type} {p : Plan} {b : Behaviour ω}

theorem Plan.Commits.accounts {s : StageId} (hp : p.IsOrderly s) {m m' : Machine ω}
    {report : StageReport} (h : p.Commits s m report m') : p.Accounts m'.ledger report := by
  refine ⟨fun i hi => (h.fresh i hi).2, fun i hi => ?_, h.channels⟩
  obtain ⟨t, ht, hproducer⟩ := List.mem_map.mp (h.produced i hi)
  rw [← hproducer, h.stage]
  exact (hp.placed _).mpr (h.executed t ht)

/-- A stage execution publishes what it has produced, and what was produced last is published. -/
theorem Plan.Published.step {s : StageId} (hp : p.IsOrderly s) {config : ExecutorConfig}
    {here there : Plan.Midway ω} (h : p.Published here) {report : StageReport}
    (hrun : p.executeStage b config s here.machine = (.ok report, there.machine))
    (hreports : there.reports = here.reports ++ [report]) : p.Published there := by
  obtain ⟨hl, hknown, hcommits, -⟩ := executeStage_commits hp config h.known hrun
  have hc := hcommits report rfl
  have haccounts := hc.accounts hp
  have hpublished : ∀ c x, there.machine.state.get? c = some x → p.isOutward c = true ∧
      p.ProducedLast there.machine.ledger c x there.reports := by
    intro c x hx
    rw [hreports]
    by_cases hnew : c ∈ report.instances.map (fun i => (there.machine.ledger.get i).channel) ∧
        p.isOutward c = true
    · obtain ⟨hmem, hout⟩ := hnew
      obtain ⟨i, hi, rfl⟩ := List.mem_map.mp hmem
      rw [hc.outward i hi hout] at hx
      obtain rfl := Option.some.inj hx
      exact ⟨hout, here.reports, report, [], rfl, haccounts.stage i hi, hi, rfl, nofun⟩
    · have hx' := hx
      rw [hc.others c hnew] at hx'
      have hout := h.outward c x hx'
      exact ⟨hout, (h.last c x hx').append h.reports hl fun hmem => hnew ⟨hmem, hout⟩⟩
  refine ⟨hknown, fun r hr => ?_, fun c x hx => (hpublished c x hx).1,
    fun c x hx => (hpublished c x hx).2⟩
  rw [hreports] at hr
  rcases List.mem_append.mp hr with hr | hr
  · exact (h.reports r hr).later hl
  · rw [List.mem_singleton.mp hr]
    exact haccounts

end Published

namespace PreliminaryPlan

variable {ω : Type} {p : PreliminaryPlan} {plan : Plan} {b : Behaviour ω}
  {config : ExecutorConfig} {m : Machine ω}

/-- Whenever a plan execution stands between two stage executions, what is published was produced
last. -/
theorem published_midway (hg : p.graph.Built) (h : p.assign = .ok plan)
    (hs : m.state.isEmpty = true) : ∀ {n : Nat} {here : Plan.Midway ω},
      plan.midway b config m n = some here → plan.Published here
  | 0, here, hhere => by
    obtain rfl := Option.some.inj hhere
    have hnone := Machine.get?_of_isEmpty hs
    refine ⟨fun c x hx => ?_, nofun, fun c x hx => ?_, fun c x hx => ?_⟩ <;>
      exact absurd (hx.symm.trans (hnone c)) (by simp)
  | n + 1, there, hthere => by
    obtain ⟨here, s, report, hhere, hnext, hrun, -, hreports⟩ := Plan.midway_succ hthere
    have horderly := (isOrderly_of_assign hg h (Plan.nextExecutable_lt hnext)).1
    exact (published_midway hg h hs hhere).step horderly hrun hreports

/-- **What an activation binds from another stage was produced last**: it is from the latest stage
execution that produced an instance of the channel. When the latest execution of the producing stage
did so, it is from that one. -/
theorem midway_binds_last (hg : p.graph.Built) (h : p.assign = .ok plan)
    (hs : m.state.isEmpty = true) {n : Nat} {here : Plan.Midway ω}
    (hhere : plan.midway b config m n = some here) {s : StageId}
    (hnext : plan.nextExecutable b here.agenda here.machine = some s) {k : Nat} {v : Activator}
    (hv : plan.activator? b s here.machine k = some v) {i : Nat}
    (hi : plan.isFedExternally v.task i = true) {x : InstanceId}
    (hx : v.inputs[i]? = some (some x)) : ∃ c, (plan.graph.task v.task).inputChannel i = some c ∧
      plan.ProducedLast here.machine.ledger c x here.reports ∧
      ∀ before report after y, here.reports = before ++ report :: after →
        (∀ r ∈ after, r.stage ≠ report.stage) → y ∈ report.instances →
        (here.machine.ledger.get y).channel = c → y = x := by
  have horderly := (isOrderly_of_assign hg h (Plan.nextExecutable_lt hnext)).1
  have hpublished := published_midway hg h hs hhere
  rw [Plan.binds_of_activator? horderly hv hi] at hx
  obtain ⟨c, hc, hget⟩ := Option.bind_eq_some_iff.mp (Option.some.inj hx)
  have hlast := hpublished.last c x hget
  exact ⟨c, hc, hlast, fun before report after y hsplit hafter hy hyc =>
    hlast.eq_of_last hpublished.reports hsplit hafter hy hyc⟩

end PreliminaryPlan

/-! ## A body that stops emitting -/

/-- Two iterations at most. -/
def twice : LoopOperator := { untilFour with maxIterations := some 2 }

/-- A loop whose body is a single task. -/
def shortLoop : PreliminaryPlan := .ofGraph
  ((((((((((TaskGraph.empty.addTask
    { object := 0, name := "read", platform := ⟨"a"⟩, inputs := [], outputs := [.any] }).addTask
    (twice.declaration 1)).addTask
    { object := 2, name := "step", platform := ⟨"a"⟩, inputs := [.any], outputs := [.any] }).addTask
    { object := 3, name := "show", platform := ⟨"a"⟩, inputs := [.any], outputs := [] }).wire
      0 0 1 0 .collection).wire 0 0 1 1 .collection).wire 1 0 2 0 .collection).wire
      2 0 1 2 .collection).wire 2 0 1 3 .collection).wire 1 2 3 0 .collection)

theorem built_shortLoop : shortLoop.graph.Built :=
  .wire (.wire (.wire (.wire (.wire (.wire (.addTask _ (.addTask _ (.addTask _
    (.addTask _ .empty)))) rfl) rfl) rfl) rfl) rfl) rfl

/-- Every operator adds up its inputs and emits the result, but for three. -/
def fading : Behaviour Unit where
  prepare _ _ m := { result := .ok (), memory := m }
  evaluate _ ctx m :=
    { result := .ok (), memory := m
      emissions := match sumUp ctx.payloads with
        | .number 3 => Emissions.none ctx.outputCount
        | y => List.replicate ctx.outputCount (some { payload := y }) }
  loopState _ _ := .notStarted
  advance _ _ m := (.ok .notStarted, m)

/-- The loop head comes to its second iteration: the body was executed twice and has emitted once. -/
theorem shortLoop_midway : ∃ plan here, shortLoop.assign = .ok plan ∧
    plan.midway (fading.withLoop 1) {} { memory := twice } 5 = some here ∧
    plan.nextExecutable (fading.withLoop 1) here.agenda here.machine = some 1 ∧
    plan.activator? (fading.withLoop 1) 1 here.machine 0 =
      some ⟨1, [some 0, some 0, some 2, some 2]⟩ ∧
    plan.isFedExternally 1 2 = true ∧
    (here.reports.map fun r => (r.stage, r.instances)) =
      [(0, [0]), (1, [1]), (2, [2]), (1, [3]), (2, [])] ∧
    (plan.graph.task (plan.graph.channel (here.machine.ledger.get 2).channel).producer).stage =
      some 2 := by
  have hnext : (shortLoop.assign.map fun plan => (plan.isFedExternally 1 2,
      (plan.midway (fading.withLoop 1) {} { memory := twice } 5).map fun here =>
        (plan.nextExecutable (fading.withLoop 1) here.agenda here.machine,
          plan.activator? (fading.withLoop 1) 1 here.machine 0))) =
      .ok (true, some (some 1, some ⟨1, [some 0, some 0, some 2, some 2]⟩)) := by decide +kernel
  have hpast : (shortLoop.assign.map fun plan =>
      (plan.midway (fading.withLoop 1) {} { memory := twice } 5).map fun here =>
        (here.reports.map fun r => (r.stage, r.instances),
          (plan.graph.task
            (plan.graph.channel (here.machine.ledger.get 2).channel).producer).stage)) =
      .ok (some ([(0, [0]), (1, [1]), (2, [2]), (1, [3]), (2, [])], some 2)) := by decide +kernel
  cases h : shortLoop.assign with
  | error e =>
    rw [h] at hnext
    exact absurd hnext (by simp [Except.map])
  | ok plan =>
    rw [h] at hnext hpast
    obtain ⟨hfed, hnext⟩ := Prod.mk.inj (Except.ok.inj hnext)
    obtain ⟨here, hhere, hnext⟩ := Option.map_eq_some_iff.mp hnext
    obtain ⟨here', hhere', hpast⟩ := Option.map_eq_some_iff.mp (Except.ok.inj hpast)
    obtain rfl := Option.some.inj (hhere.symm.trans hhere')
    obtain ⟨hnext, hactivator⟩ := Prod.mk.inj hnext
    obtain ⟨hreports, hstage⟩ := Prod.mk.inj hpast
    exact ⟨plan, here, rfl, hhere, hnext, hactivator, hfed, hreports, hstage⟩

/-- The instance that the loop head binds is not from the last execution of the body. -/
theorem shortLoop_binds_stale : ∃ plan here v before report, shortLoop.assign = .ok plan ∧
    plan.midway (fading.withLoop 1) {} { memory := twice } 5 = some here ∧
    plan.nextExecutable (fading.withLoop 1) here.agenda here.machine = some 1 ∧
    plan.activator? (fading.withLoop 1) 1 here.machine 0 = some v ∧
    plan.isFedExternally v.task 2 = true ∧ v.inputs[2]? = some (some 2) ∧
    here.reports = before ++ [report] ∧
    (plan.graph.task (plan.graph.channel (here.machine.ledger.get 2).channel).producer).stage =
      some report.stage ∧ 2 ∉ report.instances := by
  obtain ⟨plan, here, hplan, hhere, hnext, hv, hfed, hreports, hstage⟩ := shortLoop_midway
  obtain ⟨before, after, hsplit, -, hlast⟩ := List.map_eq_append_iff.mp
    (show _ = [(0, [0]), (1, [1]), (2, [2]), (1, [3])] ++ [(2, [])] from hreports)
  obtain ⟨report, rfl, hreport⟩ := List.map_eq_singleton_iff.mp hlast
  obtain ⟨hs, hi⟩ := Prod.mk.inj hreport
  refine ⟨plan, here, _, before, report, hplan, hhere, hnext, hv, hfed, rfl, hsplit, ?_, ?_⟩
  · rw [hs]
    exact hstage
  · rw [hi]
    exact List.not_mem_nil

/-- It was produced last all the same. -/
theorem shortLoop_binds_last : ∃ plan here, shortLoop.assign = .ok plan ∧
    plan.midway (fading.withLoop 1) {} { memory := twice } 5 = some here ∧
    ∃ c, (plan.graph.task 1).inputChannel 2 = some c ∧
      plan.ProducedLast here.machine.ledger c 2 here.reports := by
  obtain ⟨plan, here, hplan, hhere, hnext, hv, hfed, -, -⟩ := shortLoop_midway
  obtain ⟨c, hc, hlast, -⟩ := PreliminaryPlan.midway_binds_last built_shortLoop hplan rfl hhere hnext
    hv hfed (rfl : _ = some (some 2))
  exact ⟨plan, here, hplan, hhere, c, hc, hlast⟩

end Dataflow
