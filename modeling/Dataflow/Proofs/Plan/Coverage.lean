import Dataflow.Proofs.OperatorGraph.Materialize
import Dataflow.Proofs.Plan.StageGraph

/-!
# Which tasks of a whole graph are planned

A graph is planned from its sinks backwards, so a task is assigned to a stage iff channels lead from
it to a task that feeds nothing. What lies aside, as a cycle that nothing reads from, is left out of
the plan without notice. Nothing else is: each task that is left out leads into a cycle, past
left-out tasks only, so that all tasks of a graph without cycles are planned.

The second part is a walk that does not end. A task that is not needed is no sink, since all sinks are
asked for, so it feeds some task (`Built.exists_feeds`), and that one is not needed either. A graph is
finite, so the walk comes back to where it was.

* `PreliminaryPlan.IsWhole`: the plans of a whole graph, wired task by task or made from operators.
* `Built.exists_feeds`: a task that is no sink feeds another one.
* **`assign_covers`**: the tasks that a plan assigns, and those that it leaves out.

A whole graph is meant: with sinks of one's own choosing much more can be left out, and of that
nothing is said here. Left-out tasks are no error, so it is for the caller to compare the stages with
the graph (`besideCycle_leavesOut`). The cycle may lead through body inputs: a loop whose result
nothing reads is left out as a whole (`unreadLoop_covers`).
-/

namespace Dataflow

/-- A task is listed in a stage and says so. -/
def Plan.Assigns (plan : Plan) (t : TaskId) : Prop :=
  ∃ s < plan.stages.length, t ∈ (plan.stage s).tasks ∧ (plan.graph.task t).stage = some s

/-- A task is listed in no stage and has none. -/
def Plan.LeavesOut (plan : Plan) (t : TaskId) : Prop :=
  (∀ s < plan.stages.length, t ∉ (plan.stage s).tasks) ∧ (plan.graph.task t).stage = none

theorem Plan.Assigns.not_leavesOut {plan : Plan} {t : TaskId} (h : plan.Assigns t) :
    ¬ plan.LeavesOut t := by
  obtain ⟨s, hs, hmem, -⟩ := h
  exact fun hout => hout.1 s hs hmem

/-- A task that is no sink feeds a task. -/
theorem TaskGraph.Built.exists_feeds {g : TaskGraph} (hg : g.Built) {t : TaskId}
    (ht : t < g.tasks.length) (hs : t ∉ g.sinks) : ∃ u, g.Feeds t u := by
  by_contra hno
  refine hs (mem_sinks ht fun o c hc => hno ?_)
  obtain ⟨hlt, hproducer, -⟩ := (hg.wired.output_iff t o c).mp hc
  obtain ⟨k, hk⟩ := List.exists_mem_of_ne_nil _ (hg.consumed c hlt)
  exact ⟨k.task, k.input, c, (hg.wired.input_iff k.task k.input c).mpr ⟨hlt, hk⟩, hproducer⟩

theorem TaskGraph.Feeds.lt {g : TaskGraph} {t u : TaskId} (h : g.Feeds t u) :
    u < g.tasks.length := by
  obtain ⟨i, c, hc, -⟩ := h
  exact inputChannel_lt hc

namespace PreliminaryPlan

/-- The plan of a whole graph: each task that feeds nothing is a sink. -/
inductive IsWhole : PreliminaryPlan → Prop
  | ofGraph {g : TaskGraph} (hg : g.Built) : IsWhole (.ofGraph g)
  | ofOperators {g : OperatorGraph} {p : PreliminaryPlan} (h : g.toPreliminaryPlan = .ok p) :
      IsWhole p

/-- What a plan assigns to stages, and what it leaves out. -/
structure Covers (p : PreliminaryPlan) (plan : Plan) : Prop where
  /-- A task is assigned to a stage iff channels lead from it to a sink. -/
  assigns_iff : ∀ t, plan.Assigns t ↔
    ∃ s ∈ p.graph.sinks, Relation.ReflTransGen p.graph.Feeds t s
  /-- The other tasks are left out. -/
  leavesOut : ∀ t, ¬ plan.Assigns t → plan.LeavesOut t
  /-- What a left-out task feeds is left out. -/
  onwards : ∀ t u, plan.LeavesOut t → p.graph.Feeds t u → plan.LeavesOut u
  /-- Each left-out task leads into a cycle. -/
  cycle : ∀ t < p.graph.tasks.length, plan.LeavesOut t →
    ∃ u, Relation.ReflTransGen p.graph.Feeds t u ∧ Relation.TransGen p.graph.Feeds u u
  /-- Where there are no cycles, all tasks are assigned. -/
  acyclic : (∀ t, ¬ Relation.TransGen p.graph.Feeds t t) →
    ∀ t < p.graph.tasks.length, plan.Assigns t

section Coverage

variable {p : PreliminaryPlan} {plan : Plan}

theorem IsWhole.built (h : p.IsWhole) : p.graph.Built := by
  cases h with
  | ofGraph hg => exact hg
  | ofOperators h =>
    exact OperatorGraph.toTaskGraph_built (OperatorGraph.toPreliminaryPlan_eq_ok h).1

theorem IsWhole.sinks (h : p.IsWhole) : p.sinks = p.graph.sinks := by
  cases h with
  | ofGraph => rfl
  | ofOperators h =>
    rw [(OperatorGraph.toPreliminaryPlan_eq_ok h).2]
    rfl

/-- The needed tasks are those that are assigned to stages. -/
theorem assigns_iff_needs (hg : p.graph.Built) (h : p.assign = .ok plan) {t : TaskId} :
    plan.Assigns t ↔ p.Needs t := by
  obtain ⟨hs, -⟩ := assign_eq_ok hg h
  obtain ⟨r, -, hfin⟩ := finished_of_assign hg h
  have hscope := isScope_plannedTasks hg.wired hs
  unfold Plan.Assigns
  rw [← mem_plannedTasks hg.wired hs, hfin.length_stages]
  constructor
  · rintro ⟨s, hlt, hmem, -⟩
    exact ((hfin.mem_tasks hlt).mp hmem).1
  · intro ht
    have hlt := hfin.resolved.place_lt_count hscope ht
    exact ⟨r.place t, hlt, (hfin.mem_tasks hlt).mpr ⟨ht, rfl⟩, hfin.stage_of_mem ht⟩

/-- The tasks that are not needed are left out. -/
theorem leavesOut_of_not_needs (hg : p.graph.Built) (h : p.assign = .ok plan) {t : TaskId}
    (ht : ¬ p.Needs t) : plan.LeavesOut t := by
  obtain ⟨hs, -⟩ := assign_eq_ok hg h
  obtain ⟨r, -, hfin⟩ := finished_of_assign hg h
  rw [← mem_plannedTasks hg.wired hs] at ht
  refine ⟨fun s hlt hmem => ht ((hfin.mem_tasks (hfin.length_stages ▸ hlt)).mp hmem).1, ?_⟩
  rw [hfin.task, if_neg ht]
  exact hg.unplaced t

/-- A task that no sink depends on leads into a cycle: it is no sink itself, and neither is any task
that it leads to. -/
theorem exists_cycle_of_not_needs (hg : p.graph.Built) (hsinks : p.sinks = p.graph.sinks)
    {t : TaskId} (hlt : t < p.graph.tasks.length) (ht : ¬ p.Needs t) :
    ∃ u, Relation.ReflTransGen p.graph.Feeds t u ∧ Relation.TransGen p.graph.Feeds u u := by
  have hwalk : ∀ u, Relation.ReflTransGen p.graph.Feeds t u → u < p.graph.tasks.length := by
    intro u hu
    cases hu with
    | refl => exact hlt
    | tail _ hfeeds => exact hfeeds.lt
  refine Digraph.exists_cycle_of_endless hwalk fun u hu => hg.exists_feeds (hwalk u hu) fun hs => ?_
  exact ht ⟨u, hsinks ▸ hs, hu⟩

/-- **The plan of a whole graph assigns the tasks from which a sink can be reached**, and leaves out
the others, each of which leads into a cycle of such tasks. -/
theorem assign_covers (hp : p.IsWhole) (h : p.assign = .ok plan) : p.Covers plan := by
  have hg := hp.built
  have hneeds : ∀ t, plan.Assigns t ↔ p.Needs t := fun t => assigns_iff_needs hg h
  have hout : ∀ t, plan.LeavesOut t ↔ ¬ p.Needs t := fun t =>
    ⟨fun hout ht => ((hneeds t).mpr ht).not_leavesOut hout, leavesOut_of_not_needs hg h⟩
  refine ⟨fun t => ?_, fun t ht => ?_, fun t u ht hfeeds => ?_, fun t hlt ht => ?_,
    fun hacyclic t hlt => ?_⟩
  · rw [hneeds, ← hp.sinks]
    rfl
  · exact (hout t).mpr fun hn => ht ((hneeds t).mpr hn)
  · exact (hout u).mpr fun hu => (hout t).mp ht (hu.of_feeds hfeeds)
  · exact exists_cycle_of_not_needs hg hp.sinks hlt ((hout t).mp ht)
  · refine (hneeds t).mpr (by_contra fun ht => ?_)
    obtain ⟨u, -, hcycle⟩ := exists_cycle_of_not_needs hg hp.sinks hlt ht
    exact hacyclic u hcycle

end Coverage

/-- Two tasks that read from each other, beside one that shows what it reads. -/
def besideCycle : TaskGraph :=
  (((((((TaskGraph.empty.addTask
    { object := 0, name := "read", platform := ⟨"a"⟩, inputs := [], outputs := [.any] }).addTask
    { object := 1, name := "show", platform := ⟨"a"⟩, inputs := [.any], outputs := [] }).addTask
    { object := 2, name := "join", platform := ⟨"a"⟩, inputs := [.any, .any],
      outputs := [.any] }).addTask
    { object := 3, name := "back", platform := ⟨"a"⟩, inputs := [.any], outputs := [.any] }).wire
      0 0 1 0 .collection).wire 0 0 2 0 .collection).wire 2 0 3 0 .collection).wire
      3 0 2 1 .collection

theorem built_besideCycle : besideCycle.Built :=
  .wire (.wire (.wire (.wire (.addTask _ (.addTask _ (.addTask _ (.addTask _ .empty)))) rfl) rfl)
    rfl) rfl

/-- Planning may succeed although tasks of the graph are not assigned to a stage. -/
theorem besideCycle_leavesOut : ¬ ∀ (g : TaskGraph) (plan : Plan), g.Built →
    (ofGraph g).assign = .ok plan → ∀ t < g.tasks.length, plan.Assigns t := by
  intro hall
  obtain ⟨plan, hplan, hnone⟩ : ∃ plan, (ofGraph besideCycle).assign = .ok plan ∧
      (plan.graph.task 2).stage = none := exists_assign_of_decide (by decide +kernel)
  obtain ⟨s, -, -, hstage⟩ := hall besideCycle plan built_besideCycle hplan 2 (by decide +kernel)
  exact absurd (hstage.symm.trans hnone) nofun

/-- A loop whose result nothing reads, beside a task that shows what the loop starts with. -/
def unreadLoop : OperatorGraph :=
  let operators : OperatorGraph := [
    { object := 0, name := "read", platform := ⟨"a"⟩, inputs := [], outputs := [.any] },
    { object := 1, name := "show", platform := ⟨"a"⟩, inputs := [.any], outputs := [] },
    { object := 2, name := "loop", platform := ⟨"a"⟩, inputs := [.any, .any, .any, .any],
      outputs := [.any, .any, .any], loopRoles := some {} },
    { object := 3, name := "step", platform := ⟨"a"⟩, inputs := [.any], outputs := [.any] }].foldl
      OperatorGraph.addElementary .empty
  let connected := do
    let g ← operators.connect ⟨0, 0⟩ ⟨1, 0⟩
    let g ← g.connect ⟨0, 0⟩ ⟨2, 0⟩
    let g ← g.connect ⟨0, 0⟩ ⟨2, 1⟩
    let g ← g.connect ⟨2, 0⟩ ⟨3, 0⟩
    let g ← g.connect ⟨3, 0⟩ ⟨2, 2⟩
    g.connect ⟨3, 0⟩ ⟨2, 3⟩
  connected.toOption.getD operators

/-- Its tasks. -/
def unreadTasks : TaskGraph :=
  (((((((((TaskGraph.empty.addTask
    { object := 0, name := "read", platform := ⟨"a"⟩, inputs := [], outputs := [.any] }).addTask
    { object := 1, name := "show", platform := ⟨"a"⟩, inputs := [.any], outputs := [] }).addTask
    { object := 2, name := "loop", platform := ⟨"a"⟩, inputs := [.any, .any, .any, .any],
      outputs := [.any, .any, .any], loopRoles := some {} }).addTask
    { object := 3, name := "step", platform := ⟨"a"⟩, inputs := [.any], outputs := [.any] }).wire
      0 0 1 0 .collection).wire 0 0 2 0 .collection).wire 0 0 2 1 .collection).wire
      2 0 3 0 .collection).wire 3 0 2 2 .collection).wire 3 0 2 3 .collection

theorem toPreliminaryPlan_unreadLoop : unreadLoop.toPreliminaryPlan = .ok (.ofGraph unreadTasks) :=
  rfl

/-- The loop is left out of the plan of all operators, and what it reads is not. -/
theorem unreadLoop_covers : ∃ p plan, unreadLoop.toPreliminaryPlan = .ok p ∧
    p.assign = .ok plan ∧ p.Covers plan ∧ plan.Assigns 0 ∧ plan.LeavesOut 2 ∧
    ∃ u, Relation.ReflTransGen p.graph.Feeds 2 u ∧ Relation.TransGen p.graph.Feeds u u := by
  obtain ⟨plan, hplan, hlen, htasks, hplaced, hnone⟩ : ∃ plan,
      (ofGraph unreadTasks).assign = .ok plan ∧ 0 < plan.stages.length ∧
      0 ∈ (plan.stage 0).tasks ∧ (plan.graph.task 0).stage = some 0 ∧
      (plan.graph.task 2).stage = none := exists_assign_of_decide (by decide +kernel)
  have hcovers := assign_covers (.ofOperators toPreliminaryPlan_unreadLoop) hplan
  have hout : plan.LeavesOut 2 := hcovers.leavesOut 2 fun ⟨_, _, _, hs⟩ =>
    absurd (hs.symm.trans hnone) nofun
  exact ⟨_, plan, toPreliminaryPlan_unreadLoop, hplan, hcovers, ⟨0, hlen, htasks, hplaced⟩, hout,
    hcovers.cycle 2 (by decide +kernel) hout⟩

end PreliminaryPlan

end Dataflow
