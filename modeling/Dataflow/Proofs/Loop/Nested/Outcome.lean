import Dataflow.Proofs.Loop.Nested.Step
import Dataflow.Proofs.Loop.Outcome

/-!
# What the execution of a loop inside of a loop comes to

The inner loop is executed to its end in the first iteration of the outer one. If the outer loop has
then converged, its result is what two nested while loops yield. If it has not, the outer head asks
for another iteration, but the loop operator of the inner head has finished and never starts again:
the execution stalls.

Two turns are followed, one inside of the other, and again each stage execution is one step that keeps
where the execution stands (`Dataflow.Proofs.Loop.Nested.Step`). The inner loop needs `n` iterations
of one stage execution for its head and one for its body, and one more of its head, which ends it; the
outer head is executed twice and all other stages once.

* `Program.Yields`: nested while loops.
* `Ended`: what the execution has done at its end.
* **`execute_nestedLoop`**
* `nesting_stalls`: nested while loops that come to an end, and an execution that stalls.

That the execution stalls is a consequence of the state of a loop head, which moves forward only: the
cell of the inner head has come to its end, and no criterion can help it. Out of scope are an outer
loop that ends at its initialization, an inner one that never ends and executions that reach the
limit.
-/

namespace Dataflow

namespace NestedLoop

/-- Nested while loops: from `y` on, when the outer loop has iterated `i` times, they yield `z`. The
inner loop counts its iterations from the start in each iteration of the outer one. -/
inductive Program.Yields (q : Program) : Nat → UInt64 → UInt64 → Prop
  | done {i : Nat} {y : UInt64} : (q.loop .outer).convergesAt id y i = true → Yields q i y y
  | round {i n : Nat} {y z : UInt64} : (q.loop .outer).convergesAt id y i = false →
      (q.loop .inner).convergesAt q.step y n = true →
      (∀ j < n, (q.loop .inner).convergesAt q.step y j = false) →
      Yields q (i + 1) (q.round n y) z → Yields q i y z

/-- The operators of the heads before anything was executed. -/
structure Fresh {ω : Type} (q : Program) (held : Part → LoopOperator → ω → Prop) (memory : ω)
    (k : Part) : Prop where
  decides : (q.loop k).DecidesNumbers
  iterations : (q.loop k).iterations = 0
  state : (q.loop k).state = .notStarted
  held : held k (q.loop k) memory

/-- What the execution of a loop inside of a loop has done whose outer loop has ended after one
iteration, in which the inner one took `n`. -/
structure Ended {ω : Type} (w : NestedLoop) (plan : Plan) (b : Behaviour ω) (q : Program) (n : Nat)
    (m : Machine ω) (report : PlanReport) (m' : Machine ω) : Prop where
  /-- The inner loop takes two stage executions for each iteration, the other parts take one, and the
  heads take one more. -/
  stages : report.stages.length = 2 * n + 6
  heads : ∀ k : Part, k.isHead = true → plan.loopState b m'.memory (w k) = .finished
  /-- Nested while loops yield the number -/
  value : q.Yields 0 q.start (q.round n q.start)
  /-- that the sink, which is executed once, -/
  sink : (report.stages.flatMap StageReport.executed).filter (·.task = w .sink) =
    [⟨w .sink, .plain⟩]
  /-- is executed on. -/
  result : ∀ log, b.Logs log → ∃ new, log m'.memory = log m.memory ++ new ∧
    new.filter (·.task = w .sink) = [⟨w .sink, [some (.number (q.round n q.start))]⟩]

section Outcome

variable {ω : Type} {p : PreliminaryPlan} {w : NestedLoop} {plan : Plan} {b : Behaviour ω}
  {f : TaskFunctions} {q : Program} {held : Part → LoopOperator → ω → Prop} {m₀ m : Machine ω}
  {a : Agenda} {reports : Array StageReport} {n : Nat}

/-- The loops before the first stage execution. -/
theorem Planned.stands_start (h : Planned p w plan b f q held)
    (hfresh : ∀ k : Part, k.isHead = true → Fresh q held m.memory k)
    (hm : m.state.isEmpty = true) :
    Stands p w plan b q held m .read (.allPending plan.stages.length) #[] m := by
  refine ⟨Machine.atRest_of_isEmpty hm, List.length_replicate, fun k => ?_, fun k hk => ?_,
    fun _ _ i hi => absurd hi List.not_mem_nil, fun _ _ _ c _ => Machine.get?_of_isEmpty hm c,
    rfl, fun log _ => ⟨[], (List.append_nil _).symm, rfl⟩⟩
  · rw [Agenda.isPending_allPending]
    exact iff_of_true (h.place_lt k) k.mem_all
  · obtain ⟨-, hi, hn, hheld⟩ := hfresh k hk
    have hturn : Spot.read.turn k = ⟨0, 1⟩ := by cases k <;> rfl
    have hstart : (q.loop k).atTurn 1 ⟨0, 1⟩ = q.loop k := by
      generalize q.loop k = l at hi hn
      obtain ⟨name, platform, dataType, convergenceType, criterion, maxIterations, iterations,
        state⟩ := l
      simp only at hi hn
      subst hi hn
      rfl
    rw [hturn, hstart]
    exact hheld

/-- At the end both loops have finished and nothing is pending. -/
theorem Stands.conclude_ended (h : Planned p w plan b f q held)
    (hs : Stands p w plan b q held m₀ (.ended n) a reports m) (config : ExecutorConfig) :
    plan.conclude b config a m.memory = .ok () ∧
      ∀ k : Part, k.isHead = true → plan.loopState b m.memory (w k) = .finished := by
  have hstate : ∀ k : Part, k.isHead = true → plan.loopState b m.memory (w k) = .finished := by
    intro k hk
    rw [h.loopState_eq hk (hs.held k hk)]
    revert hk
    cases k <;> simp [Part.isHead, Spot.turn, Spot.outerTurn, Spot.innerTurn, LoopOperator.atTurn]
  have hnone : ∀ y, a.isPending y = false := fun y => by
    refine Bool.eq_false_iff.mpr fun hy => ?_
    obtain ⟨k, rfl⟩ := h.exists_place (hs.length ▸ Agenda.lt_length_of_isPending hy)
    exact absurd ((hs.pending k).mp hy) List.not_mem_nil
  refine ⟨Plan.conclude_eq_ok config hnone fun s hs t ht => ?_, hstate⟩
  obtain ⟨k, rfl⟩ := h.exists_place hs
  rw [h.loopHead_eq] at ht
  obtain ⟨hk, rfl⟩ : k.isHead = true ∧ w k = t := by simpa using ht
  exact hstate k hk

/-- The stages of some parts, in ascending order. -/
def stagesOf (w : NestedLoop) (plan : Plan) (ks : List Part) : List StageId :=
  plan.stageIds.filter fun s => ks.any fun k => (plan.graph.task (w k)).stage == some s

/-- When the outer loop goes on and the inner one has finished, some stages are pending for good. -/
theorem Stands.conclude_stuck (h : Planned p w plan b f q held)
    (hs : Stands p w plan b q held m₀ (.stuck n) a reports m) (config : ExecutorConfig) :
    plan.conclude b config a m.memory =
      .error (.stalled (w.stagesOf plan [.inner, .close, .sink])) := by
  have hpending : a.pending = w.stagesOf plan [.inner, .close, .sink] := by
    unfold Agenda.pending stagesOf Plan.stageIds
    rw [hs.length]
    refine List.filter_congr fun s hs' => ?_
    obtain ⟨k, rfl⟩ := h.exists_place (List.mem_range.mp hs')
    have hstage : ∀ k' : Part, (plan.graph.task (w k')).stage = some (place p w k') := fun k' =>
      h.finished.stage_of_mem (h.loop.keepsApart.mem_planned.mpr (h.loop.needs k'))
    rw [Bool.eq_iff_iff, hs.pending k, List.any_eq_true]
    simp only [hstage, beq_iff_eq, Option.some.injEq, h.loop.place_inj]
    exact ⟨fun hk => ⟨k, hk, rfl⟩, fun ⟨_, hk', he⟩ => he ▸ hk'⟩
  have hne : a.pending ≠ [] := by
    refine List.ne_nil_of_mem (a := place p w .inner) (List.mem_filter.mpr ⟨?_, ?_⟩)
    · exact List.mem_range.mpr (hs.length ▸ h.place_lt .inner)
    · exact (hs.pending .inner).mpr List.mem_cons_self
  rw [Plan.conclude_eq_stalled config hne, hpending]

/-- The outer loop has not converged before its first iteration, but after it. -/
theorem Program.yields_round (hgo : (q.loop .outer).convergesAt id q.start 0 = false)
    (hn : q.converges n = true) (hfirst : ∀ i < n, q.converges i = false)
    (hend : q.ends n = true) : q.Yields 0 q.start (q.round n q.start) :=
  .round hgo hn hfirst (.done hend)

/-- The course when the outer loop has converged after its first iteration. -/
theorem Program.iterate_ended (hn : q.converges n = true) (hfirst : ∀ i < n, q.converges i = false)
    (hend : q.ends n = true) : q.next^[2 * n + 6] .read = .ended n ∧
      ∀ j < 2 * n + 6, (q.next^[j] .read).part ≠ none := by
  have hagain : q.next^[2 * n + 4] .read = .again n := (Spot.iterate_again hn hfirst).2
  have hsink : q.next^[2 * n + 5] .read = .sink n := by
    rw [Function.iterate_succ_apply', hagain]
    exact if_pos hend
  refine ⟨?_, fun j hj => ?_⟩
  · rw [Function.iterate_succ_apply', hsink]
    rfl
  · by_cases hlast : j = 2 * n + 5
    · rw [hlast, hsink]
      simp [Spot.part]
    · exact Spot.part_ne_none hn hfirst (by omega)

/-- The course when the outer loop goes on. -/
theorem Program.iterate_stuck (hn : q.converges n = true) (hfirst : ∀ i < n, q.converges i = false)
    (hend : q.ends n = false) : q.next^[2 * n + 5] .read = .stuck n ∧
      ∀ j < 2 * n + 5, (q.next^[j] .read).part ≠ none := by
  refine ⟨?_, fun j hj => Spot.part_ne_none hn hfirst (by omega)⟩
  have hagain : q.next^[2 * n + 4] .read = .again n := (Spot.iterate_again hn hfirst).2
  rw [Function.iterate_succ_apply', hagain]
  exact if_neg (by simp [hend])

end Outcome

end NestedLoop

open NestedLoop in
/-- **What the execution of a loop inside of a loop comes to**, if the outer loop has not converged
from the start and the inner one converges first after `n` iterations. If the outer loop has
converged after its first iteration, the execution succeeds with what nested while loops yield.
Otherwise the inner loop would have to be started again, and the execution stalls. -/
theorem PreliminaryPlan.PlansNested.execute_nestedLoop {ω : Type} {p : PreliminaryPlan}
    {w : NestedLoop} {b : Behaviour ω} {f : TaskFunctions} {q : Program}
    {held : Part → LoopOperator → ω → Prop} {m : Machine ω} {n : Nat} (config : ExecutorConfig)
    (h : p.PlansNested w) (hb : w.Runs p.graph b f q held)
    (hfresh : ∀ k : Part, k.isHead = true → Fresh q held m.memory k) (hm : m.state.isEmpty = true)
    (hgo : (q.loop .outer).convergesAt id q.start 0 = false)
    (hn : q.converges n = true) (hfirst : ∀ i < n, q.converges i = false) :
    ∃ plan, p.assign = .ok plan ∧
      (q.ends n = true → 2 * n + 6 ≤ config.maxStageExecutions.toNat →
        ∃ report m', plan.execute b config m = (.ok report, m') ∧ Ended w plan b q n m report m') ∧
      (q.ends n = false → 2 * n + 5 ≤ config.maxStageExecutions.toNat →
        ∃ m', plan.execute b config m =
            (.error (.stalled (w.stagesOf plan [.inner, .close, .sink])), m') ∧
          m'.events.back? = some (.planCompleted false (2 * n + 5))) := by
  obtain ⟨plan, hplan, hfin⟩ := h.keepsApart.exists_plan
  have hp : Planned p w plan b f q held := ⟨h, hfin, hb, fun k hk => (hfresh k hk).decides, hgo⟩
  let m₁ : Machine ω := { m with events := m.events.push (.planStarted plan.stages.length) }
  have hstart : Stands p w plan b q held m₁ .read (.allPending plan.stages.length) #[] m₁ :=
    hp.stands_start hfresh hm
  have hcourse := hp.follows config m₁
  refine ⟨plan, hplan, fun hend hle => ?_, fun hend hle => ?_⟩
  · obtain ⟨hlast, hway⟩ := Program.iterate_ended hn hfirst hend
    obtain ⟨a, reports, m', hdrive, hs, hsize⟩ :=
      hcourse.drive_ends hstart hway (by rw [hlast]; rfl) hle
    rw [hlast] at hs
    obtain ⟨hok, hheads⟩ := hs.conclude_ended hp config
    rw [hok] at hdrive
    refine ⟨⟨reports.toList, m'.state.cardinalities.toList⟩,
      { m' with events := m'.events.push (.planCompleted true reports.size) },
      Plan.execute_of_drive hdrive, ?_, hheads, q.yields_round hgo hn hfirst hend,
      hs.sink.reported, hs.sink.logged⟩
    change reports.toList.length = _
    rw [Array.length_toList, hsize]
    simp
  · obtain ⟨hlast, hway⟩ := Program.iterate_stuck hn hfirst hend
    obtain ⟨a, reports, m', hdrive, hs, hsize⟩ :=
      hcourse.drive_ends hstart hway (by rw [hlast]; rfl) hle
    rw [hlast] at hs
    rw [hs.conclude_stuck hp config] at hdrive
    refine ⟨{ m' with events := m'.events.push (.planCompleted false reports.size) },
      Plan.execute_of_drive hdrive, ?_⟩
    rw [Array.back?_push, hsize]
    simp

/-! ## An instance -/

/-- The sink is the only task of a loop inside of a loop that feeds nothing. -/
theorem TaskGraph.IsNested.plansNested {g : TaskGraph} {w : NestedLoop} (h : g.IsNested w) :
    (PreliminaryPlan.ofGraph g).PlansNested w := by
  have hsink : w .sink ∈ g.sinks := mem_sinks (h.exists_part.mp ⟨.sink, rfl⟩) fun o c hc => by
    obtain ⟨t, i, hj, -⟩ := h.built.exists_reader hc
    obtain ⟨k, l, hlink, hk, -⟩ := (h.joins _ _ _ _).mp hj
    exact NestedLoop.Part.ne_sink_of_link _ hlink (h.injective hk)
  exact ⟨h, PreliminaryPlan.sinksKnown_ofGraph hsink, hsink⟩

/-- The operators of a loop inside of a loop may be watched. -/
theorem NestedLoop.Runs.recording {ω : Type} {w : NestedLoop} {g : TaskGraph} {b : Behaviour ω}
    {f : TaskFunctions} {q : NestedLoop.Program} {held : NestedLoop.Part → LoopOperator → ω → Prop}
    (h : w.Runs g b f q held) : w.Runs g b.recording f q fun k l m => held k l m.1 :=
  ⟨fun k hk => (h.computes k hk).recording, h.source, h.step, h.close,
    fun k hk => (h.hosts k hk).recording,
    fun k hk k' hne l ctx m hl => h.keeps k hk k' hne l ctx m.1 hl⟩

theorem NestedLoop.Fresh.recording {ω : Type} {q : NestedLoop.Program}
    {held : NestedLoop.Part → LoopOperator → ω → Prop} {memory : ω} {k : NestedLoop.Part}
    (h : NestedLoop.Fresh q held memory k) (log : List Evaluation) :
    NestedLoop.Fresh q (fun k l m => held k l m.1) (memory, log) k :=
  ⟨h.decides, h.iterations, h.state, h.held⟩

/-- Operators without memory, and loop operators as some of the objects. -/
def Behaviour.withLoops (b : Behaviour Unit) (os : List ObjectId) :
    Behaviour (ObjectId → LoopOperator) where
  prepare k ctx ls :=
    let r := b.prepare k ctx ()
    if k ∈ os then { result := .ok (), memory := ls }
    else { result := r.result, emissions := r.emissions, touches := r.touches, memory := ls }
  evaluate k ctx ls :=
    let r := b.evaluate k ctx ()
    let l := (ls k).evaluate ctx
    if k ∈ os then
      { result := l.result, emissions := l.emissions, touches := l.touches,
        memory := Function.update ls k l.memory }
    else { result := r.result, emissions := r.emissions, touches := r.touches, memory := ls }
  loopState k ls := (ls k).state
  advance k s ls :=
    match (ls k).state.advance s with
    | .ok s => (.ok (ls k).state, Function.update ls k { ls k with state := s })
    | .error r => (.error (.loopStateRegression r), ls)

section WithLoops

variable {b : Behaviour Unit} {os : List ObjectId} {o : ObjectId}

theorem Behaviour.hosts_withLoops (ho : o ∈ os) :
    (b.withLoops os).Hosts o fun l ls => ls o = l := by
  refine ⟨fun l ls hl => congrArg LoopOperator.state hl, fun l ls ctx hl => ?_,
    fun l ls ctx hl => ?_⟩
  · unfold withLoops
    simp only [ho, if_true]
    exact ⟨⟨rfl, by simp⟩, hl⟩
  · subst hl
    unfold withLoops
    simp only [ho, if_true, Function.update_self, true_and]

/-- A loop operator is left alone by the other operators. -/
theorem Behaviour.keeps_withLoops {k : ObjectId} (hne : k ≠ o) (ctx : TaskContext)
    (ls : ObjectId → LoopOperator) :
    ((b.withLoops os).prepare k ctx ls).memory o = ls o ∧
      ((b.withLoops os).evaluate k ctx ls).memory o = ls o := by
  unfold withLoops
  by_cases hk : k ∈ os
  · simp only [hk, if_true]
    exact ⟨trivial, Function.update_of_ne hne.symm _ _⟩
  · simp only [hk, if_false]
    exact ⟨trivial, trivial⟩

theorem Behaviour.Computes.withLoops {g : TaskGraph} {f : TaskFunctions} {t : TaskId}
    (h : b.Computes g f t) (hno : (g.task t).operator.object ∉ os) :
    (b.withLoops os).Computes g f t := by
  refine ⟨fun ctx m xs hctx => ?_, fun ctx m xs hctx => ?_, h.connected⟩ <;>
    unfold Behaviour.withLoops <;> simp only [hno, if_false]
  · obtain ⟨hr, ht⟩ := h.prepare ctx () xs hctx
    exact ⟨hr, ht⟩
  · obtain ⟨⟨hr, ht⟩, he⟩ := h.evaluate ctx () xs hctx
    exact ⟨⟨hr, ht⟩, he⟩

end WithLoops

/-- A loop inside of a loop, with the tasks numbered in no order and one of them on a platform of
its own. -/
def nesting : PreliminaryPlan := .ofGraph
  (((((((((((((((((TaskGraph.empty.addTask
    { object := 0, name := "show", platform := ⟨"a"⟩, inputs := [.any], outputs := [] }).addTask
    { object := 1, name := "add", platform := ⟨"b"⟩, inputs := [.any], outputs := [.any] }).addTask
    (untilFour.declaration 2)).addTask
    { object := 3, name := "read", platform := ⟨"a"⟩, inputs := [], outputs := [.any] }).addTask
    { object := 4, name := "add", platform := ⟨"a"⟩, inputs := [.any], outputs := [.any] }).addTask
    (untilFour.declaration 5)).wire
      3 0 5 0 .collection).wire 3 0 5 1 .collection).wire 5 0 2 0 .collection).wire
      5 0 2 1 .collection).wire 2 0 1 0 .collection).wire 1 0 2 2 .collection).wire
      1 0 2 3 .collection).wire 2 2 4 0 .collection).wire 4 0 5 2 .collection).wire
      4 0 5 3 .collection).wire 5 2 0 0 .collection)

def nestingLoop : NestedLoop
  | .source => 3
  | .outer => 5
  | .inner => 2
  | .step => 1
  | .close => 4
  | .sink => 0

/-- The inner loop iterates until four is reached, the outer one until `bound` is. -/
def nestingUntil (bound : UInt64) : NestedLoop.Program where
  start := 1
  step y := 1 + y
  close y := 1 + y
  loop
    | .outer => { untilFour with criterion := .onNumber fun y => bound ≤ y }
    | _ => untilFour

/-- The loop operators as they are created. -/
def nestingLoops (bound : UInt64) (o : ObjectId) : LoopOperator :=
  (nestingUntil bound).loop (if o = 5 then .outer else .inner)

theorem built_nesting : nesting.graph.Built :=
  .wire (.wire (.wire (.wire (.wire (.wire (.wire (.wire (.wire (.wire (.wire (.addTask _ (.addTask _
    (.addTask _ (.addTask _ (.addTask _ (.addTask _ .empty)))))) rfl) rfl) rfl) rfl) rfl) rfl) rfl)
    rfl) rfl) rfl) rfl

theorem isNested_nesting : nesting.graph.IsNested nestingLoop := by
  refine ⟨built_nesting, by decide +kernel, fun u o t i => ?_, by decide +kernel, by decide +kernel⟩
  have htable : nesting.graph.Joins u o t i ↔ (u, o, t, i) ∈ NestedLoop.Part.links.map fun x =>
      (nestingLoop x.1, x.2.1, nestingLoop x.2.2.1, x.2.2.2) :=
    built_nesting.joins_iff_mem (by decide +kernel) (by decide +kernel)
  rw [htable, List.mem_map]
  constructor
  · rintro ⟨⟨k, o', l, i'⟩, hx, heq⟩
    obtain ⟨rfl, rfl, rfl, rfl⟩ : nestingLoop k = u ∧ o' = o ∧ nestingLoop l = t ∧ i' = i := by
      simpa using heq
    exact ⟨k, l, hx, rfl, rfl⟩
  · rintro ⟨k, l, hx, rfl, rfl⟩
    exact ⟨_, hx, rfl⟩

theorem plansNested_nesting : nesting.PlansNested nestingLoop := isNested_nesting.plansNested

/-- The source feeds one and each task of the bodies adds one. -/
theorem runs_nesting (bound : UInt64) : nestingLoop.Runs nesting.graph (adding.withLoops [2, 5])
    (sums nesting.graph) (nestingUntil bound) fun k l loops => loops (nestingLoop k) = l := by
  have hobject : ∀ k, (nesting.graph.task (nestingLoop k)).operator.object = nestingLoop k := by
    decide +kernel
  have hadds : ∀ k : NestedLoop.Part, (nesting.graph.task (nestingLoop k)).outputs.length = 1 →
      ∀ y, (sums nesting.graph (nestingLoop k) [.number y])[0]? =
        some (some (.number (1 + y))) := fun k hk y => by
    unfold sums
    rw [hk]
    rfl
  have hsource : (sums nesting.graph (nestingLoop .source) [])[0]? = some (some (.number 1)) := by
    decide +kernel
  refine ⟨fun k hk => (computes_adding _ _).withLoops ?_, hsource, hadds .step (by decide +kernel),
    hadds .close (by decide +kernel), fun k hk => ?_, fun k hk k' hne l ctx loops hl => ?_⟩
  · rw [hobject]
    revert hk
    revert k
    decide
  · rw [hobject]
    refine Behaviour.hosts_withLoops ?_
    revert hk
    revert k
    decide
  · subst hl
    rw [hobject]
    exact Behaviour.keeps_withLoops (isNested_nesting.injective.ne hne) ctx loops

theorem fresh_nesting (bound : UInt64) (k : NestedLoop.Part) (hk : k.isHead = true) :
    NestedLoop.Fresh (nestingUntil bound) (fun k l loops => loops (nestingLoop k) = l)
      (nestingLoops bound) k := by
  cases k with
  | outer | inner => exact ⟨fun y => rfl, rfl, rfl, rfl⟩
  | source | step | close | sink => exact absurd hk (by decide)

/-- From one, the inner loop comes to four. If the outer loop takes the five that is made of it, it
is what the sink is executed on; if the outer loop asks for six, the execution stalls. -/
theorem nesting_execute : ∃ plan, nesting.assign = .ok plan ∧
    (∃ report m', plan.execute (adding.withLoops [2, 5]).recording {}
        { memory := (nestingLoops 5, []) } = (.ok report, m') ∧
      NestedLoop.Ended nestingLoop plan (adding.withLoops [2, 5]).recording (nestingUntil 5) 3
        { memory := (nestingLoops 5, []) } report m') ∧
    (∃ m', plan.execute (adding.withLoops [2, 5]).recording {}
        { memory := (nestingLoops 6, []) } =
          (.error (.stalled (nestingLoop.stagesOf plan [.inner, .close, .sink])), m') ∧
      m'.events.back? = some (.planCompleted false 11)) := by
  have hrun := fun bound => plansNested_nesting.execute_nestedLoop
    (m := { memory := (nestingLoops bound, []) }) (n := 3) {} (runs_nesting bound).recording
    (fun k hk => (fresh_nesting bound k hk).recording []) rfl
  obtain ⟨plan, hplan, hends, -⟩ := hrun 5 (by decide +kernel) (by decide +kernel) (by decide +kernel)
  obtain ⟨plan', hplan', -, hstalls⟩ :=
    hrun 6 (by decide +kernel) (by decide +kernel) (by decide +kernel)
  obtain rfl : plan = plan' := Except.ok.inj (hplan.symm.trans hplan')
  exact ⟨plan, hplan, hends (by decide +kernel) (by decide), hstalls (by decide +kernel) (by decide)⟩

/-- Nested while loops come to an end with six, after a second iteration of the outer loop. The
execution stalls, with the inner loop, what closes the outer iteration and the sink pending. -/
theorem nesting_stalls : nesting.PlansNested nestingLoop ∧
    nestingLoop.Runs nesting.graph (adding.withLoops [2, 5]) (sums nesting.graph) (nestingUntil 6)
      (fun k l loops => loops (nestingLoop k) = l) ∧
    (∀ k : NestedLoop.Part, k.isHead = true → NestedLoop.Fresh (nestingUntil 6)
      (fun k l loops => loops (nestingLoop k) = l) (nestingLoops 6) k) ∧
    (nestingUntil 6).Yields 0 1 6 ∧
    (nesting.assign.map fun plan => (plan.execute (adding.withLoops [2, 5]) {}
      { memory := nestingLoops 6 }).1) = .ok (.error (.stalled [2, 3, 5])) := by
  refine ⟨plansNested_nesting, runs_nesting 6, fresh_nesting 6, ?_, by decide +kernel⟩
  have hfive : (nestingUntil 6).Yields 1 5 6 :=
    .round (n := 0) (by decide +kernel) (by decide +kernel) (by decide)
      (.done (by decide +kernel))
  exact .round (n := 3) (by decide +kernel) (by decide +kernel) (by decide +kernel) hfive

end Dataflow
