import Dataflow.Proofs.Loop.Step

/-!
# What the execution of a while loop comes to

A while loop on numbers iterates the composition of its body. It ends in the first iteration in
which it has converged, if the stage executions this takes are allowed, and is given up otherwise.

A stage execution is one step of a turn: the source, then the head and the segments of the body in
each iteration, then the sink (`Turn`). `Stands` says where the execution stands before each of them
and is kept from one to the next (`Dataflow.Proofs.Loop.Step`), so the count of stage executions is
the length of a walk through the turns. The number of the iteration in which the loop ends is read off
the criterion and the limit of iterations alone.

* `Ended`: what the execution of a while loop has done at its end.
* **`execute_whileLoop`**
* `Runs.recording`: evaluations can be watched.

The body is a chain of any length over any platforms, cut into segments where the platform changes.
The operators besides the head compute functions on numbers, any functions (`WhileLoop.Runs`). A
criterion that cannot be asked about numbers would fail the head and is left out (`DecidesNumbers`).
-/

namespace Dataflow

namespace WhileLoop

/-- What the execution of a while loop has done that has ended in iteration `n`. -/
structure Ended {ω : Type} (p : PreliminaryPlan) (w : WhileLoop) (plan : Plan) (b : Behaviour ω)
    (F : TaskId → UInt64 → UInt64) (x : UInt64) (n : Nat) (m : Machine ω) (report : PlanReport)
    (m' : Machine ω) : Prop where
  /-- The source, the head and the sink, and the body with the head for each iteration. -/
  stages : report.stages.length = n + 3 + n * (w.segments p.graph).length
  head : plan.loopState b m'.memory w.head = .finished
  /-- The sink is executed once, -/
  sink : (report.stages.flatMap StageReport.executed).filter (·.task = w.sink) =
    [⟨w.sink, .plain⟩]
  /-- on the number that the body was applied to `n` times. -/
  result : ∀ log, b.Logs log → ∃ new, log m'.memory = log m.memory ++ new ∧
    new.filter (·.task = w.sink) = [⟨w.sink, [some (.number ((w.composition F)^[n] x))]⟩]

section Outcome

variable {ω : Type} {p : PreliminaryPlan} {w : WhileLoop} {plan : Plan} {b : Behaviour ω}
  {f : TaskFunctions} {F : TaskId → UInt64 → UInt64} {x : UInt64} {held : LoopOperator → ω → Prop}
  {l : LoopOperator} {m₀ m : Machine ω} {τ : Turn} {a : Agenda} {reports : Array StageReport}

open PreliminaryPlan PreliminaryPlan.PlansWhile

/-- The loop before the first stage execution. -/
theorem Planned.stands_start (h : Planned p w plan b f F x held l) (hi : l.iterations = 0)
    (hn : l.state = .notStarted) (hheld : held l m.memory) (hm : m.state.isEmpty = true) :
    Stands p w plan b F x held l m .start (.allPending plan.stages.length) #[] m := by
  have hstart : l.atTurn (w.segments p.graph).length .start = l := by
    obtain ⟨name, platform, dataType, convergenceType, criterion, maxIterations, iterations,
      state⟩ := l
    simp only at hi hn
    subst hi hn
    rfl
  refine ⟨fun _ => rfl, Nat.zero_le _, Machine.atRest_of_isEmpty hm, List.length_replicate,
    fun t ht => ?_, ?_, fun hz => absurd hz (by simp [Turn.start]), fun _ t ht hr i c hc _ => ?_,
    fun _ c _ => Machine.get?_of_isEmpty hm c, ?_⟩
  · rw [Agenda.isPending_allPending]
    refine iff_of_true (h.place_lt ht) ⟨Nat.zero_le _, fun hz => ?_⟩
    simp [Turn.start] at hz
  · rw [hstart]
    exact hheld
  · -- the source reads nothing
    have hlt := lt_length_of_inputChannel hc
    have hzero : w.rank p.graph t = 0 := hr
    rcases h.loop.graph.rank_cases ht with ⟨rfl, -⟩ | ⟨-, hr⟩ | ⟨-, hr⟩ | ⟨-, hr, -⟩
    · rw [h.loop.graph.source] at hlt
      omega
    · omega
    · omega
    · omega
  · rw [if_neg (by simp [Turn.start])]
    exact ⟨rfl, fun log _ => ⟨[], (List.append_nil _).symm, rfl⟩⟩

/-- Every loop head has finished at the end. -/
theorem Stands.conclude_eq (h : Planned p w plan b f F x held l)
    (hs : Stands p w plan b F x held l m₀ τ a reports m)
    (hend : τ.IsOver (w.segments p.graph).length) (config : ExecutorConfig) :
    plan.conclude b config a m.memory = .ok () ∧
      plan.loopState b m.memory w.head = .finished := by
  have hheld := hs.held
  have hover : τ.rank = (w.segments p.graph).length + 3 := hend
  have hstate : plan.loopState b m.memory w.head = .finished := by
    have hhead := h.headState_eq hheld
    unfold Plan.headState at hhead
    rw [h.loop.loopHead_eq h.finished (w.mem_head), if_pos rfl, Option.map_some] at hhead
    rw [Option.some.inj hhead]
    unfold LoopOperator.atTurn
    simp only
    rw [if_neg (by omega), if_neg (by omega)]
  refine ⟨Plan.conclude_eq_ok config (hs.not_isPending h hend) fun s hs u hu => ?_, hstate⟩
  obtain ⟨t, ht, rfl⟩ := h.exists_place hs
  rw [h.loop.loopHead_eq h.finished ht] at hu
  obtain ⟨rfl, rfl⟩ : t = w.head ∧ w.head = u := by simpa using hu
  exact hstate

end Outcome

end WhileLoop

/-- **What the execution of a while loop comes to**: with `n` the first iteration in which the loop
has converged and `k` the number of segments of its body, the execution takes `n + 3 + n * k` stage
executions, finishes the head, and has the sink evaluated once, on what the body makes of the number
from the source in `n` iterations. If this is more than what is allowed, or the loop never
converges, the execution is given up at the limit. -/
theorem PreliminaryPlan.PlansWhile.execute_whileLoop {ω : Type} {p : PreliminaryPlan}
    {w : WhileLoop} {b : Behaviour ω} {f : TaskFunctions} {F : TaskId → UInt64 → UInt64}
    {x : UInt64} {held : LoopOperator → ω → Prop} {l : LoopOperator} {m : Machine ω}
    (config : ExecutorConfig) (h : p.PlansWhile w) (hb : w.Runs p.graph b f F x held)
    (hl : l.DecidesNumbers) (hi : l.iterations = 0) (hn : l.state = .notStarted)
    (hheld : held l m.memory) (hm : m.state.isEmpty = true) :
    ∃ plan, p.assign = .ok plan ∧
      (∀ n, l.convergesAt (w.composition F) x n = true →
        (∀ i < n, l.convergesAt (w.composition F) x i = false) →
        (n + 3 + n * (w.segments p.graph).length ≤ config.maxStageExecutions.toNat →
          ∃ report m', plan.execute b config m = (.ok report, m') ∧
            WhileLoop.Ended p w plan b F x n m report m') ∧
        (config.maxStageExecutions.toNat < n + 3 + n * (w.segments p.graph).length →
          (plan.execute b config m).1 =
            .error (.iterationLimit config.maxStageExecutions.toNat))) ∧
      ((∀ i, l.convergesAt (w.composition F) x i = false) →
        (plan.execute b config m).1 =
          .error (.iterationLimit config.maxStageExecutions.toNat)) := by
  obtain ⟨plan, hplan, hfin⟩ := h.exists_plan
  have hp : WhileLoop.Planned p w plan b f F x held l := ⟨h, hfin, hb, hl⟩
  have hpos := h.graph.segments_pos
  let m₁ : Machine ω := { m with events := m.events.push (.planStarted plan.stages.length) }
  have hstart : WhileLoop.Stands p w plan b F x held l m₁ .start (.allPending plan.stages.length)
      #[] m₁ := hp.stands_start hi hn hheld hm
  have hcourse := hp.follows config m₁
  refine ⟨plan, hplan, fun n hconv hfirst => ?_, fun hnever => ?_⟩
  · obtain ⟨hlast, hbefore⟩ := Turn.iterate_end hpos hconv hfirst
    refine ⟨fun hle => ?_, fun hlt => ?_⟩
    · have hover := congrArg Turn.rank hlast
      obtain ⟨a, reports, m', hdrive, hend, hsize⟩ := hcourse.drive_ends hstart hbefore hover hle
      obtain ⟨hok, hhead⟩ := hend.conclude_eq hp hover config
      have hsink := hend.sink
      rw [hlast, if_pos rfl] at hsink
      rw [hok] at hdrive
      refine ⟨⟨reports.toList, m'.state.cardinalities.toList⟩,
        { m' with events := m'.events.push (.planCompleted true reports.size) },
        Plan.execute_of_drive hdrive, ?_, hhead, hsink.reported, hsink.logged⟩
      change reports.toList.length = _
      rw [Array.length_toList, hsize]
      simp
    · exact Plan.execute_eq_error (hcourse.drive_limit hstart fun j hj => hbefore j (by omega))
  · refine Plan.execute_eq_error (hcourse.drive_limit hstart fun j _ => ?_)
    have := Turn.rank_of_diverging hpos hnever j
    unfold Turn.IsOver
    omega

/-! ## An instance -/

/-- The sink is the only task of a while loop that feeds nothing. -/
theorem TaskGraph.IsWhile.plansWhile {g : TaskGraph} {w : WhileLoop} (h : g.IsWhile w) :
    (PreliminaryPlan.ofGraph g).PlansWhile w := by
  have hsink : w.sink ∈ g.sinks := mem_sinks (h.mem_tasks.mp w.mem_sink) fun o c hc => by
    obtain ⟨u, i, hl, -⟩ := h.exists_reader hc
    exact h.not_links_sink hl
  exact ⟨h, PreliminaryPlan.sinksKnown_ofGraph hsink, hsink⟩

/-- A loop operator stays one when evaluations are watched. -/
theorem Behaviour.Hosts.recording {ω : Type} {b : Behaviour ω} {o : ObjectId}
    {held : LoopOperator → ω → Prop} (h : b.Hosts o held) :
    b.recording.Hosts o fun l m => held l m.1 := by
  refine ⟨fun l m hl => h.state l m.1 hl, fun l m ctx hl => ?_, fun l m ctx hl => ?_⟩
  · obtain ⟨⟨hr, ht⟩, hheld⟩ := h.prepare l m.1 ctx hl
    exact ⟨⟨hr, ht⟩, hheld⟩
  · exact h.evaluate l m.1 ctx hl

/-- The operators of a while loop may be watched. -/
theorem WhileLoop.Runs.recording {ω : Type} {w : WhileLoop} {g : TaskGraph} {b : Behaviour ω}
    {f : TaskFunctions} {F : TaskId → UInt64 → UInt64} {x : UInt64}
    {held : LoopOperator → ω → Prop} (h : w.Runs g b f F x held) :
    w.Runs g b.recording f F x fun l m => held l m.1 :=
  ⟨fun t ht hne => (h.computes t ht hne).recording, h.source, h.body, h.hosts.recording,
    fun t ht hne l ctx m hl => h.keeps t ht hne l ctx m.1 hl⟩

/-- Operators without memory, and a loop operator as one of the objects. -/
def Behaviour.withLoop (b : Behaviour Unit) (o : ObjectId) : Behaviour LoopOperator where
  prepare k ctx l :=
    let r := b.prepare k ctx ()
    if k = o then { result := .ok (), memory := l }
    else { result := r.result, emissions := r.emissions, touches := r.touches, memory := l }
  evaluate k ctx l :=
    let r := b.evaluate k ctx ()
    if k = o then l.evaluate ctx
    else { result := r.result, emissions := r.emissions, touches := r.touches, memory := l }
  loopState _ l := l.state
  advance _ s l :=
    match l.state.advance s with
    | .ok s => (.ok l.state, { l with state := s })
    | .error r => (.error (.loopStateRegression r), l)

theorem Behaviour.hosts_withLoop (b : Behaviour Unit) (o : ObjectId) :
    (b.withLoop o).Hosts o fun l memory => memory = l := by
  refine ⟨fun l memory hl => congrArg LoopOperator.state hl, fun l memory ctx hl => ?_,
    fun l memory ctx hl => ?_⟩
  · unfold withLoop
    simp only [if_true]
    exact ⟨⟨rfl, by simp⟩, hl⟩
  · subst hl
    have heval : (b.withLoop o).evaluate o ctx memory = memory.evaluate ctx := if_pos rfl
    rw [heval]
    exact ⟨rfl, rfl, rfl, rfl⟩

theorem Behaviour.Computes.withLoop {b : Behaviour Unit} {g : TaskGraph} {f : TaskFunctions}
    {t : TaskId} (h : b.Computes g f t) {o : ObjectId} (hne : (g.task t).operator.object ≠ o) :
    (b.withLoop o).Computes g f t := by
  refine ⟨fun ctx m xs hctx => ?_, fun ctx m xs hctx => ?_, h.connected⟩ <;>
    unfold Behaviour.withLoop <;> simp only [hne, if_false]
  · obtain ⟨hr, ht⟩ := h.prepare ctx () xs hctx
    exact ⟨hr, ht⟩
  · obtain ⟨⟨hr, ht⟩, he⟩ := h.evaluate ctx () xs hctx
    exact ⟨⟨hr, ht⟩, he⟩

/-- Iterates until four is reached. -/
def untilFour : LoopOperator where
  name := "loop"
  platform := ⟨"a"⟩
  criterion := .onNumber fun y => 4 ≤ y

/-- A loop whose body has two tasks on two platforms, numbered in no order. -/
def counting : PreliminaryPlan := .ofGraph
  ((((((((((((TaskGraph.empty.addTask
    { object := 0, name := "show", platform := ⟨"a"⟩, inputs := [.any], outputs := [] }).addTask
    { object := 1, name := "add", platform := ⟨"b"⟩, inputs := [.any], outputs := [.any] }).addTask
    (untilFour.declaration 2)).addTask
    { object := 3, name := "read", platform := ⟨"a"⟩, inputs := [], outputs := [.any] }).addTask
    { object := 4, name := "add", platform := ⟨"a"⟩, inputs := [.any], outputs := [.any] }).wire
      3 0 2 0 .collection).wire 3 0 2 1 .collection).wire 2 0 4 0 .collection).wire
      4 0 1 0 .collection).wire 1 0 2 2 .collection).wire 1 0 2 3 .collection).wire
      2 2 0 0 .collection)

def countingLoop : WhileLoop := ⟨3, 2, [4, 1], 0⟩

theorem built_counting : counting.graph.Built :=
  .wire (.wire (.wire (.wire (.wire (.wire (.wire (.addTask _ (.addTask _ (.addTask _
    (.addTask _ (.addTask _ .empty))))) rfl) rfl) rfl) rfl) rfl) rfl) rfl

/-- Its connections. -/
def countingLinks : List (Nat × Nat × Nat × Nat) :=
  [(3, 0, 2, 0), (3, 0, 2, 1), (2, 0, 4, 0), (4, 0, 1, 0), (1, 0, 2, 2), (1, 0, 2, 3), (2, 2, 0, 0)]

theorem links_counting {u o t i : Nat} :
    countingLoop.Links u o t i ↔ (u, o, t, i) ∈ countingLinks := by
  constructor
  · intro h
    cases h with
    | start | startConvergence | result => decide
    | enter hb =>
      obtain ⟨rfl, -⟩ := List.cons.inj hb
      decide
    | @step _ _ before after hb =>
      rcases before with _ | ⟨v, _ | ⟨v', before⟩⟩
      · injection hb with hu hb
        injection hb with ht
        subst hu ht
        decide
      · simp [countingLoop] at hb
      · simp [countingLoop] at hb
    | @back _ before hb | @backConvergence _ before hb =>
      have hlast := congrArg List.getLast? hb
      rw [List.getLast?_append] at hlast
      obtain rfl := Option.some.inj hlast
      decide
  · intro h
    simp only [countingLinks, List.mem_cons, Prod.mk.injEq, List.not_mem_nil, or_false] at h
    rcases h with ⟨rfl, rfl, rfl, rfl⟩ | ⟨rfl, rfl, rfl, rfl⟩ | ⟨rfl, rfl, rfl, rfl⟩ |
      ⟨rfl, rfl, rfl, rfl⟩ | ⟨rfl, rfl, rfl, rfl⟩ | ⟨rfl, rfl, rfl, rfl⟩ | ⟨rfl, rfl, rfl, rfl⟩
    · exact .start
    · exact .startConvergence
    · exact .enter rfl
    · exact .step (show countingLoop.body = [] ++ 4 :: 1 :: [] from rfl)
    · exact .back (show countingLoop.body = [4] ++ [1] from rfl)
    · exact .backConvergence (show countingLoop.body = [4] ++ [1] from rfl)
    · exact .result

theorem joins_counting (u o t i : Nat) :
    counting.graph.Joins u o t i ↔ countingLoop.Links u o t i := by
  rw [links_counting]
  exact built_counting.joins_iff_mem (by decide +kernel) (by decide +kernel)

theorem isWhile_counting : counting.graph.IsWhile countingLoop := by
  refine ⟨built_counting, by decide, by decide +kernel, joins_counting, by decide +kernel,
    by decide +kernel, by decide +kernel, by decide +kernel, by decide +kernel, by decide +kernel,
    fun c => ?_⟩
  have hmarks : ∀ c < 5, (counting.graph.channel c).barrier = false := by decide +kernel
  by_cases hc : c < 5
  · exact hmarks c hc
  · rw [TaskGraph.channel_of_le (Nat.le_of_not_lt hc)]
    rfl

theorem plansWhile_counting : counting.PlansWhile countingLoop := isWhile_counting.plansWhile

/-- The source feeds one and each task of the body adds one. -/
theorem runs_counting : countingLoop.Runs counting.graph (adding.withLoop 2)
    (sums counting.graph) (fun _ y => 1 + y) 1 fun l memory => memory = l := by
  have hobject : ∀ t ∈ countingLoop.tasks, t ≠ countingLoop.head →
      (counting.graph.task t).operator.object ≠ 2 := by decide +kernel
  refine ⟨fun t ht hne => (computes_adding _ t).withLoop (hobject t ht hne), by decide +kernel,
    fun t ht y => ?_, Behaviour.hosts_withLoop _ _, fun t ht hne l ctx memory hl => ?_⟩
  · have hlen : ∀ t ∈ countingLoop.body, (counting.graph.task t).outputs.length = 1 := by
      decide +kernel
    unfold sums
    rw [hlen t ht]
    rfl
  · subst hl
    have hne := hobject t ht hne
    unfold Behaviour.withLoop
    simp only [hne, if_false]
    exact ⟨trivial, trivial⟩

/-- From one over three to five: two iterations, nine stage executions. -/
theorem counting_execute : ∃ plan, counting.assign = .ok plan ∧
    (∃ report m', plan.execute (adding.withLoop 2).recording {} { memory := (untilFour, []) } =
        (.ok report, m') ∧ report.stages.length = 9 ∧
      WhileLoop.Ended counting countingLoop plan (adding.withLoop 2).recording (fun _ y => 1 + y) 1 2
        { memory := (untilFour, []) } report m') ∧
    (plan.execute (adding.withLoop 2).recording { maxStageExecutions := 8 }
      { memory := (untilFour, []) }).1 = .error (.iterationLimit 8) := by
  have hsegments : (countingLoop.segments counting.graph).length = 2 := by decide +kernel
  have hconv : untilFour.convergesAt (countingLoop.composition fun _ y => 1 + y) 1 2 = true := by
    decide +kernel
  have hbefore : ∀ i < 2,
      untilFour.convergesAt (countingLoop.composition fun _ y => 1 + y) 1 i = false := by
    decide +kernel
  have hrun := fun config : ExecutorConfig =>
    plansWhile_counting.execute_whileLoop (m := { memory := (untilFour, []) }) config
      runs_counting.recording (l := untilFour) (fun y => rfl) rfl rfl rfl rfl
  obtain ⟨plan, hplan, hends, -⟩ := hrun {}
  obtain ⟨plan', hplan', hends', -⟩ := hrun { maxStageExecutions := 8 }
  obtain rfl : plan = plan' := Except.ok.inj (hplan.symm.trans hplan')
  obtain ⟨report, m', hexecute, hended⟩ := (hends 2 hconv hbefore).1 (by
    rw [hsegments]
    decide)
  refine ⟨plan, hplan, ⟨report, m', hexecute, ?_, hended⟩, (hends' 2 hconv hbefore).2 ?_⟩
  · rw [hended.stages, hsegments]
  · rw [hsegments]
    decide

end Dataflow
