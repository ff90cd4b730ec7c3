import Dataflow.Proofs.Loop.Nested.Course
import Dataflow.Proofs.Loop.Standing

/-!
# What holds at a spot of a loop inside of a loop

Between two stage executions of a loop inside of a loop the agenda, the published data, the two loop
operators and the record of evaluations are as the spot says (`Stands`). So the stage of the part
that is next can be executed, and no other one.

* `Program`: the numbers and the loop operators of a loop inside of a loop.
* **`Stands.isExecutable_iff`**: the stage that can be executed.
* `Stands.nextExecutable`, `Stands.nextExecutable_none`
-/

namespace Dataflow

namespace NestedLoop

/-- What a loop inside of a loop computes, on numbers. -/
structure Program where
  /-- What the source feeds. -/
  start : UInt64
  /-- An iteration of the inner loop. -/
  step : UInt64 → UInt64
  /-- What is made of the result of the inner loop. -/
  close : UInt64 → UInt64
  /-- The operators of the two heads, before anything was executed. -/
  loop : Part → LoopOperator

namespace Program

variable (q : Program)

/-- An iteration of the outer loop in which the inner one takes `n`. -/
def round (n : Nat) (y : UInt64) : UInt64 := q.close (q.step^[n] y)

/-- Whether the inner loop has converged after some iterations. -/
def converges (i : Nat) : Bool := (q.loop .inner).convergesAt q.step q.start i

/-- Whether the outer loop has converged after an iteration in which the inner one took `n`. -/
def ends (n : Nat) : Bool := (q.loop .outer).convergesAt (q.round n) q.start 1

def next : Spot → Spot := Spot.next q.converges q.ends

/-- The number that is read at a spot. -/
def datum : Spot → UInt64 := Spot.datum q.step q.close q.start

/-- The numbers that the sink was executed on. -/
def shown : Spot → List UInt64
  | .ended n => [q.round n q.start]
  | _ => []

end Program

/-- The operators of a loop inside of a loop. The source, the sink and the tasks of the bodies
compute, and a loop operator is left alone by all operators but itself. -/
structure Runs {ω : Type} (w : NestedLoop) (g : TaskGraph) (b : Behaviour ω) (f : TaskFunctions)
    (q : Program) (held : Part → LoopOperator → ω → Prop) : Prop where
  computes : ∀ k : Part, k.isHead = false → b.Computes g f (w k)
  source : (f (w .source) [])[0]? = some (some (.number q.start))
  step : ∀ y, (f (w .step) [.number y])[0]? = some (some (.number (q.step y)))
  close : ∀ y, (f (w .close) [.number y])[0]? = some (some (.number (q.close y)))
  hosts : ∀ k : Part, k.isHead = true → b.Hosts (g.task (w k)).operator.object (held k)
  keeps : ∀ k : Part, k.isHead = true → ∀ k', k' ≠ k → ∀ l ctx memory, held k l memory →
    held k l (b.prepare (g.task (w k')).operator.object ctx memory).memory ∧
      held k l (b.evaluate (g.task (w k')).operator.object ctx memory).memory

/-- A loop inside of a loop that is planned, with its operators; the outer loop is going to
iterate. -/
structure Planned {ω : Type} (p : PreliminaryPlan) (w : NestedLoop) (plan : Plan) (b : Behaviour ω)
    (f : TaskFunctions) (q : Program) (held : Part → LoopOperator → ω → Prop) : Prop where
  loop : p.PlansNested w
  finished : PreliminaryPlan.Finished p.graph p.plannedTasks p.firstRuns plan
  operators : w.Runs p.graph b f q held
  decides : ∀ k : Part, k.isHead = true → (q.loop k).DecidesNumbers
  iterates : (q.loop .outer).convergesAt id q.start 0 = false

/-- The outer loop, with the inner one as a part of its body. -/
def outline (w : NestedLoop) : WhileLoop := ⟨w .source, w .outer, [w .inner, w .step, w .close], w .sink⟩

/-- What holds when a spot is reached. -/
structure Stands {ω : Type} (p : PreliminaryPlan) (w : NestedLoop) (plan : Plan) (b : Behaviour ω)
    (q : Program) (held : Part → LoopOperator → ω → Prop) (m₀ : Machine ω) (τ : Spot) (a : Agenda)
    (reports : Array StageReport) (m : Machine ω) : Prop where
  rest : m.AtRest
  length : a.length = plan.stages.length
  pending : ∀ k, a.isPending (place p w k) = true ↔ k ∈ τ.pending
  held : ∀ k : Part, k.isHead = true → held k ((q.loop k).atTurn 1 (τ.turn k)) m.memory
  /-- What the part is going to read is published. -/
  inputs : ∀ k, τ.part = some k → ∀ i ∈ τ.inputs, ∀ c,
    (p.graph.task (w k)).inputChannel i = some c → m.Publishes c (.number (q.datum τ))
  /-- The result of a loop is missing as long as the loop is running. -/
  result : ∀ k : Part, k.isHead = true → (τ.turn k).rank ≤ 2 → ∀ c,
    (p.graph.task (w k)).outputChannel 2 = some c → m.state.get? c = none
  /-- The sink is executed at the end only. -/
  sink : WhileLoop.SinkRecord w.outline b m₀ reports m (q.shown τ)

section Stands

variable {ω : Type} {p : PreliminaryPlan} {w : NestedLoop} {plan : Plan} {b : Behaviour ω}
  {f : TaskFunctions} {q : Program} {held : Part → LoopOperator → ω → Prop} {m₀ m : Machine ω}
  {τ : Spot} {a : Agenda} {reports : Array StageReport} {k : Part}

theorem Planned.place_lt (h : Planned p w plan b f q held) (k : Part) :
    place p w k < plan.stages.length := h.finished.length_stages ▸ h.loop.place_lt k

theorem Planned.exists_place (h : Planned p w plan b f q held) {s : StageId}
    (hs : s < plan.stages.length) : ∃ k, place p w k = s :=
  h.loop.exists_place (h.finished.length_stages ▸ hs)

theorem Planned.tasks_place (h : Planned p w plan b f q held) (k : Part) :
    (plan.stage (place p w k)).tasks = [w k] :=
  h.loop.keepsApart.tasks_place h.finished (h.loop.needs k)

theorem Planned.roles_eq (h : Planned p w plan b f q held) (k : Part) :
    (plan.graph.task (w k)).operator.loopRoles = if k.isHead = true then some {} else none := by
  rw [h.finished.operator, h.loop.graph.roles]

theorem Planned.inputChannel_eq (h : Planned p w plan b f q held) (k : Part) (i : Nat) :
    (plan.graph.task (w k)).inputChannel i = (p.graph.task (w k)).inputChannel i :=
  h.finished.sameWiring.input _ _

/-- A stage waits for the stage of the part before its own. -/
theorem Planned.mem_predecessors (h : Planned p w plan b f q held) {s : StageId} :
    s ∈ (plan.stage (place p w k)).predecessors ↔
      ∃ k' : Part, k.before = some k' ∧ s = place p w k' := by
  rw [h.loop.keepsApart.mem_predecessors h.finished (h.loop.needs k)]
  constructor
  · rintro ⟨_, hf, rfl⟩
    obtain ⟨k', hk', rfl⟩ := h.loop.forward_iff.mp hf
    exact ⟨k', hk', rfl⟩
  · rintro ⟨k', hk', rfl⟩
    exact ⟨w k', h.loop.forward_iff.mpr ⟨k', hk', rfl⟩, rfl⟩

/-- Where a head stands, going by its loop operator. -/
theorem Planned.loopState_eq (h : Planned p w plan b f q held) (hk : k.isHead = true)
    {l : LoopOperator} {memory : ω} (hl : held k l memory) :
    plan.loopState b memory (w k) = l.state := by
  unfold Plan.loopState TaskGraph.loopState
  rw [h.finished.operator]
  exact (h.operators.hosts k hk).state l memory hl

/-! ## The stage that can be executed -/

/-- The part that is next is ready. -/
theorem Stands.isReadyFor (h : Planned p w plan b f q held)
    (hs : Stands p w plan b q held m₀ τ a reports m) (hpart : τ.part = some k) :
    plan.IsReadyFor b m (w k) τ.activation := by
  have hbound : ∀ i ∈ τ.inputs,
      ((plan.graph.task (w k)).inputChannel i).any m.state.contains = true := fun i hi => by
    obtain ⟨u, o, hlink⟩ := Spot.exists_link hpart hi
    obtain ⟨c, hc, -⟩ := h.loop.graph.exists_input hlink
    rw [h.inputChannel_eq, hc]
    exact (hs.inputs k hpart i hi c hc).contains
  unfold Plan.IsReadyFor readiness
  rw [h.roles_eq]
  by_cases hk : k.isHead = true
  · obtain ⟨hact, hreads⟩ := Spot.activation_head hk hpart
    have hstate := h.loopState_eq hk (hs.held k hk)
    rw [(Spot.turn_head q.converges q.ends hk hpart).1] at hstate
    have hin : ∀ i, LoopOperator.readsIn τ.iteration i →
        ((plan.graph.task (w k)).inputChannel i).any m.state.contains = true :=
      fun i hi => hbound i ((hreads i).mp hi)
    rw [hact, hstate, if_pos hk]
    unfold LoopOperator.atTurn LoopOperator.activationIn LoopOperator.readsIn at *
    by_cases hi : τ.iteration = 0
    · simp only [hi, if_true] at hin
      simp [hi, hin 0 (Or.inl rfl), hin 1 (Or.inr rfl)]
    · simp only [hi, if_false] at hin
      simp [hi, hin 2 (Or.inl rfl), hin 3 (Or.inr rfl)]
  · obtain ⟨hact, hall⟩ := Spot.activation_plain (Bool.eq_false_iff.mpr hk) hpart
    rw [hact, if_neg hk]
    simp only
    rw [if_pos]
    refine List.all_eq_true.mpr fun i hi => ?_
    rw [List.mem_range, h.finished.inputs, h.loop.graph.arity] at hi
    exact hbound i (hall i hi)

/-- A part that reads the result of a loop which has not finished is not ready. -/
theorem Stands.not_inboundReady_of_running (h : Planned p w plan b f q held)
    (hs : Stands p w plan b q held m₀ τ a reports m) {k' : Part}
    (hlink : (k', 2, k, 0) ∈ Part.links) (hrank : (τ.turn k').rank ≤ 2) :
    plan.inboundReady b m.memory m.state (w k) = false := by
  have hheads : ∀ x ∈ Part.links, x.2.1 = 2 → x.1.isHead = true ∧ x.2.2.1.isHead = false := by
    decide
  obtain ⟨hhead, hplain⟩ := hheads _ hlink rfl
  obtain ⟨c, hc, ho, -⟩ := h.loop.graph.exists_input hlink
  refine not_inboundReady (i := 0) (c := c) ?_ ((h.inputChannel_eq k 0).trans hc)
    (h.loop.keepsApart.isFedExternally h.finished (h.loop.needs k) hc) ?_
  · rw [h.roles_eq, if_neg (by simp [hplain])]
  · unfold ExecutionState.contains
    rw [Std.TreeMap.contains_eq_isSome_getElem?]
    exact congrArg Option.isSome (hs.result k' hhead hrank c ho)

/-- The head of a loop that has finished is not ready. -/
theorem Stands.not_inboundReady_of_finished (h : Planned p w plan b f q held)
    (hs : Stands p w plan b q held m₀ τ a reports m) (hk : k.isHead = true)
    (hrank : (τ.turn k).rank = 3) : plan.inboundReady b m.memory m.state (w k) = false := by
  have hstate := h.loopState_eq hk (hs.held k hk)
  have hfinished : ((q.loop k).atTurn 1 (τ.turn k)).state = .finished := by
    simp [LoopOperator.atTurn, hrank]
  unfold Plan.inboundReady readiness
  simp only [h.roles_eq, if_pos hk, hstate, hfinished]
  rfl

theorem Planned.isExecutable_iff (h : Planned p w plan b f q held) :
    plan.isExecutable b a m (place p w k) = true ↔ a.isPending (place p w k) = true ∧
      (∀ k' : Part, k.before = some k' → a.isPending (place p w k') = false) ∧
      plan.inboundReady b m.memory m.state (w k) = true := by
  rw [Plan.isExecutable_eq_true_iff]
  simp only [h.tasks_place, List.mem_singleton, forall_eq, h.mem_predecessors]
  refine and_congr_right fun _ => and_congr_left fun _ => ?_
  constructor
  · exact fun hall k' hk' => hall _ ⟨k', hk', rfl⟩
  · rintro hall _ ⟨k', hk', rfl⟩
    exact hall k' hk'

/-- **Exactly the stage of the part that is next can be executed.** -/
theorem Stands.isExecutable_iff (h : Planned p w plan b f q held)
    (hs : Stands p w plan b q held m₀ τ a reports m) :
    plan.isExecutable b a m (place p w k) = true ↔ τ.part = some k := by
  rw [h.isExecutable_iff]
  constructor
  · rintro ⟨hpend, hbefore, hready⟩
    by_contra hpart
    rcases Spot.waits ((hs.pending k).mp hpend) hpart with ⟨k', hk', hpend'⟩ |
      ⟨k', hlink, hrank⟩ | ⟨hk, hrank⟩
    · have hdone := hbefore k' hk'
      rw [(hs.pending k').mpr hpend'] at hdone
      exact absurd hdone (by simp)
    · rw [hs.not_inboundReady_of_running h hlink hrank] at hready
      exact absurd hready (by simp)
    · rw [hs.not_inboundReady_of_finished h hk hrank] at hready
      exact absurd hready (by simp)
  · intro hpart
    refine ⟨(hs.pending k).mpr (Spot.mem_pending_of_part hpart), fun k' hk' => ?_,
      inboundReady_of_isReadyFor (hs.isReadyFor h hpart)⟩
    exact Bool.eq_false_iff.mpr fun hpend =>
      Spot.notMem_pending_of_before hpart hk' ((hs.pending k').mp hpend)

theorem Stands.nextExecutable (h : Planned p w plan b f q held)
    (hs : Stands p w plan b q held m₀ τ a reports m) (hpart : τ.part = some k) :
    plan.nextExecutable b a m = some (place p w k) := by
  refine Plan.nextExecutable_eq_some (h.place_lt k) fun y hy => ?_
  obtain ⟨k', rfl⟩ := h.exists_place hy
  rw [hs.isExecutable_iff h, hpart, h.loop.place_inj, Option.some.injEq, eq_comm]

/-- When no part is next, no stage can be executed. -/
theorem Stands.nextExecutable_none (h : Planned p w plan b f q held)
    (hs : Stands p w plan b q held m₀ τ a reports m) (hpart : τ.part = none) :
    plan.nextExecutable b a m = none := by
  unfold Plan.nextExecutable
  refine List.find?_eq_none.mpr fun y hy => ?_
  obtain ⟨k, rfl⟩ := h.exists_place (List.mem_range.mp hy)
  rw [hs.isExecutable_iff h, hpart]
  simp

end Stands

end NestedLoop

end Dataflow
