import Dataflow.Proofs.Loop.Operators
import Dataflow.Proofs.Loop.Readiness

/-!
# What holds at a turn of a while loop

Between two stage executions of a while loop the agenda, the published data, the loop operator and
the record of evaluations are as the turn says (`Stands`). So at every turn before the end exactly
one stage can be executed, that of the rank whose turn it is.

* `Turn.Pending`: what the agenda says at a turn.
* **`Stands.isExecutable_iff`**: the stage that can be executed.
* `Stands.execute_head`, `Stands.execute_plain`: what executing it does.

`Stands` has a field for each part of the engine that a later step depends on, and no more: what is
published and will still be read, what is pending, the state of the head and what the sink was
executed on. A datum that nobody reads any more is not mentioned, although it stays in the state.
-/

namespace Dataflow

namespace Turn

/-- The ranks whose stages are pending: those that have not had their turn in this iteration. When
the body has gone back to the head it is done. -/
def Pending (k : Nat) (τ : Turn) (r : Nat) : Prop :=
  τ.rank ≤ r ∧ ¬ (τ.rank = 1 ∧ 0 < τ.iteration ∧ 2 ≤ r ∧ r ≤ k + 1)

end Turn

/-- What is ready by what is published is ready. -/
theorem inboundReady_of_isReadyFor {ω : Type} {p : Plan} {b : Behaviour ω} {m : Machine ω}
    {t : TaskId} {activation : Activation} (h : p.IsReadyFor b m t activation) :
    p.inboundReady b m.memory m.state t = true := by
  unfold Plan.inboundReady
  refine readiness_mono (fun i _ hi => ?_) (Option.isSome_iff_exists.mpr ⟨activation, h⟩)
  rw [Bool.or_eq_true]
  exact Or.inr hi

namespace WhileLoop

/-- A while loop that is planned, with its operators. -/
structure Planned {ω : Type} (p : PreliminaryPlan) (w : WhileLoop) (plan : Plan) (b : Behaviour ω)
    (f : TaskFunctions) (F : TaskId → UInt64 → UInt64) (x : UInt64)
    (held : LoopOperator → ω → Prop) (l : LoopOperator) : Prop where
  loop : p.PlansWhile w
  finished : PreliminaryPlan.Finished p.graph p.plannedTasks p.firstRuns plan
  operators : w.Runs p.graph b f F x held
  decides : l.DecidesNumbers

/-- The stage of a task. -/
abbrev place (p : PreliminaryPlan) (t : TaskId) : StageId := PreliminaryPlan.PlansWhile.place p t

/-- The number at the start of an iteration. -/
def number (w : WhileLoop) (F : TaskId → UInt64 → UInt64) (x : UInt64) (i : Nat) : UInt64 :=
  (w.composition F)^[i] x

/-- The numbers that the sink was executed on so far, by the reports and by every record of
evaluations. -/
structure SinkRecord {ω : Type} (w : WhileLoop) (b : Behaviour ω) (m₀ : Machine ω)
    (reports : Array StageReport) (m : Machine ω) (ys : List UInt64) : Prop where
  reported : (reports.toList.flatMap StageReport.executed).filter (·.task = w.sink) =
    ys.map fun _ => ⟨w.sink, .plain⟩
  logged : ∀ log, b.Logs log → ∃ new, log m.memory = log m₀.memory ++ new ∧
    new.filter (·.task = w.sink) = ys.map fun y => ⟨w.sink, [some (.number y)]⟩

/-- One stage execution more. -/
theorem SinkRecord.push {ω : Type} {w : WhileLoop} {b : Behaviour ω} {m₀ m m' : Machine ω}
    {reports : Array StageReport} {report : StageReport} {ys : List UInt64}
    (h : SinkRecord w b m₀ reports m ys) (zs : List UInt64)
    (hexecuted : report.executed.filter (·.task = w.sink) = zs.map fun _ => ⟨w.sink, .plain⟩)
    (hlogged : ∀ log, b.Logs log → ∃ new, log m'.memory = log m.memory ++ new ∧
      new.filter (·.task = w.sink) = zs.map fun y => ⟨w.sink, [some (.number y)]⟩) :
    SinkRecord w b m₀ (reports.push report) m' (ys ++ zs) := by
  refine ⟨?_, fun log hlog => ?_⟩
  · rw [Array.toList_push, List.flatMap_append, List.filter_append, h.reported, List.map_append,
      List.flatMap_singleton, hexecuted]
  · obtain ⟨before, hbefore, hys⟩ := h.logged log hlog
    obtain ⟨new, hnew, hzs⟩ := hlogged log hlog
    refine ⟨before ++ new, ?_, ?_⟩
    · rw [hnew, hbefore, List.append_assoc]
    · rw [List.filter_append, hys, hzs, List.map_append]

/-- What holds when a turn is next. -/
structure Stands {ω : Type} (p : PreliminaryPlan) (w : WhileLoop) (plan : Plan) (b : Behaviour ω)
    (F : TaskId → UInt64 → UInt64) (x : UInt64) (held : LoopOperator → ω → Prop) (l : LoopOperator)
    (m₀ : Machine ω) (τ : Turn) (a : Agenda) (reports : Array StageReport) (m : Machine ω) :
    Prop where
  /-- The source has its turn before the first iteration only. -/
  first : τ.rank = 0 → τ.iteration = 0
  bound : τ.rank ≤ (w.segments p.graph).length + 3
  rest : m.AtRest
  length : a.length = plan.stages.length
  pending : ∀ t ∈ w.tasks, a.isPending (place p t) = true ↔
    τ.Pending (w.segments p.graph).length (w.rank p.graph t)
  held : held (l.atTurn (w.segments p.graph).length τ) m.memory
  /-- What the head is going to read is published. -/
  head : τ.rank = 1 → ∀ i c, LoopOperator.readsIn τ.iteration i →
    (p.graph.task w.head).inputChannel i = some c →
      m.Publishes c (.number (w.number F x τ.iteration))
  /-- What the other tasks of this rank are going to read is published. -/
  inputs : τ.rank ≠ 1 → ∀ t ∈ w.tasks, w.rank p.graph t = τ.rank → ∀ i c,
    (p.graph.task t).inputChannel i = some c → plan.isFedExternally t i = true →
      m.Publishes c (w.values p.graph F x (w.number F x τ.iteration) c)
  /-- The result is missing as long as the loop is running. -/
  result : τ.rank ≤ (w.segments p.graph).length + 1 → ∀ c,
    (p.graph.task w.sink).inputChannel 0 = some c → m.state.get? c = none
  /-- The sink is executed at the end only. -/
  sink : SinkRecord w b m₀ reports m
    (if τ.rank = (w.segments p.graph).length + 3 then [w.number F x τ.iteration] else [])

section Stands

variable {ω : Type} {p : PreliminaryPlan} {w : WhileLoop} {plan : Plan} {b : Behaviour ω}
  {f : TaskFunctions} {F : TaskId → UInt64 → UInt64} {x : UInt64} {held : LoopOperator → ω → Prop}
  {l : LoopOperator} {m₀ m : Machine ω} {τ : Turn} {a : Agenda} {reports : Array StageReport}

open PreliminaryPlan PreliminaryPlan.PlansWhile

/-! ## The stage that can be executed -/

theorem Planned.exists_place (h : Planned p w plan b f F x held l) {s : StageId}
    (hs : s < plan.stages.length) : ∃ t ∈ w.tasks, place p t = s :=
  h.loop.exists_place (h.finished.length_stages ▸ hs)

theorem Planned.place_lt (h : Planned p w plan b f F x held l) {t : TaskId} (ht : t ∈ w.tasks) :
    place p t < plan.stages.length := h.finished.length_stages ▸ h.loop.place_lt_count ht

/-- At its turn the head is ready. -/
theorem Stands.isReadyFor (h : Planned p w plan b f F x held l)
    (hs : Stands p w plan b F x held l m₀ τ a reports m) (hτ : τ.rank = 1) :
    plan.IsReadyFor b m w.head (LoopOperator.activationIn τ.iteration) := by
  have hstate : plan.loopState b m.memory w.head =
      (l.atTurn (w.segments p.graph).length τ).state := by
    unfold Plan.loopState TaskGraph.loopState
    rw [h.finished.operator]
    exact h.operators.hosts.state _ _ hs.held
  have hbound : ∀ {u o i}, w.Links u o w.head i → LoopOperator.readsIn τ.iteration i →
      ((plan.graph.task w.head).inputChannel i).any m.state.contains = true := fun hl hi => by
    obtain ⟨c, hc, -⟩ := h.loop.graph.exists_input hl
    rw [(h.finished.sameWiring.input _ _).trans hc]
    exact (hs.head hτ _ c hi hc).contains
  obtain ⟨before, u, hlast⟩ := WhileLoop.exists_last h.loop.graph.nonempty
  unfold Plan.IsReadyFor readiness
  rw [h.finished.operator, h.loop.graph.roles, hstate]
  unfold LoopOperator.atTurn LoopOperator.activationIn LoopOperator.readsIn at *
  by_cases hi : τ.iteration = 0
  · simp only [hi, if_true] at hbound
    simp [hτ, hi, hbound .start (Or.inl rfl), hbound .startConvergence (Or.inr rfl)]
  · simp only [hi, if_false] at hbound
    simp [hτ, hi, hbound (.back hlast) (Or.inl rfl), hbound (.backConvergence hlast) (Or.inr rfl)]

/-- At its turn a stage is ready. -/
theorem Stands.inboundReady (h : Planned p w plan b f F x held l)
    (hs : Stands p w plan b F x held l m₀ τ a reports m) {t : TaskId} (ht : t ∈ w.tasks)
    (hτ : w.rank p.graph t = τ.rank) : plan.inboundReady b m.memory m.state t = true := by
  by_cases hone : τ.rank = 1
  · obtain ⟨he, -⟩ | ⟨rfl, -⟩ | ⟨-, hr⟩ | ⟨-, hr, -⟩ := h.loop.graph.rank_cases ht
    · rw [he, w.rank_source] at hτ
      omega
    · exact inboundReady_of_isReadyFor (hs.isReadyFor h hone)
    · omega
    · omega
  · have hne : t ≠ w.head := fun he => by
      rw [he, h.loop.graph.rank_head] at hτ
      exact hone hτ.symm
    refine inboundReady_of_published (h.loop.roles_eq_none h.finished ht hne) ?_
    intro i c hc hx
    exact (hs.inputs hone t ht hτ i c ((h.finished.sameWiring.input _ _).symm.trans hc) hx).contains

/-- While the loop is running the sink is not ready. -/
theorem Stands.not_inboundReady_sink (h : Planned p w plan b f F x held l)
    (hs : Stands p w plan b F x held l m₀ τ a reports m)
    (hτ : τ.rank ≤ (w.segments p.graph).length + 1) :
    plan.inboundReady b m.memory m.state w.sink = false := by
  obtain ⟨c, hc, -⟩ := h.loop.graph.exists_input .result
  have hx : plan.isFedExternally w.sink 0 = true := by
    rw [h.loop.isFedExternally_iff h.finished .result, h.loop.graph.rank_head,
      h.loop.graph.rank_sink]
    exact Or.inr (by omega)
  refine not_inboundReady (h.loop.roles_eq_none h.finished (w.mem_sink)
    (Ne.symm h.loop.graph.distinct.head_ne_sink)) ((h.finished.sameWiring.input _ _).trans hc) hx ?_
  unfold ExecutionState.contains
  rw [Std.TreeMap.contains_eq_isSome_getElem?]
  exact congrArg Option.isSome (hs.result hτ c hc)

/-- A rank that waits for an earlier one that is pending cannot be executed, and the only pending
rank that waits for none is that of the turn. -/
theorem Stands.exists_pending_predecessor (h : Planned p w plan b f F x held l)
    (hs : Stands p w plan b F x held l m₀ τ a reports m) {u : TaskId} (hu : u ∈ w.tasks)
    (hpend : a.isPending (place p u) = true) (hlt : τ.rank < w.rank p.graph u)
    (hnot : ¬ (u = w.sink ∧ 2 ≤ τ.rank)) :
    ∃ q ∈ (plan.stage (place p u)).predecessors, a.isPending q = true := by
  obtain ⟨hle, hdone⟩ := (hs.pending u hu).mp hpend
  have hpred : ∀ {v o t}, w.Links v o t 0 → w.rank p.graph v < w.rank p.graph t →
      w.rank p.graph t = w.rank p.graph u →
      τ.Pending (w.segments p.graph).length (w.rank p.graph v) →
        ∃ q ∈ (plan.stage (place p u)).predecessors, a.isPending q = true := by
    intro v o t hl hlt htu hv
    obtain ⟨hvm, htm⟩ := WhileLoop.mem_of_links hl
    have hplace : place p t = place p u := (h.loop.place_eq_iff htm hu).mpr htu
    refine ⟨place p v, ?_, (hs.pending v hvm).mpr hv⟩
    rw [← hplace]
    exact h.loop.mem_predecessors_of_links h.finished hl (by omega) hlt
  have hhead := h.loop.graph.rank_head
  rcases h.loop.graph.rank_cases hu with ⟨-, hr⟩ | ⟨rfl, hr⟩ | ⟨rfl, hr⟩ | ⟨hb, hr, hr'⟩
  · omega
  · refine hpred .start ?_ rfl ⟨?_, ?_⟩ <;> rw [w.rank_source]
    · omega
    · omega
    · omega
  · have hτ : τ.rank < 2 := by
      by_contra hge
      exact hnot ⟨rfl, by omega⟩
    exact hpred .result (by omega) rfl ⟨by omega, by omega⟩
  · by_cases htwo : w.rank p.graph u = 2
    · obtain ⟨t, rest, hbody⟩ := List.exists_cons_of_ne_nil h.loop.graph.nonempty
      have henter := h.loop.graph.rank_enter hbody
      exact hpred (.enter hbody) (by omega) (by omega) ⟨by omega, by omega⟩
    · obtain ⟨before, v, t, after, hbody, hv, ht⟩ :=
        h.loop.graph.exists_step (n := w.rank p.graph u) (by omega) hr'
      exact hpred (.step hbody) (by omega) ht ⟨by omega, by omega⟩

/-- **Exactly the stage of the rank whose turn it is can be executed.** -/
theorem Stands.isExecutable_iff (h : Planned p w plan b f F x held l)
    (hs : Stands p w plan b F x held l m₀ τ a reports m) {u : TaskId} (hu : u ∈ w.tasks) :
    plan.isExecutable b a m (place p u) = true ↔ w.rank p.graph u = τ.rank := by
  rw [Plan.isExecutable_eq_true_iff]
  constructor
  · rintro ⟨hpend, hpreds, hready⟩
    by_contra hne
    have hle := ((hs.pending u hu).mp hpend).1
    by_cases hsink : u = w.sink ∧ 2 ≤ τ.rank
    · obtain ⟨rfl, -⟩ := hsink
      have hrank := h.loop.graph.rank_sink
      have hmem := (h.loop.mem_stage h.finished hu).mpr ⟨hu, rfl⟩
      have hno := hs.not_inboundReady_sink h (by omega)
      rw [hready _ hmem] at hno
      exact absurd hno (by simp)
    · obtain ⟨q, hq, hqp⟩ := hs.exists_pending_predecessor h hu hpend (by omega) hsink
      rw [hpreds q hq] at hqp
      exact absurd hqp (by simp)
  · intro hτ
    refine ⟨(hs.pending u hu).mpr ⟨by omega, by omega⟩, fun q hq => ?_, fun t ht => ?_⟩
    · obtain ⟨v, o, t, i, hl, htu, hlt, rfl⟩ :=
        h.loop.exists_links_of_predecessor h.finished hu hq
      refine Bool.eq_false_iff.mpr ?_
      intro hv
      have := ((hs.pending v (WhileLoop.mem_of_links hl).1).mp hv).1
      omega
    · obtain ⟨ht, hr⟩ := (h.loop.mem_stage h.finished hu).mp ht
      exact hs.inboundReady h ht (hr.trans hτ)

/-- The stage of the turn is next. -/
theorem Stands.nextExecutable (h : Planned p w plan b f F x held l)
    (hs : Stands p w plan b F x held l m₀ τ a reports m) {u : TaskId} (hu : u ∈ w.tasks)
    (hτ : w.rank p.graph u = τ.rank) : plan.nextExecutable b a m = some (place p u) := by
  refine Plan.nextExecutable_eq_some (h.place_lt hu) ?_
  intro y hy
  obtain ⟨t, ht, rfl⟩ := h.exists_place hy
  rw [hs.isExecutable_iff h ht, ← hτ]
  exact (h.loop.place_eq_iff ht hu).symm

/-! ## Executing the head -/

theorem Planned.outputs_head (h : Planned p w plan b f F x held l) :
    2 < (plan.graph.task w.head).outputs.length := by
  obtain ⟨c, -, ho, -⟩ := h.loop.graph.exists_input .result
  rw [h.finished.outputs]
  exact lt_length_of_outputChannel ho

/-- What the head replies in an iteration. -/
structure HeadReplies (p : PreliminaryPlan) (w : WhileLoop) (plan : Plan) (b : Behaviour ω)
    (F : TaskId → UInt64 → UInt64) (x : UInt64) (held : LoopOperator → ω → Prop) (l : LoopOperator)
    (m : Machine ω) (i : Nat) (r : Reply ω) : Prop where
  emissions : r.emissions = LoopOperator.emissionsOf (plan.graph.task w.head).outputs.length
    (.number (w.number F x i)) (l.convergesAt (w.composition F) x i)
  held : held (l.atTurn (w.segments p.graph).length (Turn.next (w.segments p.graph).length
    (l.convergesAt (w.composition F) x) ⟨i, 1⟩)) r.memory
  logged : ∃ e : Evaluation, e.task = w.head ∧ ∀ log, b.Logs log →
    log r.memory = log m.memory ++ [e]

theorem Stands.answers {i : Nat} (h : Planned p w plan b f F x held l)
    (hs : Stands p w plan b F x held l m₀ ⟨i, 1⟩ a reports m) :
    Workspace.Answers plan b m w.head (LoopOperator.activationIn i)
      (fun memory => held (l.atTurn (w.segments p.graph).length ⟨i, 1⟩) memory ∧
        ∀ log, b.Logs log → log memory = log m.memory)
      (HeadReplies p w plan b F x held l m i) := by
  have hhosts := h.operators.hosts
  have hobject := congrArg Operator.object (h.finished.operator w.head)
  refine ⟨fun ctx _ => ?_, fun ctx memory hctx hmem => ?_, fun r hr _ => ?_⟩
  · rw [hobject]
    obtain ⟨hok, hheld⟩ := hhosts.prepare _ _ ctx hs.held
    exact ⟨hok, hheld, fun log hlog => hlog.prepare _ _ _⟩
  · rw [hobject]
    have heval := l.evaluate_at (f := w.composition F) (x := x) h.decides h.loop.graph.segments_pos
      hctx.activation (hctx.outputCount ▸ h.outputs_head) fun j hj => by
        obtain ⟨u, o, hl⟩ : ∃ u o, w.Links u o w.head j := by
          obtain ⟨before, u, hlast⟩ := WhileLoop.exists_last h.loop.graph.nonempty
          unfold LoopOperator.readsIn at hj
          split at hj
          · rcases hj with rfl | rfl
            · exact ⟨_, _, .start⟩
            · exact ⟨_, _, .startConvergence⟩
          · rcases hj with rfl | rfl
            · exact ⟨_, _, .back hlast⟩
            · exact ⟨_, _, .backConvergence hlast⟩
        obtain ⟨c, hc, -⟩ := h.loop.graph.exists_input hl
        rw [hctx.data]
        unfold Machine.data
        rw [(h.finished.sameWiring.input _ _).trans hc]
        exact (hs.head rfl j c hj hc).datum
    obtain ⟨hresult, hemit, htouch, hheld⟩ := hhosts.evaluate _ _ ctx hmem.1
    rw [heval] at hresult hemit htouch hheld
    refine ⟨⟨hresult, ?_⟩, ?_, hheld, ctx.evaluation, hctx.task, fun log hlog => ?_⟩
    · rw [htouch]
      exact fun t ht => absurd ht List.not_mem_nil
    · rw [hemit, hctx.outputCount]
      rfl
    · rw [hlog.evaluate, hmem.2 log hlog]
  · rw [hobject, hhosts.state _ _ hr.held]
    exact LoopOperator.state_atTurn_next

/-- What the head does at its turn. -/
theorem Stands.execute_head {i : Nat} (h : Planned p w plan b f F x held l)
    (hs : Stands p w plan b F x held l m₀ ⟨i, 1⟩ a reports m) (config : ExecutorConfig) :
    ∃ report m' r, plan.executeStage b config (place p w.head) m = (.ok report, m') ∧
      HeadReplies p w plan b F x held l m i r ∧ ExecutesAlone plan (place p w.head) w.head
        (LoopOperator.activationIn i) m r report m' :=
  executeAlone_spec config (h.loop.isAlone_head h.finished) (hs.answers h) hs.rest
    (hs.isReadyFor h rfl)

/-! ## Executing another stage -/

/-- What the other stages do at their turn. -/
theorem Stands.execute_plain (h : Planned p w plan b f F x held l)
    (hs : Stands p w plan b F x held l m₀ τ a reports m) (config : ExecutorConfig) {u : TaskId}
    (hu : u ∈ w.tasks) (hτ : w.rank p.graph u = τ.rank) (hne : τ.rank ≠ 1) :
    ∃ report m', plan.executeStage b config (place p u) m = (.ok report, m') ∧
      Executes plan (place p u) (w.values p.graph F x (w.number F x τ.iteration))
        (fun done memory => (∀ log, b.Logs log → log memory = log m.memory ++
          done.map (p.graph.evaluation (w.values p.graph F x (w.number F x τ.iteration)))) ∧
          held (l.atTurn (w.segments p.graph).length τ) memory) m report m' := by
  refine executeStage_spec config (h.loop.isPlain h.finished hu (hτ ▸ hne)) (fun t ht => ?_)
    ⟨hs.rest, ⟨fun log _ => ?_, hs.held⟩, fun t ht i c hc hx => ?_⟩
  · obtain ⟨ht, hr⟩ := (h.loop.mem_stage h.finished hu).mp ht
    refine Runs.serves h.loop h.operators h.finished ht (fun he => hne ?_) _ fun log => log m.memory
    rw [← hτ, ← hr, he, h.loop.graph.rank_head]
  · rw [List.map_nil, List.append_nil]
  · obtain ⟨ht, hr⟩ := (h.loop.mem_stage h.finished hu).mp ht
    exact hs.inputs hne t ht (hr.trans hτ) i c ((h.finished.sameWiring.input _ _).symm.trans hc) hx

end Stands

end WhileLoop

end Dataflow
