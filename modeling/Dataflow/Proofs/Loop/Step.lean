import Dataflow.Proofs.Loop.Standing
import Mathlib.Data.List.Nodup

/-!
# From turn to turn of a while loop

The execution of the stage whose turn it is leads to the next turn, for the head
(`Stands.step_head`) and for the other stages (`Stands.step_plain`). So a while loop follows its
course (`Planned.follows`), and at the end nothing is pending (`Stands.not_isPending`).

Whose turn it is, what is published and what is pending are tied together by `Stands`. So a step has
three parts, which are proved one after the other: what the stage makes of what it reads, what is
published then, and what the agenda says. The first comes from the stage execution
(`Dataflow.Proofs.Execution.HeadRun` for the head, `Dataflow.Proofs.Execution.Push` for the others).
For the third it has to be known which stages are recorded for the loop: those of the body and no
others (`Planned.isInBodyOf_iff`), so that the agenda changes only behind a segment of the body, where
the last one makes the head pending, and behind the head.
-/

namespace Dataflow

namespace WhileLoop

section Steps

variable {ω : Type} {p : PreliminaryPlan} {w : WhileLoop} {plan : Plan} {b : Behaviour ω}
  {f : TaskFunctions} {F : TaskId → UInt64 → UInt64} {x : UInt64} {held : LoopOperator → ω → Prop}
  {l : LoopOperator} {m₀ m : Machine ω} {τ : Turn} {a : Agenda} {reports : Array StageReport}

open PreliminaryPlan PreliminaryPlan.PlansWhile

/-! ## The agenda -/

theorem Planned.loopHead_of_ne (h : Planned p w plan b f F x held l) {u : TaskId}
    (hu : u ∈ w.tasks) (hne : u ≠ w.head) : (plan.stage (place p u)).loopHead = none := by
  rw [h.loop.loopHead_eq h.finished hu, if_neg hne]

theorem Planned.isInBodyOf_iff (h : Planned p w plan b f F x held l) {u : TaskId}
    (hu : u ∈ w.tasks) : plan.isInBodyOf (place p w.head) (place p u) = true ↔ u ∈ w.body := by
  unfold Plan.isInBodyOf
  rw [h.loop.loopHeadStage_eq h.finished hu]
  by_cases hb : u ∈ w.body <;> simp [hb]

/-- Where the head stands, going by the loop operator. -/
theorem Planned.headState_eq (h : Planned p w plan b f F x held l) {k : LoopOperator} {memory : ω}
    (hk : held k memory) : plan.headState b memory (place p w.head) = some k.state := by
  unfold Plan.headState Plan.loopState TaskGraph.loopState
  rw [h.loop.loopHead_eq h.finished (w.mem_head), if_pos rfl, Option.map_some, h.finished.operator]
  exact congrArg some (h.operators.hosts.state k memory hk)

/-- What is pending after the source or the sink. -/
theorem Stands.pending_rearm_apart (h : Planned p w plan b f F x held l)
    (hs : Stands p w plan b F x held l m₀ τ a reports m) {u t : TaskId} (hu : u ∈ w.tasks)
    (hτ : w.rank p.graph u = τ.rank) (hhead : u ≠ w.head) (hbody : u ∉ w.body) (ht : t ∈ w.tasks)
    (memory : ω) : (plan.rearm b memory (place p u) a).isPending (place p t) = true ↔
      τ.Pending (w.segments p.graph).length (w.rank p.graph t) ∧ w.rank p.graph t ≠ τ.rank := by
  have hloop : (plan.stage (place p u)).loopHeadStage = none := by
    rw [h.loop.loopHeadStage_eq h.finished hu, if_neg hbody]
  rw [Plan.isPending_rearm_apart (h.loopHead_of_ne hu hhead) hloop, hs.pending t ht, ← hτ]
  exact and_congr_right fun _ => not_congr (h.loop.place_eq_iff ht hu)

/-- What is pending after a segment of the body: after the last one it is the turn of the head. -/
theorem Stands.pending_rearm_body (h : Planned p w plan b f F x held l)
    (hs : Stands p w plan b F x held l m₀ τ a reports m) {u t : TaskId} (hu : u ∈ w.body)
    (hτ : w.rank p.graph u = τ.rank) (ht : t ∈ w.tasks) {k : LoopOperator} {memory : ω}
    (hk : held k memory) (hrun : k.state = .running) :
    (plan.rearm b memory (place p u) a).isPending (place p t) = true ↔
      (w.rank p.graph t = 1 ∧ τ.rank = (w.segments p.graph).length + 1) ∨
      (τ.Pending (w.segments p.graph).length (w.rank p.graph t) ∧ w.rank p.graph t ≠ τ.rank) := by
  have hum := mem_of_body hu
  have hne : u ≠ w.head := ne_of_mem_of_not_mem hu h.loop.graph.distinct.head_notMem
  have hbounds := h.loop.graph.rank_bounds hu
  have hloop : (plan.stage (place p u)).loopHeadStage = some (place p w.head) := by
    rw [h.loop.loopHeadStage_eq h.finished hum, if_pos hu]
  have hlast : (∀ y < plan.stages.length, plan.isInBodyOf (place p w.head) y = true →
      a.isPending y = true → y = place p u) ↔ τ.rank = (w.segments p.graph).length + 1 := by
    constructor
    · intro hall
      by_contra hnot
      -- the next segment is pending
      obtain ⟨before, v, v', after, hb, -, hv'⟩ :=
        h.loop.graph.exists_step (n := τ.rank + 1) (by omega) (by omega)
      have hv'b := (WhileLoop.mem_of_step hb).2
      have hv'm := mem_of_body hv'b
      have heq := hall _ (h.place_lt hv'm) ((h.isInBodyOf_iff hv'm).mpr hv'b)
        ((hs.pending _ hv'm).mpr ⟨by omega, by omega⟩)
      have := (h.loop.place_eq_iff hv'm hum).mp heq
      omega
    · intro hend y hy hbody hpend
      obtain ⟨v, hv, rfl⟩ := h.exists_place hy
      have hvb := h.loop.graph.rank_bounds ((h.isInBodyOf_iff hv).mp hbody)
      have hle := ((hs.pending v hv).mp hpend).1
      exact (h.loop.place_eq_iff hv hum).mpr (by omega)
  rw [Plan.isPending_rearm_body (h.loopHead_of_ne hum hne) hloop (hrun ▸ h.headState_eq hk), hlast,
    hs.pending t ht, ← hτ]
  refine or_congr ⟨?_, ?_⟩ (and_congr_right fun _ => not_congr (h.loop.place_eq_iff ht hum))
  · rintro ⟨-, heq, hend⟩
    exact ⟨((h.loop.place_eq_iff ht (w.mem_head)).mp heq).trans h.loop.graph.rank_head, hend⟩
  · rintro ⟨hone, hend⟩
    refine ⟨hs.length ▸ h.place_lt ht, (h.loop.place_eq_iff ht (w.mem_head)).mpr ?_, hend⟩
    rw [hone, h.loop.graph.rank_head]

/-- What is pending after the head. -/
theorem Stands.pending_rearm_head {i : Nat} (h : Planned p w plan b f F x held l)
    (hs : Stands p w plan b F x held l m₀ ⟨i, 1⟩ a reports m) {t : TaskId} (ht : t ∈ w.tasks)
    {converges : Nat → Bool} {memory : ω} (hk : held (l.atTurn (w.segments p.graph).length
      (Turn.next (w.segments p.graph).length converges ⟨i, 1⟩)) memory) :
    (plan.rearm b memory (place p w.head) a).isPending (place p t) = true ↔
      (Turn.next (w.segments p.graph).length converges ⟨i, 1⟩).Pending
        (w.segments p.graph).length (w.rank p.graph t) := by
  have hpos := h.loop.graph.segments_pos
  have hrank := h.loop.graph.rank_le ht
  have hloop : (plan.stage (place p w.head)).loopHeadStage = none := by
    rw [h.loop.loopHeadStage_eq h.finished (w.mem_head), if_neg h.loop.graph.distinct.head_notMem]
  have hone : place p t ≠ place p w.head ↔ w.rank p.graph t ≠ 1 := by
    rw [Ne, h.loop.place_eq_iff ht (w.mem_head), h.loop.graph.rank_head]
  have hbody : plan.isInBodyOf (place p w.head) (place p t) = true ↔
      2 ≤ w.rank p.graph t ∧ w.rank p.graph t ≤ (w.segments p.graph).length + 1 := by
    rw [h.isInBodyOf_iff ht]
    refine ⟨h.loop.graph.rank_bounds, fun hb => ?_⟩
    rcases h.loop.graph.rank_cases ht with ⟨-, hr⟩ | ⟨-, hr⟩ | ⟨-, hr⟩ | ⟨hmem, -⟩
    · omega
    · omega
    · omega
    · exact hmem
  have hhead := h.headState_eq hk
  cases hc : converges i with
  | true =>
    rw [Turn.next_converged hc] at hhead ⊢
    have hstate : (l.atTurn (w.segments p.graph).length
        ⟨i, (w.segments p.graph).length + 2⟩).state = .finished := by simp [LoopOperator.atTurn]
    rw [hstate] at hhead
    have hout := Bool.eq_false_iff.trans (not_congr hbody)
    rw [Plan.isPending_rearm_finished hhead hloop, hs.pending t ht, hone, hout]
    simp only [Turn.Pending]
    omega
  | false =>
    rw [Turn.next_iterating hc] at hhead ⊢
    have hstate : (l.atTurn (w.segments p.graph).length ⟨i, 2⟩).state = .running := by
      unfold LoopOperator.atTurn
      simp only
      rw [if_neg (by omega), if_pos (by omega)]
    rw [hstate] at hhead
    rw [Plan.isPending_rearm_running hhead hloop, hs.pending t ht, hone, hbody]
    have hlt : place p t < a.length := hs.length ▸ h.place_lt ht
    simp only [Turn.Pending, hlt, true_and]
    omega

/-- At the end nothing is pending. -/
theorem Stands.not_isPending (h : Planned p w plan b f F x held l)
    (hs : Stands p w plan b F x held l m₀ τ a reports m)
    (hend : τ.IsOver (w.segments p.graph).length) (y : StageId) : a.isPending y = false := by
  refine Bool.eq_false_iff.mpr ?_
  intro hy
  obtain ⟨t, ht, rfl⟩ := h.exists_place (hs.length ▸ Agenda.lt_length_of_isPending hy)
  have hle := h.loop.graph.rank_le ht
  have hpend := ((hs.pending t ht).mp hy).1
  unfold Turn.IsOver at hend
  omega

/-! ## The turn of the head -/

/-- What the head emits on the output of the iteration, or on that of the result. -/
theorem HeadReplies.emits {i : Nat} (h : Planned p w plan b f F x held l) {r : Reply ω}
    (hr : HeadReplies p w plan b F x held l m i r) {o t j : Nat} {c : ChannelId}
    (hl : w.Links w.head o t j) (hc : (p.graph.task t).inputChannel j = some c)
    (ho : o = if l.convergesAt (w.composition F) x i = true then 2 else 0) :
    plan.Emits w.head r c (.number (w.number F x i)) := by
  obtain ⟨c', hc', hout, -⟩ := h.loop.graph.exists_input hl
  obtain rfl : c' = c := Option.some.inj (hc'.symm.trans hc)
  refine ⟨o, ⟨.number (w.number F x i), none⟩, ?_, (h.finished.sameWiring.output _ _).trans hout,
    rfl⟩
  rw [hr.emissions]
  cases hconv : l.convergesAt (w.composition F) x i with
  | true =>
    rw [if_pos hconv] at ho
    rw [ho]
    exact LoopOperator.getElem?_emissionsOf_true _ h.outputs_head
  | false =>
    rw [if_neg (by simp [hconv])] at ho
    rw [ho]
    exact LoopOperator.getElem?_emissionsOf_false _ h.outputs_head

/-- The result is emitted by a head that has converged only. -/
theorem HeadReplies.not_emits {i : Nat} (h : Planned p w plan b f F x held l) {r : Reply ω}
    (hr : HeadReplies p w plan b F x held l m i r) {c : ChannelId}
    (hc : (p.graph.task w.sink).inputChannel 0 = some c)
    (hconv : l.convergesAt (w.composition F) x i = false) (y : Payload) :
    ¬ plan.Emits w.head r c y := by
  rintro ⟨o, e, he, ho, -⟩
  rw [hr.emissions] at he
  have hlt := (LoopOperator.getElem?_emissionsOf he).2
  rw [if_neg (by simp [hconv])] at hlt
  obtain ⟨c', hc', hout, -⟩ := h.loop.graph.exists_input .result
  obtain rfl : c' = c := Option.some.inj (hc'.symm.trans hc)
  have ho' := (h.finished.sameWiring.output _ _).symm.trans ho
  have hw := h.loop.graph.built.wired
  have htwo := ((hw.output_iff _ _ _).mp hout).2.2
  have hsame := ((hw.output_iff _ _ _).mp ho').2.2
  omega

/-- What the head emits is published. -/
theorem HeadReplies.publishes {i : Nat} (h : Planned p w plan b f F x held l) {r : Reply ω}
    (hr : HeadReplies p w plan b F x held l m i r) {report : StageReport} {m' : Machine ω}
    (hex : ExecutesAlone plan (place p w.head) w.head (LoopOperator.activationIn i) m r report m')
    {o t j : Nat} {c : ChannelId} (hl : w.Links w.head o t j)
    (hc : (p.graph.task t).inputChannel j = some c) (hx : plan.isFedExternally t j = true)
    (ho : o = if l.convergesAt (w.composition F) x i = true then 2 else 0) :
    m'.Publishes c (w.values p.graph F x (w.number F x i) c) := by
  obtain ⟨c', hc', -, -, hp, -⟩ := h.loop.graph.exists_input hl
  obtain rfl := Option.some.inj (hc'.symm.trans hc)
  unfold values
  rw [hp, h.loop.graph.datum_head]
  exact hex.published _ _ (hr.emits h hl hc ho) (h.loop.isOutward_of_links h.finished hc hx)

/-- The tasks whose turn is after that of the head read what the head emits. -/
theorem Planned.links_after_head (h : Planned p w plan b f F x held l) {converged : Bool}
    {t j : Nat} {c : ChannelId}
    (hrank : w.rank p.graph t = if converged = true then (w.segments p.graph).length + 2 else 2)
    (hc : (p.graph.task t).inputChannel j = some c) (hx : plan.isFedExternally t j = true) :
    ∃ o, w.Links w.head o t j ∧ o = if converged = true then 2 else 0 := by
  have hpos := h.loop.graph.segments_pos
  have hl := h.loop.graph.links_of_input hc
  have hu := (WhileLoop.mem_of_links hl).1
  rcases h.loop.graph.rank_of_links hl with ⟨he, -⟩ | ⟨hp, he, ho, -⟩ | ⟨hb, -, ho, hstep⟩
  · rw [he, h.loop.graph.rank_head] at hrank
    split at hrank <;> omega
  · rw [he, h.loop.graph.rank_sink] at hrank
    cases converged with
    | true => exact ⟨_, hp ▸ hl, ho⟩
    | false =>
      rw [if_neg Bool.false_ne_true] at hrank
      omega
  · have hbounds := h.loop.graph.rank_bounds hb
    have hne : t ≠ w.head := ne_of_mem_of_not_mem hb h.loop.graph.distinct.head_notMem
    have hdiff := ((h.loop.isFedExternally_iff h.finished hl).mp hx).resolve_left
      fun hz => hne hz.1
    cases converged with
    | true =>
      rw [if_pos rfl] at hrank
      omega
    | false =>
      rw [if_neg Bool.false_ne_true] at hrank
      rcases h.loop.graph.rank_cases hu with ⟨-, hr⟩ | ⟨hp, -⟩ | ⟨-, hr⟩ | ⟨-, hr, -⟩
      · omega
      · exact ⟨_, hp ▸ hl, ho⟩
      · omega
      · omega

/-- **The turn of the head leads to the next turn.** -/
theorem Stands.step_head {i : Nat} (h : Planned p w plan b f F x held l)
    (hs : Stands p w plan b F x held l m₀ ⟨i, 1⟩ a reports m) (config : ExecutorConfig) :
    ∃ s report m', plan.nextExecutable b a m = some s ∧
      plan.executeStage b config s m = (.ok report, m') ∧
      Stands p w plan b F x held l m₀ (Turn.next (w.segments p.graph).length
        (l.convergesAt (w.composition F) x) ⟨i, 1⟩) (plan.rearm b m'.memory s a)
        (reports.push report) m' := by
  obtain ⟨report, m', r, hrun, hr, hex⟩ := hs.execute_head h config
  have hpos := h.loop.graph.segments_pos
  have hheld := hr.held
  rw [← hex.memory] at hheld
  have hpending := fun t ht => hs.pending_rearm_head h (t := t) ht hheld
  refine ⟨place p w.head, report, m', hs.nextExecutable h w.mem_head h.loop.graph.rank_head, hrun,
    ?_⟩
  rw [Turn.next_head] at hheld hpending ⊢
  refine {
    first := fun hz => ?first
    bound := ?bound
    rest := hex.rest
    length := Plan.length_rearm.trans hs.length
    pending := hpending
    held := hheld
    head := fun hz => ?head
    inputs := fun _ t _ hrank j c hc hx => ?inputs
    result := fun hz c hc => ?result
    sink := ?sink }
  case first =>
    simp only at hz
    split at hz <;> omega
  case bound =>
    simp only
    split <;> omega
  case head =>
    simp only at hz
    split at hz <;> omega
  case inputs =>
    obtain ⟨o, hl, ho⟩ := h.links_after_head hrank hc hx
    exact hr.publishes h hex hl hc hx ho
  case result =>
    -- the loop goes on, so the result is not emitted
    have hconv : l.convergesAt (w.composition F) x i = false := by
      refine Bool.eq_false_iff.mpr ?_
      intro hc
      simp only [hc, if_true] at hz
      omega
    rw [(hex.kept c fun y => hr.not_emits h hc hconv y).1]
    exact hs.result (Nat.succ_le_succ (Nat.zero_le _)) c hc
  case sink =>
    have hbefore := hs.sink
    rw [if_neg (by simp only; omega)] at hbefore
    have hne := h.loop.graph.distinct.head_ne_sink
    rw [if_neg (by simp only; split <;> omega)]
    refine hbefore.push [] ?_ fun log hlog => ?_
    · rw [hex.executed]
      simp [hne]
    · obtain ⟨e, he, hadd⟩ := hr.logged
      exact ⟨[e], hex.memory ▸ hadd log hlog, by simp [he, hne]⟩

/-! ## The turns of the other stages -/

/-- What is pending after another stage than that of the head. -/
theorem Stands.pending_rearm_plain (h : Planned p w plan b f F x held l)
    (hs : Stands p w plan b F x held l m₀ τ a reports m) {u t : TaskId} (hu : u ∈ w.tasks)
    (hτ : w.rank p.graph u = τ.rank) (hone : τ.rank ≠ 1) (ht : t ∈ w.tasks)
    {memory : ω} (hk : held (l.atTurn (w.segments p.graph).length τ) memory)
    (converges : Nat → Bool) : (plan.rearm b memory (place p u) a).isPending (place p t) = true ↔
      (Turn.next (w.segments p.graph).length converges τ).Pending (w.segments p.graph).length
        (w.rank p.graph t) := by
  have hpos := h.loop.graph.segments_pos
  have hrank := h.loop.graph.rank_le ht
  have hfirst := hs.first
  rw [Turn.next_plain hone]
  rcases h.loop.graph.rank_cases hu with ⟨rfl, hr⟩ | ⟨-, hr⟩ | ⟨rfl, hr⟩ | ⟨hb, hr, hr'⟩
  · rw [hs.pending_rearm_apart h hu hτ h.loop.graph.distinct.source_ne_head
      h.loop.graph.distinct.source_notMem ht, if_neg (by omega)]
    simp only [Turn.Pending]
    omega
  · omega
  · rw [hs.pending_rearm_apart h hu hτ (Ne.symm h.loop.graph.distinct.head_ne_sink)
      h.loop.graph.distinct.sink_notMem ht, if_neg (by omega)]
    simp only [Turn.Pending]
    omega
  · have hrun : (l.atTurn (w.segments p.graph).length τ).state = .running := by
      unfold LoopOperator.atTurn
      simp only
      rw [if_neg (by omega), if_pos (by omega)]
    rw [hs.pending_rearm_body h hb hτ ht hk hrun]
    split
    · simp only [Turn.Pending, true_and]
      omega
    · simp only [Turn.Pending]
      omega

variable {u : TaskId} {report : StageReport} {m' : Machine ω}

/-- What the stage of a turn has done. -/
abbrev Stands.Executed (p : PreliminaryPlan) (w : WhileLoop) (plan : Plan) (b : Behaviour ω)
    (F : TaskId → UInt64 → UInt64) (x : UInt64) (held : LoopOperator → ω → Prop) (l : LoopOperator)
    (τ : Turn) (u : TaskId) (m : Machine ω) (report : StageReport) (m' : Machine ω) : Prop :=
  Executes plan (place p u) (w.values p.graph F x (w.number F x τ.iteration))
    (fun done memory => (∀ log, b.Logs log → log memory = log m.memory ++
      done.map (p.graph.evaluation (w.values p.graph F x (w.number F x τ.iteration)))) ∧
      held (l.atTurn (w.segments p.graph).length τ) memory) m report m'

/-- What a task of the stage feeds to others is published. -/
theorem Stands.Executed.publishes (h : Planned p w plan b f F x held l)
    (hex : Executed p w plan b F x held l τ u m report m') (hu : u ∈ w.tasks) {v t : TaskId}
    {o i : Nat} {c : ChannelId} (hl : w.Links v o t i) (hv : w.rank p.graph v = w.rank p.graph u)
    (hc : (p.graph.task t).inputChannel i = some c) (hx : plan.isFedExternally t i = true) :
    m'.Publishes c (.number (w.datum F x (w.number F x τ.iteration) v)) := by
  obtain ⟨c', hc', -, hlt, hp, -⟩ := h.loop.graph.exists_input hl
  obtain rfl : c' = c := Option.some.inj (hc'.symm.trans hc)
  rw [← hp]
  refine hex.published c' ⟨?_, ?_, h.loop.isOutward_of_links h.finished hc hx⟩
  · rw [h.finished.sameWiring.length]
    exact hlt
  · rw [h.finished.sameWiring.producer, h.loop.mem_stage h.finished hu, hp]
    exact ⟨(WhileLoop.mem_of_links hl).1, hv⟩

/-- The sink is among the tasks of a stage if its turn is the last one. -/
theorem Planned.filter_sink (h : Planned p w plan b f F x held l) {done : List TaskId}
    (hperm : done.Perm (plan.stage (place p u)).tasks) (hu : u ∈ w.tasks)
    (hτ : w.rank p.graph u = τ.rank) : done.filter (fun t => t = w.sink) =
      if τ.rank = (w.segments p.graph).length + 2 then [w.sink] else [] := by
  have hmem : ∀ t, t ∈ done ↔ t ∈ w.tasks ∧ w.rank p.graph t = τ.rank := fun t => by
    rw [hperm.mem_iff, h.loop.mem_stage h.finished hu, hτ]
  split
  · rename_i hsink
    have hnodup := hperm.nodup_iff.mpr
      (h.finished.nodup_tasks h.loop.scope (h.loop.place_lt_count hu))
    have hin := (hmem w.sink).mpr ⟨w.mem_sink, h.loop.graph.rank_sink.trans hsink.symm⟩
    rw [List.filter_eq, List.count_eq_one_of_mem hnodup hin]
    rfl
  · rename_i hnot
    refine List.filter_eq_nil_iff.mpr fun t ht he => hnot ?_
    rw [← h.loop.graph.rank_sink, ← of_decide_eq_true he]
    exact ((hmem t).mp ht).2.symm

/-- The sink is executed, on the number of the iteration, when it is its turn. -/
theorem Stands.sink_push (h : Planned p w plan b f F x held l)
    (hs : Stands p w plan b F x held l m₀ τ a reports m)
    (hex : Executed p w plan b F x held l τ u m report m') (hu : u ∈ w.tasks)
    (hτ : w.rank p.graph u = τ.rank) : SinkRecord w b m₀ (reports.push report) m'
      (if τ.rank = (w.segments p.graph).length + 2 then [w.number F x τ.iteration] else []) := by
  have hrank := h.loop.graph.rank_le hu
  have hbefore := hs.sink
  rw [if_neg (by omega)] at hbefore
  obtain ⟨done, hperm, hexecuted, hlogged, -⟩ := hex.tasks
  have hdone := h.filter_sink hperm hu hτ
  refine hbefore.push (if τ.rank = (w.segments p.graph).length + 2 then
    [w.number F x τ.iteration] else []) ?_ fun log hlog => ⟨_, hlogged log hlog, ?_⟩
  · have hmap : report.executed.filter (fun y => y.task = w.sink) =
        (done.filter fun t => t = w.sink).map fun t => ⟨t, .plain⟩ := by
      rw [hexecuted, List.filter_map]
      rfl
    rw [hmap, hdone]
    split <;> rfl
  · rw [List.filter_map]
    change (done.filter fun t => t = w.sink).map _ = _
    rw [hdone]
    split
    · obtain ⟨c, hc, -, -, hp, -⟩ := h.loop.graph.exists_input .result
      have hin := inputs_eq_singleton h.loop.graph.sink hc
      simp [TaskGraph.evaluation, hin, values, hp, h.loop.graph.datum_head]
    · rfl

/-- The result comes from the stage of the head. -/
theorem Stands.result_kept (h : Planned p w plan b f F x held l)
    (hs : Stands p w plan b F x held l m₀ τ a reports m)
    (hex : Executed p w plan b F x held l τ u m report m') (hu : u ∈ w.tasks)
    (hτ : w.rank p.graph u = τ.rank) (hone : τ.rank ≠ 1)
    (hle : τ.rank ≤ (w.segments p.graph).length + 1) {c : ChannelId}
    (hc : (p.graph.task w.sink).inputChannel 0 = some c) : m'.state.get? c = none := by
  obtain ⟨c', hc', -, -, hp, -⟩ := h.loop.graph.exists_input .result
  obtain rfl : c' = c := Option.some.inj (hc'.symm.trans hc)
  rw [(hex.kept c' fun hleaves => hone ?_).1]
  · exact hs.result hle c' hc
  · obtain ⟨-, hmem, -⟩ := hleaves
    rw [h.finished.sameWiring.producer, hp, h.loop.mem_stage h.finished hu,
      h.loop.graph.rank_head, hτ] at hmem
    exact hmem.2.symm

/-- What the head reads next. -/
theorem Stands.head_next (h : Planned p w plan b f F x held l)
    (hs : Stands p w plan b F x held l m₀ τ a reports m)
    (hex : Executed p w plan b F x held l τ u m report m') (hu : u ∈ w.tasks)
    (hτ : w.rank p.graph u = τ.rank) {σ : Turn}
    (hσ : σ = if τ.rank = (w.segments p.graph).length + 1 then ⟨τ.iteration + 1, 1⟩
      else ⟨τ.iteration, τ.rank + 1⟩) (hσ1 : σ.rank = 1) {i : Nat} {c : ChannelId}
    (hi : LoopOperator.readsIn σ.iteration i)
    (hc : (p.graph.task w.head).inputChannel i = some c) :
    m'.Publishes c (.number (w.number F x σ.iteration)) := by
  have hx := h.loop.isFedExternally_head h.finished hc
  have hl := h.loop.graph.links_of_input hc
  have hpos := h.loop.graph.segments_pos
  generalize (p.graph.channel c).producer = v at hl
  generalize (p.graph.channel c).output = o at hl
  split at hσ
  · rename_i hlast
    subst hσ
    simp only [LoopOperator.readsIn, Nat.succ_ne_zero, if_false] at hi
    obtain ⟨before, hb⟩ := hl.exists_last (by omega)
    have hpub := hex.publishes h hu hl (by rw [h.loop.graph.rank_last hb, hτ, hlast]) hc hx
    rw [h.loop.graph.datum_last hb] at hpub
    unfold number
    rw [Function.iterate_succ_apply']
    exact hpub
  · subst hσ
    have hzero : τ.rank = 0 := by
      simp only at hσ1
      omega
    simp only [LoopOperator.readsIn, hs.first hzero, if_true] at hi
    rcases h.loop.graph.rank_of_links hl with ⟨-, ⟨hp, -⟩ | ⟨h2, -⟩⟩ | ⟨-, he, -⟩ | ⟨hb, -⟩
    · subst hp
      have hpub := hex.publishes h hu hl (by rw [w.rank_source, hτ, hzero]) hc hx
      rw [datum_source] at hpub
      rw [hs.first hzero]
      exact hpub
    · omega
    · exact absurd he h.loop.graph.distinct.head_ne_sink
    · exact absurd hb h.loop.graph.distinct.head_notMem

/-- What the tasks of the next rank read. -/
theorem Stands.Executed.inputs_next (h : Planned p w plan b f F x held l)
    (hex : Executed p w plan b F x held l τ u m report m') (hu : u ∈ w.tasks)
    (hτ : w.rank p.graph u = τ.rank) (hone : 1 < τ.rank)
    (hlast : τ.rank ≠ (w.segments p.graph).length + 1) {t : TaskId}
    (hrank : w.rank p.graph t = τ.rank + 1) {i : Nat} {c : ChannelId}
    (hc : (p.graph.task t).inputChannel i = some c) (hx : plan.isFedExternally t i = true) :
    m'.Publishes c (w.values p.graph F x (w.number F x τ.iteration) c) := by
  have hl := h.loop.graph.links_of_input hc
  refine hex.publishes h hu hl ?_ hc hx
  rcases h.loop.graph.rank_of_links hl with ⟨he, -⟩ | ⟨-, he, -⟩ | ⟨-, -, -, hstep⟩
  · rw [he, h.loop.graph.rank_head] at hrank
    omega
  · rw [he, h.loop.graph.rank_sink] at hrank
    omega
  · have hdiff := (h.loop.isFedExternally_iff h.finished hl).mp hx
    rw [or_iff_right fun hz => by rw [hz.1, h.loop.graph.rank_head] at hrank; omega] at hdiff
    omega

/-- **The turn of another stage leads to the next turn.** -/
theorem Stands.step_plain (h : Planned p w plan b f F x held l)
    (hs : Stands p w plan b F x held l m₀ τ a reports m) (config : ExecutorConfig)
    (hone : τ.rank ≠ 1) (hgo : ¬ τ.IsOver (w.segments p.graph).length)
    (converges : Nat → Bool) : ∃ s report m', plan.nextExecutable b a m = some s ∧
      plan.executeStage b config s m = (.ok report, m') ∧
      Stands p w plan b F x held l m₀ (Turn.next (w.segments p.graph).length converges τ)
        (plan.rearm b m'.memory s a) (reports.push report) m' := by
  unfold Turn.IsOver at hgo
  have hbound := hs.bound
  obtain ⟨u, hu, hτ⟩ := h.loop.graph.exists_rank (r := τ.rank) (by omega)
  obtain ⟨report, m', hrun, hex⟩ := hs.execute_plain h config hu hτ hone
  obtain ⟨-, -, -, -, hheld⟩ := hex.tasks
  have hpos := h.loop.graph.segments_pos
  have hsink := hs.sink_push h hex hu hτ
  have hpending := fun t ht => hs.pending_rearm_plain h hu hτ hone (t := t) ht hheld converges
  have hnext := LoopOperator.atTurn_next (l := l) (m := (w.segments p.graph).length)
    converges hone hs.first
  refine ⟨place p u, report, m', hs.nextExecutable h hu hτ, hrun, ?_⟩
  obtain ⟨σ, hσ⟩ : ∃ σ, Turn.next (w.segments p.graph).length converges τ = σ := ⟨_, rfl⟩
  rw [hσ] at hpending hnext ⊢
  rw [Turn.next_plain hone] at hσ
  refine {
    first := fun hz => ?first
    bound := ?bound
    rest := hex.rest
    length := Plan.length_rearm.trans hs.length
    pending := hpending
    held := hnext ▸ hheld
    head := fun hz i c hi hc => hs.head_next h hex hu hτ hσ.symm hz hi hc
    inputs := fun hz t ht hrank i c hc hx => ?inputs
    result := fun hz c hc => hs.result_kept h hex hu hτ hone ?result hc
    sink := ?sink }
  case first =>
    rw [← hσ] at hz
    split at hz
    · exact absurd hz (by simp)
    · exact absurd hz (by simp)
  case bound =>
    rw [← hσ]
    split
    · simp
    · simp only
      omega
  case inputs =>
    have hle := h.loop.graph.rank_le ht
    split at hσ
    · exact absurd (hσ ▸ rfl) hz
    · rename_i hlast
      subst hσ
      simp only at hz hrank
      exact Stands.Executed.inputs_next h hex hu hτ (by omega) hlast hrank hc hx
  case result =>
    rw [← hσ] at hz
    split at hz
    · omega
    · simp only at hz
      omega
  case sink =>
    have hlist : (if σ.rank = (w.segments p.graph).length + 3 then [w.number F x σ.iteration]
        else []) = if τ.rank = (w.segments p.graph).length + 2 then [w.number F x τ.iteration]
        else [] := by
      rw [← hσ]
      by_cases hlast : τ.rank = (w.segments p.graph).length + 1
      · rw [if_pos hlast, if_neg (by simp only; omega), if_neg (by omega)]
      · rw [if_neg hlast]
        exact if_congr (by simp only; omega) rfl rfl
    rw [hlist]
    exact hsink

/-- **A while loop follows its course.** -/
theorem Planned.follows (h : Planned p w plan b f F x held l) (config : ExecutorConfig)
    (m₀ : Machine ω) : plan.Follows b config (Turn.next (w.segments p.graph).length
      (l.convergesAt (w.composition F) x)) (Turn.IsOver (w.segments p.graph).length)
      (Stands p w plan b F x held l m₀) := by
  refine ⟨fun τ a reports m hs hgo => ?_, fun τ a reports m hs hend => ?_⟩
  · by_cases hone : τ.rank = 1
    · obtain ⟨i, r⟩ := τ
      obtain rfl : r = 1 := hone
      exact hs.step_head h config
    · exact hs.step_plain h config hone hgo _
  · exact Plan.nextExecutable_eq_none (hs.not_isPending h hend)

end Steps

end WhileLoop

end Dataflow
