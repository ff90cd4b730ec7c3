import Dataflow.Proofs.Execution.Push
import Dataflow.Proofs.Plan.Partition

/-!
# The stages as execution finds them

A stage without a loop head is plain (`Finished.isPlain`): its tasks read what other stages feed
through the execution state and the rest inside the stage, without cycle. What a stage reads from
another one comes from a predecessor (`Finished.mem_predecessors`) and leaves that predecessor
(`Finished.isOutward_of_external`). Any stage, with a loop head or without, is orderly
(`Finished.isOrderly`).

These are the conditions under which a push is studied, so that the modules about execution do not
speak of runs or splits. A plan that was made in another way and whose stages are plain or orderly
would be executed in the same way.
-/

namespace Dataflow

/-- A stage as planning makes it: what is fed inside of it are tasks that are no loop heads and that
do not start it. -/
structure Plan.IsOrderly (p : Plan) (s : StageId) : Prop where
  wired : p.graph.Wired
  placed : ∀ t, (p.graph.task t).stage = some s ↔ t ∈ (p.stage s).tasks
  start : ∀ t ∈ (p.stage s).startTasks, t ∈ (p.stage s).tasks
  nodup_start : (p.stage s).startTasks.Nodup
  external : ∀ t ∈ (p.stage s).startTasks, ∀ i c, (p.graph.task t).inputChannel i = some c →
    p.isFedExternally t i = true
  plain : ∀ t ∈ (p.stage s).tasks, t ∉ (p.stage s).startTasks →
    (p.graph.task t).operator.loopRoles = none

namespace PreliminaryPlan

namespace Finished

variable {g : TaskGraph} {tasks : List TaskId} {r : Runs} {plan : Plan}

/-- The edge by which a planned task reads a channel. -/
theorem edge_mem {t : TaskId} {i : Nat} {c : ChannelId} (ht : t ∈ tasks)
    (hc : (g.task t).inputChannel i = some c) : Edge.ofInput g t i c ∈ Edge.among g tasks :=
  mem_among_iff.mpr ⟨t, ht, i, c, hc, rfl⟩

theorem producer_mem (hs : g.IsScope tasks) {t : TaskId} {i : Nat} {c : ChannelId} (ht : t ∈ tasks)
    (hc : (g.task t).inputChannel i = some c) : (g.channel c).producer ∈ tasks :=
  hs.producer t ht _ ⟨i, c, hc, rfl⟩

theorem feedback_ofInput {t : TaskId} {i : Nat} {c : ChannelId} :
    (Edge.ofInput g t i c).feedback = false ↔ i ∉ (g.task t).operator.bodyInputs := by
  rw [Bool.eq_false_iff, Ne, ← List.contains_iff_mem]
  exact Iff.rfl

theorem mem_stage_iff (hu : g.Unplaced) (h : Finished g tasks r plan)
    {s : StageId} (hlt : s < r.count) {t : TaskId} :
    (plan.graph.task t).stage = some s ↔ t ∈ (plan.stage s).tasks := by
  rw [h.mem_tasks hlt]
  by_cases ht : t ∈ tasks
  · rw [h.stage_of_mem ht, Option.some.injEq]
    exact (and_iff_right ht).symm
  · rw [h.task, if_neg ht, hu t]
    exact iff_of_false (by simp) fun h' => ht h'.1

/-- An input that is no feedback is fed through the execution state iff its producer is in another
stage. -/
theorem isFedExternally_iff (hw : g.Wired) (hs : g.IsScope tasks) (h : Finished g tasks r plan)
    {t : TaskId} {i : Nat} {c : ChannelId} (ht : t ∈ tasks)
    (hc : (g.task t).inputChannel i = some c) (hi : i ∉ (g.task t).operator.bodyInputs) :
    plan.isFedExternally t i = true ↔ r.place (g.channel c).producer ≠ r.place t := by
  have hprod := producer_mem hs ht hc
  have hc' : (plan.graph.task t).inputChannel i = some c := by rw [h.sameWiring.input, hc]
  have htogether := h.together hs hw ht hc hi
  rw [isFedExternally_eq hc', h.sameWiring.producer, Bool.or_eq_true, bne_iff_ne]
  rw [h.stage_of_mem hprod, h.stage_of_mem ht, Option.some.injEq] at htogether
  rw [h.stage_of_mem hprod, h.stage_of_mem ht, Ne, Option.some.injEq]
  constructor
  · rintro (hb | hne)
    · intro heq
      rw [(htogether.mp heq).2.1] at hb
      exact absurd hb (by simp)
    · exact hne
  · exact Or.inr

theorem startTasks_eq (h : Finished g tasks r plan) {s : StageId} (hlt : s < r.count) :
    (plan.stage s).startTasks = (plan.stage s).tasks.filter fun t =>
      !(((r.edges.filter fun e => r.place e.consumer == s).filter fun e =>
        !e.feedback && r.place e.producer == r.place e.consumer).map Edge.consumer).contains t := by
  obtain ⟨head, hst⟩ := h.stage hlt
  rw [hst]
  rfl

/-- A start task is fed by no task of its stage, but for feedback. -/
theorem mem_startTasks (h : Finished g tasks r plan) {s : StageId}
    (hlt : s < r.count) {t : TaskId} : t ∈ (plan.stage s).startTasks ↔
      t ∈ (plan.stage s).tasks ∧ ∀ i c, (g.task t).inputChannel i = some c →
        i ∉ (g.task t).operator.bodyInputs → r.place (g.channel c).producer ≠ r.place t := by
  rw [h.startTasks_eq hlt, List.mem_filter, Bool.not_eq_true', Bool.eq_false_iff, Ne,
    List.contains_iff_mem]
  refine and_congr_right ?_
  intro ht
  obtain ⟨ht, hplace⟩ := (h.mem_tasks hlt).mp ht
  simp only [List.mem_map, List.mem_filter, Bool.and_eq_true, Bool.not_eq_true', beq_iff_eq]
  rw [h.resolved.valid.edges_eq]
  constructor
  · intro hno i c hc hi heq
    exact hno ⟨Edge.ofInput g t i c, ⟨⟨edge_mem ht hc, hplace⟩, feedback_ofInput.mpr hi, heq⟩, rfl⟩
  · rintro hall ⟨e, ⟨⟨he, -⟩, hf, heq⟩, hcon⟩
    obtain ⟨u, -, i, c, hc, rfl⟩ := mem_among_iff.mp he
    obtain rfl : u = t := hcon
    exact hall i c hc (feedback_ofInput.mp hf) heq

theorem mem_predecessors (h : Finished g tasks r plan) {s q : StageId} (hlt : s < r.count) :
    q ∈ (plan.stage s).predecessors ↔ q < r.count ∧ ∃ e ∈ Edge.among g tasks,
      e.feedback = false ∧ r.place e.consumer = s ∧ r.place e.producer = q ∧
        r.place e.producer ≠ r.place e.consumer := by
  obtain ⟨head, hst⟩ := h.stage hlt
  have hpreds : (plan.stage s).predecessors = ascending r.count
      (((r.edges.filter fun e => r.place e.consumer == s).filter fun e =>
        r.place e.producer != r.place e.consumer && !e.feedback).map fun e =>
          r.place e.producer) := by
    rw [hst]
    rfl
  rw [hpreds, mem_ascending, h.resolved.valid.edges_eq]
  simp only [List.mem_map, List.mem_filter, Bool.and_eq_true, Bool.not_eq_true', beq_iff_eq,
    bne_iff_ne]
  refine and_congr_right ?_
  intro _
  constructor
  · rintro ⟨e, ⟨⟨he, hs⟩, hne, hf⟩, hq⟩
    exact ⟨e, he, hf, hs, hq, hne⟩
  · rintro ⟨e, he, hf, hs, hq, hne⟩
    exact ⟨e, ⟨⟨he, hs⟩, hne, hf⟩, hq⟩

theorem mem_successors (hv : r.Valid g tasks) {s q : StageId} :
    q ∈ (buildStage g r r.place r.count s).successors ↔ q < r.count ∧ ∃ e ∈ Edge.among g tasks,
      e.feedback = false ∧ r.place e.producer = s ∧ r.place e.consumer = q ∧
        r.place e.producer ≠ r.place e.consumer := by
  have hsucc : (buildStage g r r.place r.count s).successors = ascending r.count
      (((r.edges.filter fun e => r.place e.producer == s).filter fun e =>
        r.place e.producer != r.place e.consumer && !e.feedback).map fun e =>
          r.place e.consumer) := rfl
  rw [hsucc, mem_ascending, hv.edges_eq]
  simp only [List.mem_map, List.mem_filter, Bool.and_eq_true, Bool.not_eq_true', beq_iff_eq,
    bne_iff_ne]
  refine and_congr_right ?_
  intro _
  constructor
  · rintro ⟨e, ⟨⟨he, hs⟩, hne, hf⟩, hq⟩
    exact ⟨e, he, hf, hs, hq, hne⟩
  · rintro ⟨e, he, hf, hs, hq, hne⟩
    exact ⟨e, ⟨⟨he, hs⟩, hne, hf⟩, hq⟩

/-- Inside the stages the tasks form no cycle. -/
theorem grounded_innerProducers (hw : g.Wired) (hs : g.IsScope tasks)
    (h : Finished g tasks r plan)
    (hg : ∀ t ∈ tasks, Digraph.Grounded (Runs.initial g tasks).forward t) :
    ∀ t ∈ tasks, Digraph.Grounded plan.innerProducers t := by
  have hedge : ∀ t ∈ tasks, ∀ u ∈ plan.innerProducers t,
      u ∈ tasks ∧ t ∈ (Runs.initial g tasks).forward u := by
    intro t ht u hu
    obtain ⟨i, c, hc, hx, rfl⟩ := mem_innerProducers.mp hu
    rw [h.sameWiring.producer]
    have hc' : (g.task t).inputChannel i = some c := by rw [← h.sameWiring.input, hc]
    have he := edge_mem ht hc'
    refine ⟨producer_mem hs ht hc', Runs.mem_forward.mpr ⟨_, he, feedback_ofInput.mpr ?_, rfl, rfl⟩⟩
    -- feedback comes through the execution state
    intro hi
    rw [isFedExternally_eq hc, h.feedback hw ht hc' hi] at hx
    exact absurd hx (by simp)
  refine Digraph.grounded_reverse (fun t ht u hu => (hedge t ht u hu).1)
    (fun t ht u hu => (hedge t ht u hu).2) hg

/-- A stage without a loop head is plain. -/
theorem isPlain (hw : g.Wired) (hu : g.Unplaced) (hs : g.IsScope tasks)
    (h : Finished g tasks r plan)
    (hg : ∀ t ∈ tasks, Digraph.Grounded (Runs.initial g tasks).forward t)
    (hfed : ∀ t ∈ tasks, ∀ i < (g.task t).inputs.length,
      ((g.task t).inputChannel i).isSome = true)
    {s : StageId} (hlt : s < r.count)
    (hplain : ∀ t ∈ (plan.stage s).tasks, (g.task t).isLoopHead = false) : plan.IsPlain s := by
  have hbody : ∀ t ∈ (plan.stage s).tasks, ∀ i, i ∉ (g.task t).operator.bodyInputs := fun t ht i =>
    Task.not_mem_bodyInputs (hplain t ht) i
  have hchannel : ∀ t ∈ (plan.stage s).tasks, ∀ i < (plan.graph.task t).inputs.length,
      ∃ c, (plan.graph.task t).inputChannel i = some c := fun t ht i hi => by
    rw [h.inputs] at hi
    rw [h.sameWiring.input]
    exact Option.isSome_iff_exists.mp (hfed t ((h.mem_tasks hlt).mp ht).1 i hi)
  refine ⟨hw.congr h.sameWiring, fun t => h.mem_stage_iff hu hlt, h.nodup_tasks hs hlt,
    fun t ht => ?_, hchannel, fun t => ?_, ?_, fun t ht => ?_⟩
  · rw [h.operator]
    exact Task.loopRoles_eq_none (hplain t ht)
  · rw [h.mem_startTasks hlt]
    refine and_congr_right ?_
    intro ht
    have hmem := ((h.mem_tasks hlt).mp ht).1
    constructor
    · intro hno i hi
      obtain ⟨c, hc⟩ := hchannel t ht i hi
      rw [h.sameWiring.input] at hc
      exact (h.isFedExternally_iff hw hs hmem hc (hbody t ht i)).mpr (hno i c hc (hbody t ht i))
    · intro hall i c hc hi
      have hlen : i < (plan.graph.task t).inputs.length := by
        rw [h.inputs]
        exact lt_length_of_inputChannel hc
      exact (h.isFedExternally_iff hw hs hmem hc hi).mp (hall i hlen)
  · rw [h.startTasks_eq hlt]
    exact (h.nodup_tasks hs hlt).filter _
  · exact h.grounded_innerProducers hw hs hg t ((h.mem_tasks hlt).mp ht).1

/-- Every stage is orderly: the only task of a stage that is a loop head is fed nothing inside. -/
theorem isOrderly (hw : g.Wired) (hu : g.Unplaced) (hs : g.IsScope tasks)
    (h : Finished g tasks r plan) {s : StageId} (hlt : s < r.count) : plan.IsOrderly s := by
  refine ⟨hw.congr h.sameWiring, fun t => h.mem_stage_iff hu hlt,
    fun t ht => ((h.mem_startTasks hlt).mp ht).1, ?_, fun t ht i c hc => ?_, fun t ht hnot => ?_⟩
  · rw [h.startTasks_eq hlt]
    exact (h.nodup_tasks hs hlt).filter _
  · obtain ⟨htm, hno⟩ := (h.mem_startTasks hlt).mp ht
    have hmem := ((h.mem_tasks hlt).mp htm).1
    have hc' := hc
    rw [h.sameWiring.input] at hc'
    by_cases hi : i ∈ (g.task t).operator.bodyInputs
    · rw [isFedExternally_eq hc, h.feedback hw hmem hc' hi, Bool.true_or]
    · exact (h.isFedExternally_iff hw hs hmem hc' hi).mpr (hno i c hc' hi)
  · by_contra hroles
    have hhead : (g.task t).isLoopHead = true := by
      rw [← h.isLoopHead]
      exact Option.isSome_iff_ne_none.mpr hroles
    have hmem := ((h.mem_tasks hlt).mp ht).1
    refine hnot ((h.mem_startTasks hlt).mpr ⟨ht, fun i c hc hi heq => ?_⟩)
    -- a loop head shares its stage with no producer
    have hplaces : (plan.graph.task (g.channel c).producer).stage = (plan.graph.task t).stage := by
      rw [h.stage_of_mem (producer_mem hs hmem hc), h.stage_of_mem hmem, heq]
    have := ((h.together hs hw hmem hc hi).mp hplaces).2.2.2
    rw [hhead] at this
    exact absurd this (by simp)

/-- A channel that a task of another stage reads leaves the stage of its producer. -/
theorem betweenStages_iff (h : Finished g tasks r plan) (hs : g.IsScope tasks)
    {c : ChannelId} (hc : c < g.channels.length) (hprod : (g.channel c).producer ∈ tasks) :
    (plan.graph.channel c).betweenStages = true ↔ ∃ k ∈ (g.channel c).consumers, k.task ∈ tasks ∧
      r.place k.task ≠ r.place (g.channel c).producer := by
  have hflag : (plan.graph.channel c).betweenStages =
      (readers tasks.contains r.place r.count (g.channel c)).any
        (· != r.place (g.channel c).producer) := by
    rw [h.channel c hc]
    exact if_pos (List.contains_iff_mem.mpr hprod)
  rw [hflag, List.any_eq_true]
  constructor
  · rintro ⟨q, hq, hne⟩
    obtain ⟨-, k, hk, hkt, rfl⟩ := mem_readers.mp hq
    exact ⟨k, hk, List.contains_iff_mem.mp hkt, bne_iff_ne.mp hne⟩
  · rintro ⟨k, hk, hkt, hne⟩
    exact ⟨_, mem_readers.mpr ⟨h.resolved.place_lt_count hs hkt, k, hk,
      List.contains_iff_mem.mpr hkt, rfl⟩, bne_iff_ne.mpr hne⟩

/-- What a planned task reads through the execution state leaves the stage that produces it. -/
theorem isOutward_of_external (hw : g.Wired) (hs : g.IsScope tasks) (h : Finished g tasks r plan)
    {t : TaskId} {i : Nat} {c : ChannelId} (ht : t ∈ tasks)
    (hc : (g.task t).inputChannel i = some c) (hx : plan.isFedExternally t i = true) :
    plan.isOutward c = true := by
  have hc' : (plan.graph.task t).inputChannel i = some c := by rw [h.sameWiring.input, hc]
  obtain ⟨hlt, hk⟩ := (hw.input_iff t i c).mp hc
  have hprod := producer_mem hs ht hc
  unfold Plan.isOutward
  rw [isFedExternally_eq hc', h.sameWiring.producer, Bool.or_eq_true, bne_iff_ne] at hx
  rw [Bool.or_eq_true]
  rcases hx with hb | hne
  · exact Or.inr hb
  · refine Or.inl ((h.betweenStages_iff hs hlt hprod).mpr ⟨_, hk, ht, fun heq => hne ?_⟩)
    rw [h.stage_of_mem ht, h.stage_of_mem hprod]
    exact congrArg some heq.symm

end Finished

end PreliminaryPlan

end Dataflow
