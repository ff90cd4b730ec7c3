import Dataflow.Proofs.Plan.StageGraph

/-!
# The stage graph

The stages of a plan and what is recorded between them are the task graph in small: a stage precedes
another one iff an edge that is no feedback leads from the one to the other. The numbers of the
stages rise along these edges, and so the stage graph has no cycle and starts somewhere.

`IsQuotient` takes what is recorded of a stage field by field and says of each list which stages are
in it, told by the edges between tasks. Feedback orders nothing: a stage that feeds a loop back comes
after the head, and if it counted as a predecessor no loop could be planned. As the numbers rise along
all other edges, to execute the stages by their numbers is to execute each after its predecessors.

* `Finished.precedes_iff`, `Finished.feedsBack_iff`: the relations between stages, edge by edge.
* `Finished.lt_of_precedes`: the numbers rise.
* `Finished.loopHead_eq_some`: the loop head that is recorded for a stage.
* **`assign_quotient`**: the stage graph of every plan.

Two stages may be connected by many channels, and yet each is listed once: the lists are ascending.
Whether a channel is between stages is told by its readers among the needed tasks, so a channel that
only left-out tasks read is not.
-/

namespace Dataflow

namespace PreliminaryPlan

/-- A task of stage `t` reads what a task of another stage `s` makes, and not as feedback. -/
def Precedes (p : PreliminaryPlan) (plan : Plan) (s t : StageId) : Prop :=
  s ≠ t ∧ ∃ u ∈ (plan.stage s).tasks, ∃ v ∈ (plan.stage t).tasks, p.Forward u v

/-- The loop head of stage `s` reads what a task of stage `q` makes on one of its body inputs. -/
def FeedsBack (p : PreliminaryPlan) (plan : Plan) (q s : StageId) : Prop :=
  ∃ t i c, (plan.stage s).loopHead = some t ∧ (p.graph.task t).inputChannel i = some c ∧
    i ∈ (p.graph.task t).operator.bodyInputs ∧
    (p.graph.channel c).producer ∈ (plan.stage q).tasks

/-- What is recorded between the stages of a plan. -/
structure IsQuotient (p : PreliminaryPlan) (plan : Plan) : Prop where
  successors : ∀ s t, t ∈ (plan.stage s).successors ↔ p.Precedes plan s t
  predecessors : ∀ s t, s ∈ (plan.stage t).predecessors ↔ p.Precedes plan s t
  /-- The numbers of the stages are a topological numbering. -/
  rising : ∀ s, ∀ t ∈ (plan.stage s).successors, s < t ∧ t < plan.stages.length
  acyclic : ∀ s, ¬ Relation.TransGen (fun x y => y ∈ (plan.stage x).successors) s s
  sorted : ∀ s, (plan.stage s).predecessors.Pairwise (· < ·) ∧
    (plan.stage s).successors.Pairwise (· < ·) ∧ (plan.stage s).feedbackSources.Pairwise (· < ·)
  starting : ∀ s, s ∈ plan.startingStages ↔
    s < plan.stages.length ∧ (plan.stage s).predecessors = []
  starts : plan.startingStages ≠ [] ∧ plan.startingStages.Pairwise (· < ·)
  loopHead : ∀ s t, (plan.stage s).loopHead = some t ↔
    t ∈ (plan.stage s).tasks ∧ (p.graph.task t).isLoopHead = true
  feedbackSources : ∀ s q, q ∈ (plan.stage s).feedbackSources ↔ p.FeedsBack plan q s
  /-- A channel is between stages iff a needed task of another stage reads it. -/
  betweenStages : ∀ c, (plan.graph.channel c).betweenStages = true ↔
    ∃ k ∈ (p.graph.channel c).consumers, p.Needs k.task ∧
      (plan.graph.task k.task).stage ≠
        (plan.graph.task (p.graph.channel c).producer).stage

namespace Finished

/-! ## Stages by their tasks -/

section Tasks

variable {g : TaskGraph} {tasks : List TaskId} {r : Runs} {plan : Plan} {s : StageId} {t : TaskId}

/-- There is no stage behind the last one. -/
theorem stage_of_le (h : Finished g tasks r plan) (hle : r.count ≤ s) : plan.stage s = default := by
  unfold Plan.stage
  rw [List.getD_eq_getElem?_getD, List.getElem?_eq_none (h.length_stages ▸ hle)]
  rfl

/-- The tasks of any stage, whether there is such a stage or not. -/
theorem mem_stage (hs : g.IsScope tasks) (h : Finished g tasks r plan) :
    t ∈ (plan.stage s).tasks ↔ t ∈ tasks ∧ r.place t = s := by
  by_cases hlt : s < r.count
  · exact h.mem_tasks hlt
  · rw [h.stage_of_le (Nat.le_of_not_lt hlt)]
    refine iff_of_false List.not_mem_nil ?_
    rintro ⟨ht, rfl⟩
    exact hlt (h.resolved.place_lt_count hs ht)

/-- The loop head recorded for a stage is the one that makes up the stage. -/
theorem loopHead_eq_some (hs : g.IsScope tasks) (h : Finished g tasks r plan) :
    (plan.stage s).loopHead = some t ↔
      t ∈ (plan.stage s).tasks ∧ (g.task t).isLoopHead = true := by
  by_cases hlt : s < r.count
  swap
  · rw [h.stage_of_le (Nat.le_of_not_lt hlt)]
    exact iff_of_false nofun fun ht => List.not_mem_nil ht.1
  have hfirst : (plan.stage s).loopHead =
      if (g.task ((plan.stage s).tasks.headD 0)).isLoopHead then
        some ((plan.stage s).tasks.headD 0) else none := by
    obtain ⟨head, hst⟩ := h.stage hlt
    rw [hst]
    rfl
  rw [hfirst]
  constructor
  · intro heq
    split at heq
    · rename_i hhead
      obtain rfl := Option.some.inj heq
      obtain ⟨u, us, hus⟩ := List.exists_cons_of_ne_nil (h.tasks_ne_nil hs hlt)
      rw [hus] at hhead ⊢
      exact ⟨List.mem_cons_self, hhead⟩
    · exact absurd heq (by simp)
  · rintro ⟨ht, hhead⟩
    rw [h.tasks_eq_singleton hs hlt ht (by rw [h.isLoopHead, hhead])]
    exact if_pos hhead

end Tasks

/-! ## Stages by their edges -/

section Edges

variable {p : PreliminaryPlan} {r : Runs} {plan : Plan} {s t q : StageId}

/-- A stage precedes another one by an edge that orders their tasks. -/
theorem precedes_iff (hw : p.graph.Wired) (hs : p.SinksKnown)
    (h : Finished p.graph p.plannedTasks r plan) : p.Precedes plan s t ↔
      ∃ e ∈ Edge.among p.graph p.plannedTasks, e.feedback = false ∧ r.place e.producer = s ∧
        r.place e.consumer = t ∧ r.place e.producer ≠ r.place e.consumer := by
  have hscope := isScope_plannedTasks hw hs
  unfold Precedes
  constructor
  · rintro ⟨hne, u, hu, v, hv, hf⟩
    obtain ⟨-, rfl⟩ := (h.mem_stage hscope).mp hu
    obtain ⟨-, rfl⟩ := (h.mem_stage hscope).mp hv
    obtain ⟨e, he, hfb, rfl, rfl⟩ := Runs.mem_forward.mp ((mem_forward_firstRuns hw hs).mpr hf)
    exact ⟨e, he, hfb, rfl, rfl, hne⟩
  · rintro ⟨e, he, hfb, rfl, rfl, hne⟩
    obtain ⟨hprod, hcons⟩ := hscope.ends_mem he
    exact ⟨hne, _, (h.mem_stage hscope).mpr ⟨hprod, rfl⟩, _, (h.mem_stage hscope).mpr ⟨hcons, rfl⟩,
      (mem_forward_firstRuns hw hs).mp (Runs.mem_forward.mpr ⟨e, he, hfb, rfl, rfl⟩)⟩

/-- **Along the edges between stages their numbers rise.** -/
theorem lt_of_precedes (hw : p.graph.Wired) (hs : p.SinksKnown)
    (h : Finished p.graph p.plannedTasks r plan) (hp : p.Precedes plan s t) :
    s < t ∧ t < r.count := by
  have hscope := isScope_plannedTasks hw hs
  obtain ⟨e, he, hf, rfl, rfl, hne⟩ := (h.precedes_iff hw hs).mp hp
  exact ⟨h.resolved.place_lt hscope he hf hne,
    h.resolved.place_lt_count hscope (hscope.ends_mem he).2⟩

theorem mem_predecessors_iff (hw : p.graph.Wired) (hs : p.SinksKnown)
    (h : Finished p.graph p.plannedTasks r plan) :
    s ∈ (plan.stage t).predecessors ↔ p.Precedes plan s t := by
  by_cases hlt : t < r.count
  · rw [h.mem_predecessors hlt, h.precedes_iff hw hs]
    constructor
    · rintro ⟨-, e, he, hf, hc, hp, hne⟩
      exact ⟨e, he, hf, hp, hc, hne⟩
    · rintro ⟨e, he, hf, rfl, hc, hne⟩
      have hprod := ((isScope_plannedTasks hw hs).ends_mem he).1
      exact ⟨h.resolved.place_lt_count (isScope_plannedTasks hw hs) hprod, e, he, hf, hc, rfl, hne⟩
  · rw [h.stage_of_le (Nat.le_of_not_lt hlt)]
    exact iff_of_false List.not_mem_nil fun hp => hlt (h.lt_of_precedes hw hs hp).2

theorem mem_successors_iff (hw : p.graph.Wired) (hs : p.SinksKnown)
    (h : Finished p.graph p.plannedTasks r plan) :
    t ∈ (plan.stage s).successors ↔ p.Precedes plan s t := by
  by_cases hlt : s < r.count
  · obtain ⟨head, hst⟩ := h.stage hlt
    rw [hst]
    change t ∈ (buildStage p.graph r r.place r.count s).successors ↔ _
    rw [mem_successors h.resolved.valid]
    constructor
    · rintro ⟨-, hedge⟩
      exact (h.precedes_iff hw hs).mpr hedge
    · intro hp
      exact ⟨(h.lt_of_precedes hw hs hp).2, (h.precedes_iff hw hs).mp hp⟩
  · rw [h.stage_of_le (Nat.le_of_not_lt hlt)]
    refine iff_of_false List.not_mem_nil fun hp => hlt ?_
    exact Nat.lt_trans (h.lt_of_precedes hw hs hp).1 (h.lt_of_precedes hw hs hp).2

/-- A stage feeds back by an edge into a body input. -/
theorem feedsBack_iff (hw : p.graph.Wired) (hs : p.SinksKnown)
    (h : Finished p.graph p.plannedTasks r plan) : p.FeedsBack plan q s ↔
      ∃ e ∈ Edge.among p.graph p.plannedTasks, e.feedback = true ∧ r.place e.consumer = s ∧
        r.place e.producer = q := by
  have hscope := isScope_plannedTasks hw hs
  unfold FeedsBack
  constructor
  · rintro ⟨t, i, c, hhead, hc, hi, hprod⟩
    obtain ⟨ht, rfl⟩ := (h.mem_stage hscope).mp ((h.loopHead_eq_some hscope).mp hhead).1
    exact ⟨_, edge_mem ht hc, List.contains_iff_mem.mpr hi, rfl, ((h.mem_stage hscope).mp hprod).2⟩
  · rintro ⟨e, he, hf, rfl, rfl⟩
    obtain ⟨t, ht, i, c, hc, rfl⟩ := mem_among_iff.mp he
    have hi : i ∈ (p.graph.task t).operator.bodyInputs := List.contains_iff_mem.mp hf
    refine ⟨t, i, c, (h.loopHead_eq_some hscope).mpr ⟨(h.mem_stage hscope).mpr ⟨ht, rfl⟩, ?_⟩, hc, hi,
      (h.mem_stage hscope).mpr ⟨producer_mem hscope ht hc, rfl⟩⟩
    by_contra hhead
    exact Task.not_mem_bodyInputs (Bool.eq_false_iff.mpr hhead) i hi

theorem mem_feedbackSources (hw : p.graph.Wired) (hs : p.SinksKnown)
    (h : Finished p.graph p.plannedTasks r plan) :
    q ∈ (plan.stage s).feedbackSources ↔ p.FeedsBack plan q s := by
  have hscope := isScope_plannedTasks hw hs
  rw [h.feedsBack_iff hw hs]
  by_cases hlt : s < r.count
  · have hsources : (plan.stage s).feedbackSources = ascending r.count
        (((r.edges.filter fun e => r.place e.consumer == s).filter fun e => e.feedback).map fun e =>
          r.place e.producer) := by
      obtain ⟨head, hst⟩ := h.stage hlt
      rw [hst]
      rfl
    rw [hsources, mem_ascending, h.resolved.valid.edges_eq]
    simp only [List.mem_map, List.mem_filter, beq_iff_eq]
    constructor
    · rintro ⟨-, e, ⟨⟨he, hc⟩, hf⟩, hp⟩
      exact ⟨e, he, hf, hc, hp⟩
    · rintro ⟨e, he, hf, hc, rfl⟩
      exact ⟨h.resolved.place_lt_count hscope (hscope.ends_mem he).1, e, ⟨⟨he, hc⟩, hf⟩, rfl⟩
  · rw [h.stage_of_le (Nat.le_of_not_lt hlt)]
    refine iff_of_false List.not_mem_nil ?_
    rintro ⟨e, he, -, rfl, -⟩
    exact hlt (h.resolved.place_lt_count hscope (hscope.ends_mem he).2)

/-- The stages next to a stage are listed once each, in the order of their numbers. -/
theorem sorted (h : Finished p.graph p.plannedTasks r plan) :
    (plan.stage s).predecessors.Pairwise (· < ·) ∧ (plan.stage s).successors.Pairwise (· < ·) ∧
      (plan.stage s).feedbackSources.Pairwise (· < ·) := by
  by_cases hlt : s < r.count
  · obtain ⟨head, hst⟩ := h.stage hlt
    rw [hst]
    exact ⟨pairwise_ascending _ _, pairwise_ascending _ _, pairwise_ascending _ _⟩
  · rw [h.stage_of_le (Nat.le_of_not_lt hlt)]
    exact ⟨.nil, .nil, .nil⟩

/-- A stage that starts the plan. -/
theorem mem_startingStages (h : Finished p.graph p.plannedTasks r plan) :
    s ∈ plan.startingStages ↔ s < r.count ∧ (plan.stage s).predecessors = [] := by
  unfold Plan.startingStages Plan.stageIds Stage.isStarting
  rw [List.mem_filter, List.mem_range, h.length_stages, List.isEmpty_iff]

/-- The first stage waits for none. -/
theorem startingStages_ne_nil (hw : p.graph.Wired) (hs : p.SinksKnown)
    (h : Finished p.graph p.plannedTasks r plan) : plan.startingStages ≠ [] := by
  obtain ⟨t, ht⟩ := List.exists_mem_of_ne_nil p.sinks hs.1
  have hplanned : t ∈ p.plannedTasks := (mem_plannedTasks hw hs).mpr (Needs.of_sink ht)
  have hpos : 0 < r.count := Nat.zero_lt_of_lt
    (h.resolved.place_lt_count (isScope_plannedTasks hw hs) hplanned)
  refine List.ne_nil_of_mem ((h.mem_startingStages (s := 0)).mpr ⟨hpos, ?_⟩)
  refine List.eq_nil_iff_forall_not_mem.mpr fun q hq => ?_
  exact absurd (h.lt_of_precedes hw hs ((h.mem_predecessors_iff hw hs).mp hq)).1 (Nat.not_lt_zero q)

/-- Nothing is between stages that no needed task makes. -/
theorem betweenStages_eq_true (hg : p.graph.Built) (hs : p.SinksKnown)
    (h : Finished p.graph p.plannedTasks r plan) (c : ChannelId) :
    (plan.graph.channel c).betweenStages = true ↔
      ∃ k ∈ (p.graph.channel c).consumers, p.Needs k.task ∧
        (plan.graph.task k.task).stage ≠
          (plan.graph.task (p.graph.channel c).producer).stage := by
  have hscope := isScope_plannedTasks hg.wired hs
  by_cases hc : c < p.graph.channels.length
  swap
  · rw [TaskGraph.channel_of_le (h.length_channels ▸ Nat.le_of_not_lt hc),
      TaskGraph.channel_of_le (Nat.le_of_not_lt hc)]
    exact iff_of_false nofun fun ⟨_, hk, _⟩ => List.not_mem_nil hk
  have hfed : ∀ k ∈ (p.graph.channel c).consumers, p.Needs k.task →
      p.Needs (p.graph.channel c).producer := fun k hk hn =>
    hn.producer ((hg.wired.input_iff _ _ c).mpr ⟨hc, hk⟩)
  by_cases hprod : (p.graph.channel c).producer ∈ p.plannedTasks
  · rw [h.betweenStages_iff hscope hc hprod]
    refine exists_congr fun k => and_congr_right fun _ => ?_
    rw [mem_plannedTasks hg.wired hs]
    refine and_congr_right fun hn => ?_
    rw [h.stage_of_mem ((mem_plannedTasks hg.wired hs).mpr hn), h.stage_of_mem hprod, Ne, Ne,
      Option.some.injEq]
  · have hflag : (plan.graph.channel c).betweenStages = (p.graph.channel c).betweenStages := by
      rw [h.channel c hc]
      exact if_neg fun hp => hprod (List.contains_iff_mem.mp hp)
    rw [hflag, hg.betweenStages_eq_false]
    refine iff_of_false (by simp) ?_
    rintro ⟨k, hk, hn, -⟩
    exact hprod ((mem_plannedTasks hg.wired hs).mpr (hfed k hk hn))

end Edges

end Finished

/-- Stages hold needed tasks only. -/
theorem needs_of_mem_stage {p : PreliminaryPlan} {plan : Plan} (hg : p.graph.Built)
    (h : p.assign = .ok plan) {s : StageId} {t : TaskId} (ht : t ∈ (plan.stage s).tasks) :
    p.Needs t := by
  obtain ⟨hs, -⟩ := assign_eq_ok hg h
  obtain ⟨r, -, hfin⟩ := finished_of_assign hg h
  have hmem := (hfin.mem_stage (isScope_plannedTasks hg.wired hs)).mp ht
  exact (mem_plannedTasks hg.wired hs).mp hmem.1

/-- The predecessors of a stage are stages before it. -/
theorem lt_of_mem_predecessors {p : PreliminaryPlan} {plan : Plan} (hg : p.graph.Built)
    (h : p.assign = .ok plan) {s q : StageId} (hq : q ∈ (plan.stage s).predecessors) :
    q < s ∧ s < plan.stages.length := by
  obtain ⟨hs, -⟩ := assign_eq_ok hg h
  obtain ⟨r, -, hfin⟩ := finished_of_assign hg h
  rw [hfin.length_stages]
  exact hfin.lt_of_precedes hg.wired hs ((hfin.mem_predecessors_iff hg.wired hs).mp hq)

/-- **The stage graph is the task graph in small**: stages precede each other as edges other than
feedback lead from task to task, their numbers rise along these edges, some stage waits for none, and
what feeds a loop back and which channels leave their stage is recorded as the tasks say. -/
theorem assign_quotient {p : PreliminaryPlan} {plan : Plan} (hg : p.graph.Built)
    (h : p.assign = .ok plan) : p.IsQuotient plan := by
  obtain ⟨hs, -⟩ := assign_eq_ok hg h
  obtain ⟨r, -, hfin⟩ := finished_of_assign hg h
  have hsucc : ∀ s t, t ∈ (plan.stage s).successors ↔ p.Precedes plan s t := fun s t =>
    hfin.mem_successors_iff hg.wired hs
  refine ⟨hsucc, fun s t => hfin.mem_predecessors_iff hg.wired hs, ?_, ?_, fun s => hfin.sorted, ?_,
    ⟨hfin.startingStages_ne_nil hg.wired hs, List.pairwise_lt_range.filter _⟩,
    fun s t => hfin.loopHead_eq_some (isScope_plannedTasks hg.wired hs),
    fun s q => hfin.mem_feedbackSources hg.wired hs, hfin.betweenStages_eq_true hg hs⟩
  · intro s t ht
    rw [hfin.length_stages]
    exact hfin.lt_of_precedes hg.wired hs ((hsucc s t).mp ht)
  · -- along successors the numbers rise, so no walk comes back
    intro s hcycle
    have hlt : ∀ x y, y ∈ (plan.stage x).successors → x < y := fun x y hy =>
      (hfin.lt_of_precedes hg.wired hs ((hsucc x y).mp hy)).1
    have hrise : ∀ y, Relation.TransGen (fun x y => y ∈ (plan.stage x).successors) s y → s < y := by
      intro y hy
      induction hy with
      | single hy => exact hlt s _ hy
      | tail _ hy ih => exact Nat.lt_trans ih (hlt _ _ hy)
    exact Nat.lt_irrefl s (hrise s hcycle)
  · intro s
    rw [hfin.length_stages]
    exact hfin.mem_startingStages

/-- The stages of reading, sorting and joining: reading precedes both others. -/
theorem interleaved_quotient : (interleaved .collection).graph.Built ∧
    ∃ plan, (interleaved .collection).assign = .ok plan ∧ (plan.stage 0).successors = [1, 2] ∧
      (interleaved .collection).IsQuotient plan := by
  obtain ⟨plan, h, hnext⟩ : ∃ plan, (interleaved .collection).assign = .ok plan ∧
      (plan.stage 0).successors = [1, 2] := exists_assign_of_decide (by decide +kernel)
  exact ⟨built_interleaved _, plan, h, hnext, assign_quotient (built_interleaved _) h⟩

end PreliminaryPlan

end Dataflow
