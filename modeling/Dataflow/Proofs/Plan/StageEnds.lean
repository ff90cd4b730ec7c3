import Dataflow.Proofs.Plan.Quotient

/-!
# Where a stage starts and where it ends

A stage lists the members that start it and those that end it. Both lists are made from the edges
between planned tasks, and they say what the finished graph says: a member starts the stage iff all
its inputs are fed through the execution state, and it ends the stage iff it feeds no other member
but through a barrier, or a task of another stage. Inside of a stage the tasks form no cycle, so
each member can be reached from where the stage starts, and from each the end can be reached.

* `Finished.leadsWithin_iff`: the channels inside of a stage, edge by edge.
* `Finished.mem_terminalTasks`: a terminal task by its edges.
* `Finished.exists_startTask`, `Finished.exists_terminalTask`: from the start to the end.
* **`assign_ends`**: the start and terminal tasks of every stage.

What comes through a barrier comes from outside, even if both ends are in one stage, as with a loop
head that reads its own iteration: the data are looked up in the execution state. Hence the lists
speak of members that are fed from outside or through barriers. Edges other than feedback lie inside
of a stage only if they are no barriers (`Dataflow.Proofs.Plan.Partition`).

That a member can be reached from a start task needs that the channels inside of the stage form no
cycle, so it is a result about plans and not about any list of stages. From it follows that a push
which begins with the start tasks can come to every member (`Dataflow.Proofs.Execution.Spread`).
-/

namespace Dataflow

/-- Task `v` reads what task `u` makes, both are in stage `s`, and the channel is no barrier. -/
def Plan.LeadsWithin (plan : Plan) (s : StageId) (u v : TaskId) : Prop :=
  u ∈ (plan.stage s).tasks ∧ v ∈ (plan.stage s).tasks ∧ ∃ i c,
    (plan.graph.task v).inputChannel i = some c ∧ (plan.graph.channel c).producer = u ∧
      (plan.graph.channel c).barrier = false

/-- Input `i` of a task is fed, through a barrier or by a task outside of stage `s`. -/
def Plan.IsFedFromOutside (plan : Plan) (s : StageId) (t : TaskId) (i : Nat) : Prop :=
  ∃ c, (plan.graph.task t).inputChannel i = some c ∧
    ((plan.graph.channel c).barrier = true ∨
      (plan.graph.channel c).producer ∉ (plan.stage s).tasks)

/-- What the start tasks and the terminal tasks of a stage are. -/
structure Plan.HasEnds (plan : Plan) (s : StageId) : Prop where
  start_iff : ∀ t, t ∈ (plan.stage s).startTasks ↔ t ∈ (plan.stage s).tasks ∧
    ∀ i < (plan.graph.task t).inputs.length, plan.IsFedFromOutside s t i
  /-- Execution feeds a start task through the execution state alone. -/
  start_external : ∀ t ∈ (plan.stage s).tasks, (t ∈ (plan.stage s).startTasks ↔
    ∀ i < (plan.graph.task t).inputs.length, plan.isFedExternally t i = true)
  start_of_nil : ∀ t ∈ (plan.stage s).tasks, (plan.graph.task t).inputs = [] →
    t ∈ (plan.stage s).startTasks
  terminal_iff : ∀ t, t ∈ (plan.stage s).terminalTasks ↔ t ∈ (plan.stage s).tasks ∧
    ((∀ u, ¬ plan.LeadsWithin s t u) ∨
      ∃ q ≠ s, ∃ u ∈ (plan.stage q).tasks, plan.graph.Feeds t u)
  ne_nil : (plan.stage s).startTasks ≠ [] ∧ (plan.stage s).terminalTasks ≠ []
  /-- All members are listed in the order of their numbers. -/
  sorted : (plan.stage s).tasks.Pairwise (· < ·) ∧ (plan.stage s).startTasks.Pairwise (· < ·) ∧
    (plan.stage s).terminalTasks.Pairwise (· < ·)
  from_start : ∀ t ∈ (plan.stage s).tasks, ∃ u ∈ (plan.stage s).startTasks,
    Relation.ReflTransGen (plan.LeadsWithin s) u t
  to_terminal : ∀ t ∈ (plan.stage s).tasks, ∃ u ∈ (plan.stage s).terminalTasks,
    Relation.ReflTransGen (plan.LeadsWithin s) t u

namespace PreliminaryPlan

namespace Finished

section Ends

variable {g : TaskGraph} {tasks : List TaskId} {r : Runs} {plan : Plan} {s : StageId}
  {t u v : TaskId}

/-- What leads from task to task inside of a stage are the edges there that are no feedback. -/
theorem leadsWithin_iff (hw : g.Wired) (hs : g.IsScope tasks) (h : Finished g tasks r plan) :
    plan.LeadsWithin s u v ↔ ∃ e ∈ Edge.among g tasks, e.feedback = false ∧ e.producer = u ∧
      e.consumer = v ∧ r.place u = s ∧ r.place v = s := by
  unfold Plan.LeadsWithin
  rw [h.mem_stage hs, h.mem_stage hs]
  constructor
  · rintro ⟨⟨-, hu⟩, ⟨hv, hvs⟩, i, c, hc, hp, hb⟩
    rw [h.sameWiring.input] at hc
    rw [h.sameWiring.producer] at hp
    refine ⟨_, edge_mem hv hc, feedback_ofInput.mpr fun hi => ?_, hp, rfl, hu, hvs⟩
    rw [h.feedback hw hv hc hi] at hb
    exact absurd hb (by simp)
  · rintro ⟨e, he, hf, rfl, rfl, hus, hvs⟩
    obtain ⟨hu, hv⟩ := hs.ends_mem he
    obtain ⟨t, ht, i, c, hc, rfl⟩ := mem_among_iff.mp he
    refine ⟨⟨hu, hus⟩, ⟨hv, hvs⟩, i, c, ?_, ?_, ?_⟩
    · rw [← hc]
      exact h.sameWiring.input t i
    · exact h.sameWiring.producer c
    · -- nothing inside of a stage keeps two tasks apart
      refine ((h.together hs hw ht hc (feedback_ofInput.mp hf)).mp ?_).2.1
      rw [h.stage_of_mem (producer_mem hs ht hc), h.stage_of_mem ht]
      exact congrArg some (hus.trans hvs.symm)

/-- Execution takes an input as fed from outside iff the finished graph says so. -/
theorem isFedFromOutside_iff (hs : g.IsScope tasks) (h : Finished g tasks r plan)
    (ht : t ∈ (plan.stage s).tasks) {i : Nat} {c : ChannelId}
    (hc : (g.task t).inputChannel i = some c) :
    plan.IsFedFromOutside s t i ↔ plan.isFedExternally t i = true := by
  obtain ⟨htm, rfl⟩ := (h.mem_stage hs).mp ht
  have hc' := (h.sameWiring.input t i).trans hc
  have hprod := producer_mem hs htm hc
  unfold Plan.IsFedFromOutside
  simp only [hc', Option.some.injEq, exists_eq_left']
  rw [isFedExternally_eq hc', Bool.or_eq_true, bne_iff_ne, h.sameWiring.producer,
    h.stage_of_mem hprod, h.stage_of_mem htm, h.mem_stage hs, Ne, Option.some.injEq,
    and_iff_right hprod]

/-- A task starts its stage iff execution feeds it from outside alone. -/
theorem mem_startTasks_iff (hw : g.Wired) (hs : g.IsScope tasks) (h : Finished g tasks r plan)
    (hfed : ∀ t ∈ tasks, ∀ i < (g.task t).inputs.length,
      ((g.task t).inputChannel i).isSome = true) (hlt : s < r.count)
    (ht : t ∈ (plan.stage s).tasks) : t ∈ (plan.stage s).startTasks ↔
      ∀ i < (plan.graph.task t).inputs.length, plan.isFedExternally t i = true := by
  rw [h.mem_startTasks hlt, and_iff_right ht]
  have htm := ((h.mem_stage hs).mp ht).1
  constructor
  · intro hno i hi
    rw [h.inputs] at hi
    obtain ⟨c, hc⟩ := Option.isSome_iff_exists.mp (hfed t htm i hi)
    by_cases hb : i ∈ (g.task t).operator.bodyInputs
    · -- feedback comes through a barrier, wherever it comes from
      rw [isFedExternally_eq ((h.sameWiring.input t i).trans hc), h.feedback hw htm hc hb,
        Bool.true_or]
    · exact (h.isFedExternally_iff hw hs htm hc hb).mpr (hno i c hc hb)
  · intro hall i c hc hb
    refine (h.isFedExternally_iff hw hs htm hc hb).mp (hall i ?_)
    rw [h.inputs]
    exact lt_length_of_inputChannel hc

theorem terminalTasks_eq (h : Finished g tasks r plan) (hlt : s < r.count) :
    (plan.stage s).terminalTasks = (plan.stage s).tasks.filter fun t =>
      !(((r.edges.filter fun e => r.place e.producer == s).filter fun e =>
        !e.feedback && r.place e.producer == r.place e.consumer).map Edge.producer).contains t ||
      (((r.edges.filter fun e => r.place e.producer == s).filter fun e =>
        r.place e.producer != r.place e.consumer).map Edge.producer).contains t := by
  obtain ⟨head, hst⟩ := h.stage hlt
  rw [hst]
  rfl

/-- A terminal task feeds no task of its stage, but for feedback, or it feeds another stage. -/
theorem mem_terminalTasks (h : Finished g tasks r plan) (hlt : s < r.count) :
    t ∈ (plan.stage s).terminalTasks ↔ t ∈ (plan.stage s).tasks ∧
      ((∀ e ∈ Edge.among g tasks, e.feedback = false → e.producer = t →
          r.place e.consumer ≠ r.place t) ∨
        ∃ e ∈ Edge.among g tasks, e.producer = t ∧ r.place e.consumer ≠ r.place t) := by
  rw [h.terminalTasks_eq hlt, List.mem_filter, Bool.or_eq_true, Bool.not_eq_true',
    Bool.eq_false_iff, Ne, List.contains_iff_mem, List.contains_iff_mem]
  refine and_congr_right fun ht => ?_
  obtain ⟨-, hplace⟩ := (h.mem_tasks hlt).mp ht
  simp only [List.mem_map, List.mem_filter, Bool.and_eq_true, Bool.not_eq_true', beq_iff_eq,
    bne_iff_ne, h.resolved.valid.edges_eq]
  refine or_congr ⟨fun hno e he hf hp heq => hno ?_, ?_⟩ ⟨?_, ?_⟩
  · exact ⟨e, ⟨⟨he, hp ▸ hplace⟩, hf, (congrArg r.place hp).trans heq.symm⟩, hp⟩
  · rintro hall ⟨e, ⟨⟨he, -⟩, hf, heq⟩, rfl⟩
    exact hall e he hf rfl heq.symm
  · rintro ⟨e, ⟨⟨he, -⟩, hne⟩, rfl⟩
    exact ⟨e, he, rfl, hne.symm⟩
  · rintro ⟨e, he, rfl, hne⟩
    exact ⟨e, ⟨⟨he, hplace⟩, hne.symm⟩, rfl⟩

/-- A terminal task leads to no task of its stage, or it feeds a task of another one. -/
theorem mem_terminalTasks_iff (hw : g.Wired) (hs : g.IsScope tasks) (h : Finished g tasks r plan)
    (hlt : s < r.count) : t ∈ (plan.stage s).terminalTasks ↔ t ∈ (plan.stage s).tasks ∧
      ((∀ u, ¬ plan.LeadsWithin s t u) ∨
        ∃ q ≠ s, ∃ u ∈ (plan.stage q).tasks, plan.graph.Feeds t u) := by
  rw [h.mem_terminalTasks hlt]
  refine and_congr_right fun ht => ?_
  obtain ⟨-, rfl⟩ := (h.mem_stage hs).mp ht
  refine or_congr ⟨fun hall u hu => ?_, fun hno e he hf hp heq => ?_⟩ ⟨?_, ?_⟩
  · obtain ⟨e, he, hf, hp, rfl, -, hc⟩ := (h.leadsWithin_iff hw hs).mp hu
    exact hall e he hf hp hc
  · exact hno _ ((h.leadsWithin_iff hw hs).mpr ⟨e, he, hf, hp, rfl, rfl, heq⟩)
  · rintro ⟨e, he, hp, hne⟩
    obtain ⟨u, hu, i, c, hc, rfl⟩ := mem_among_iff.mp he
    refine ⟨_, hne, u, (h.mem_stage hs).mpr ⟨hu, rfl⟩, i, c, ?_, ?_⟩
    · exact (h.sameWiring.input u i).trans hc
    · exact (h.sameWiring.producer c).trans hp
  · rintro ⟨q, hne, u, hu, i, c, hc, hp⟩
    obtain ⟨hum, rfl⟩ := (h.mem_stage hs).mp hu
    rw [h.sameWiring.input] at hc
    rw [h.sameWiring.producer] at hp
    exact ⟨_, edge_mem hum hc, hp, hne⟩

/-- Going back inside of a stage one gets to where it starts. -/
theorem exists_startTask (hw : g.Wired) (hs : g.IsScope tasks) (h : Finished g tasks r plan)
    (hg : ∀ t ∈ tasks, Digraph.Grounded (Runs.initial g tasks).forward t) (hlt : s < r.count)
    (ht : t ∈ (plan.stage s).tasks) : ∃ u ∈ (plan.stage s).startTasks,
      Relation.ReflTransGen (plan.LeadsWithin s) u t := by
  have hground := h.grounded_innerProducers hw hs hg t ((h.mem_stage hs).mp ht).1
  induction hground with
  | intro t _ ih =>
    by_cases hstart : t ∈ (plan.stage s).startTasks
    · exact ⟨t, hstart, .refl⟩
    · obtain ⟨htm, hts⟩ := (h.mem_stage hs).mp ht
      rw [h.mem_startTasks hlt] at hstart
      push Not at hstart
      obtain ⟨i, c, hc, hi, heq⟩ := hstart ht
      have hlead : plan.LeadsWithin s (g.channel c).producer t :=
        (h.leadsWithin_iff hw hs).mpr
          ⟨_, edge_mem htm hc, feedback_ofInput.mpr hi, rfl, rfl, heq.trans hts, hts⟩
      have hinner : (g.channel c).producer ∈ plan.innerProducers t := by
        refine mem_innerProducers.mpr ⟨i, c, (h.sameWiring.input t i).trans hc, ?_,
          h.sameWiring.producer c⟩
        rw [Bool.eq_false_iff, Ne, h.isFedExternally_iff hw hs htm hc hi]
        exact fun hne => hne heq
      obtain ⟨u, hu, hpath⟩ := ih _ hinner hlead.1
      exact ⟨u, hu, hpath.tail hlead⟩

/-- Going on inside of a stage one gets to where it ends. -/
theorem exists_terminalTask (hw : g.Wired) (hs : g.IsScope tasks) (h : Finished g tasks r plan)
    (hg : ∀ t ∈ tasks, Digraph.Grounded (Runs.initial g tasks).forward t) (hlt : s < r.count)
    (ht : t ∈ (plan.stage s).tasks) : ∃ u ∈ (plan.stage s).terminalTasks,
      Relation.ReflTransGen (plan.LeadsWithin s) t u := by
  have hground := hg t ((h.mem_stage hs).mp ht).1
  induction hground with
  | intro t _ ih =>
    by_cases hterminal : t ∈ (plan.stage s).terminalTasks
    · exact ⟨t, hterminal, .refl⟩
    · rw [h.mem_terminalTasks_iff hw hs hlt] at hterminal
      obtain ⟨v, hv⟩ : ∃ v, plan.LeadsWithin s t v := by
        by_contra hno
        exact hterminal ⟨ht, Or.inl fun v hv => hno ⟨v, hv⟩⟩
      obtain ⟨e, he, hf, hp, hc, -, -⟩ := (h.leadsWithin_iff hw hs).mp hv
      obtain ⟨u, hu, hpath⟩ := ih v (Runs.mem_forward.mpr ⟨e, he, hf, hp, hc⟩) hv.2.1
      exact ⟨u, hu, hpath.head hv⟩

/-- The members of a stage are listed in the order of their numbers. -/
theorem sorted_tasks (h : Finished g tasks r plan) (hsorted : tasks.Pairwise (· < ·))
    (hlt : s < r.count) : (plan.stage s).tasks.Pairwise (· < ·) := by
  obtain ⟨head, hst⟩ := h.stage hlt
  rw [hst]
  change (r.tasks.filter fun t => r.place t == s).Pairwise (· < ·)
  rw [h.resolved.valid.tasks_eq]
  exact hsorted.filter _

end Ends

end Finished

/-- **Where a stage starts and ends**: its start tasks are the members that are fed from outside of
it or through barriers alone, its terminal tasks those that feed no other member but through
barriers, or that feed another stage. There are tasks of either kind, and every member lies on the
way from the one to the other. -/
theorem assign_ends {p : PreliminaryPlan} {plan : Plan} (hg : p.graph.Built)
    (h : p.assign = .ok plan) {s : StageId} (hlt : s < plan.stages.length) : plan.HasEnds s := by
  obtain ⟨hs, hf, ha, -⟩ := assign_eq_ok hg h
  obtain ⟨r, -, hfin⟩ := finished_of_assign hg h
  have hw := hg.wired
  have hscope := isScope_plannedTasks hw hs
  have hground := (acyclic_iff_grounded hw hs).mp ha
  have hfed : ∀ t ∈ p.plannedTasks, ∀ i < (p.graph.task t).inputs.length,
      ((p.graph.task t).inputChannel i).isSome = true := fun t ht =>
    hf t ((mem_plannedTasks hw hs).mp ht)
  rw [hfin.length_stages] at hlt
  have hsorted := hfin.sorted_tasks (List.pairwise_lt_range.filter _) hlt
  obtain ⟨t, ht⟩ := List.exists_mem_of_ne_nil _ (hfin.tasks_ne_nil hscope hlt)
  obtain ⟨first, hfirst, -⟩ := hfin.exists_startTask hw hscope hground hlt ht
  obtain ⟨last, hlast, -⟩ := hfin.exists_terminalTask hw hscope hground hlt ht
  have hstart : ∀ t ∈ (plan.stage s).tasks, (t ∈ (plan.stage s).startTasks ↔
      ∀ i < (plan.graph.task t).inputs.length, plan.isFedExternally t i = true) := fun t ht =>
    hfin.mem_startTasks_iff hw hscope hfed hlt ht
  refine ⟨fun t => ?_, hstart, fun t ht hnil => ?_,
    fun t => hfin.mem_terminalTasks_iff hw hscope hlt,
    ⟨List.ne_nil_of_mem hfirst, List.ne_nil_of_mem hlast⟩, ⟨hsorted, ?_, ?_⟩,
    fun t ht => hfin.exists_startTask hw hscope hground hlt ht,
    fun t ht => hfin.exists_terminalTask hw hscope hground hlt ht⟩
  · rw [← and_iff_right_of_imp fun hmem => ((hfin.mem_startTasks hlt (t := t)).mp hmem).1]
    refine and_congr_right fun ht => (hstart t ht).trans ?_
    refine forall_congr' fun i => forall_congr' fun hi => ?_
    rw [hfin.inputs] at hi
    obtain ⟨c, hc⟩ := Option.isSome_iff_exists.mp
      (hfed t ((hfin.mem_stage hscope).mp ht).1 i hi)
    exact (hfin.isFedFromOutside_iff hscope ht hc).symm
  · rw [hstart t ht, hnil]
    exact fun i hi => absurd hi (Nat.not_lt_zero i)
  · rw [hfin.startTasks_eq hlt]
    exact hsorted.filter _
  · rw [hfin.terminalTasks_eq hlt]
    exact hsorted.filter _

/-- Four operators; the last one reads what the first one makes in two ways, by an operator of the
same platform and by one of another platform. -/
def detour : PreliminaryPlan where
  graph := (((((((TaskGraph.empty.addTask
    { object := 0, name := "read", platform := ⟨"a"⟩, inputs := [], outputs := [.any] }).addTask
    { object := 1, name := "keep", platform := ⟨"a"⟩, inputs := [.any], outputs := [.any] }).addTask
    { object := 2, name := "count", platform := ⟨"b"⟩, inputs := [.any], outputs := [.any] }).addTask
    { object := 3, name := "join", platform := ⟨"a"⟩, inputs := [.any, .any], outputs := [] }).wire
      0 0 1 0 .collection).wire 0 0 2 0 .collection).wire 1 0 3 0 .collection).wire
      2 0 3 1 .collection
  sinks := [3]

theorem built_detour : detour.graph.Built :=
  .wire (.wire (.wire (.wire (.addTask _ (.addTask _ (.addTask _ (.addTask _ .empty)))) rfl) rfl)
    rfl) rfl

/-- Reading starts its stage and ends it as well, for it feeds another one. -/
theorem detour_ends : detour.graph.Built ∧ ∃ plan, detour.assign = .ok plan ∧
    0 < plan.stages.length ∧ plan.HasEnds 0 ∧ (plan.stage 0).tasks = [0, 1] ∧
    (plan.stage 0).startTasks = [0] ∧ (plan.stage 0).terminalTasks = [0, 1] := by
  obtain ⟨plan, h, hlt, hlists⟩ : ∃ plan, detour.assign = .ok plan ∧ 0 < plan.stages.length ∧
      (plan.stage 0).tasks = [0, 1] ∧ (plan.stage 0).startTasks = [0] ∧
      (plan.stage 0).terminalTasks = [0, 1] := exists_assign_of_decide (by decide +kernel)
  exact ⟨built_detour, plan, h, hlt, assign_ends built_detour h hlt, hlists⟩

end PreliminaryPlan

end Dataflow
