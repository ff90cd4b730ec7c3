import Dataflow.Proofs.Plan.Alike
import Dataflow.Proofs.Plan.Finish
import Dataflow.Proofs.TaskGraph.Growth

/-!
# Finishing a graph that has grown

Finishing looks at every task and at every channel of the graph. What it makes of alike runs depends
on what the graph had before it grew: consumers that are not planned are passed over wherever
consumers are read, and a channel that no planned task reads does not fail.

* `readings_of_keeps`, `readings_fresh`, `readerStages_of_keeps`: the stages that read a channel,
  and those that read a loop head.
* `buildStage_of_alike`, `finishChannel_of_alike`, `finished_of_alike`: stages and channels.
* `finishChannels_of_alike`: which error there is, if there is one.
* **`materialize_of_alike`**: the whole plan, or why there is none.
-/

namespace Dataflow

variable {g g' : TaskGraph}

/-! ## Loops -/

namespace Loops

/-- Loop membership is told by the successors of the stages, and by the readers of the heads. -/
theorem assign_congr {stages : List Stage} (h : ∀ s ∈ stages, ∀ t, s.loopHead = some t →
    (g'.task t).operator = (g.task t).operator ∧
      ∀ outputs, readerStages g' t outputs = readerStages g t outputs) :
    assign g' stages = assign g stages := by
  have hbodies : bodies g' stages = bodies g stages := by
    unfold bodies
    refine List.filterMap_congr fun s hs => ?_
    have hmem : stages.getD s default ∈ stages := by
      have hlt := List.mem_range.mp hs
      rw [List.getD_eq_getElem _ _ hlt]
      exact List.getElem_mem hlt
    cases hhead : (stages.getD s default).loopHead with
    | none => rfl
    | some t =>
      obtain ⟨hop, hreaders⟩ := h _ hmem t hhead
      simp only [bind, Option.bind, hop, body, hreaders]
  unfold assign
  rw [hbodies]

end Loops

namespace PreliminaryPlan

variable {r r' : Runs} {planned : TaskId → Bool} {stageOf stageOf' : TaskId → StageId}

/-- The stages of the planned tasks that read a channel, in the order of its consumers. -/
def readings (planned : TaskId → Bool) (stageOf : TaskId → StageId) (c : Channel) :
    List StageId :=
  (c.consumers.filter fun k => planned k.task).map fun k => stageOf k.task

theorem readers_eq (n : Nat) (c : Channel) :
    readers planned stageOf n c = ascending n (readings planned stageOf c) := rfl

/-- An old channel is read in the same stages. -/
theorem readings_of_keeps (h : g.Keeps g') (hlt : ∀ t, planned t = true → t < g.tasks.length)
    (hst : ∀ t, planned t = true → stageOf' t = stageOf t) {c : ChannelId}
    (hc : c < g.channels.length) :
    readings planned stageOf' (g'.channel c) = readings planned stageOf (g.channel c) := by
  unfold readings
  rw [h.filter_consumers hlt hc]
  refine List.map_congr_left fun k hk => hst _ ?_
  exact (List.mem_filter.mp hk).2

/-- No planned task reads a new channel. -/
theorem readings_fresh (h : g.Keeps g') (hlt : ∀ t, planned t = true → t < g.tasks.length)
    {c : ChannelId} (hc : g.channels.length ≤ c) :
    readings planned stageOf (g'.channel c) = [] := by
  unfold readings
  rw [h.filter_consumers_fresh hlt hc]
  rfl

/-- Where the outputs of a task are read, told by the planned tasks that read them. -/
theorem readerStages_placeTasks (hu : g.Unplaced)
    (hlt : ∀ t, planned t = true → t < g.tasks.length) (t : TaskId) (outputs : List Nat) :
    Loops.readerStages (placeTasks g planned stageOf) t outputs =
      (g.task t).outputs.reduceOption.flatMap fun c =>
        if outputs.contains (g.channel c).output then readings planned stageOf (g.channel c)
        else [] := by
  have htask : ∀ u, (placeTasks g planned stageOf).task u =
      if planned u = true then { g.task u with stage := some (stageOf u) } else g.task u :=
    fun u => task_placeTasks (hlt u)
  have houtputs : ((placeTasks g planned stageOf).task t).outputs = (g.task t).outputs := by
    rw [htask]
    split <;> rfl
  have hstage : ∀ u, ((placeTasks g planned stageOf).task u).stage =
      if planned u = true then some (stageOf u) else none := fun u => by
    rw [htask]
    split
    · rfl
    · exact hu u
  unfold Loops.readerStages TaskGraph.consumersOf
  rw [houtputs, List.filterMap_flatMap]
  refine congrArg (List.flatMap · _) (funext fun c => ?_)
  have hchannel : (placeTasks g planned stageOf).channel c = g.channel c := rfl
  simp only [List.filterMap_map, Function.comp_def, hchannel, hstage, readings]
  split
  · rw [← List.filterMap_eq_map, List.filterMap_filter]
    rfl
  · simp

theorem flatMap_filter {α β : Type} {p : α → Bool} {f : α → List β} : ∀ {xs : List α},
    (∀ x ∈ xs, p x = false → f x = []) → (xs.filter p).flatMap f = xs.flatMap f
  | [], _ => rfl
  | x :: xs, h => by
    have ih := flatMap_filter fun y hy => h y (List.mem_cons_of_mem x hy)
    cases hp : p x with
    | false => rw [List.filter_cons_of_neg (by simp [hp]), List.flatMap_cons,
        h x List.mem_cons_self hp, List.nil_append, ih]
    | true => rw [List.filter_cons_of_pos hp, List.flatMap_cons, List.flatMap_cons, ih]

/-- An old task is read in the same stages. -/
theorem readerStages_of_keeps (h : g.Keeps g') (hu : g.Unplaced) (hu' : g'.Unplaced)
    (hlt : ∀ t, planned t = true → t < g.tasks.length)
    (hst : ∀ t, planned t = true → stageOf' t = stageOf t) {t : TaskId}
    (ht : t < g.tasks.length) (outputs : List Nat) :
    Loops.readerStages (placeTasks g' planned stageOf') t outputs =
      Loops.readerStages (placeTasks g planned stageOf) t outputs := by
  rw [readerStages_placeTasks hu hlt, readerStages_placeTasks hu' fun t ht =>
    Nat.lt_of_lt_of_le (hlt t ht) h.tasks_le]
  have hfresh : ∀ {g'' : TaskGraph} {st : TaskId → StageId}, g.Keeps g'' → ∀ c,
      decide (c < g.channels.length) = false →
      (if outputs.contains (g''.channel c).output then readings planned st (g''.channel c)
        else []) = [] := fun hk c hc => by
    rw [readings_fresh hk hlt (Nat.le_of_not_lt (of_decide_eq_false hc)), ite_self]
  -- new channels add nothing, so that the old ones can be compared one by one
  rw [← flatMap_filter fun c _ => hfresh h c, ← flatMap_filter fun c _ => hfresh (.refl g) c,
    h.outputs t ht]
  refine List.flatMap_congr fun c hc => ?_
  have hlt' : c < g.channels.length := of_decide_eq_true (List.mem_filter.mp hc).2
  rw [h.output hlt', readings_of_keeps h hlt hst hlt']

theorem select_congr {α β : Type} {xs : List α} {p p' q q' : α → Bool} {f f' : α → β}
    (hp : ∀ x ∈ xs, p' x = p x) (hq : ∀ x ∈ xs, q' x = q x) (hf : ∀ x ∈ xs, f' x = f x) :
    ((xs.filter p').filter q').map f' = ((xs.filter p).filter q).map f := by
  have hpq : ∀ x ∈ xs, (q' x && p' x) = (q x && p x) := fun x hx => by rw [hp x hx, hq x hx]
  rw [List.filter_filter, List.filter_filter, List.filter_congr hpq]
  exact List.map_congr_left fun x hx => hf x (List.mem_of_mem_filter hx)

/-- What stands in for the first of some planned tasks is a task. -/
theorem headD_filter_lt {n : Nat} (hpos : 0 < n) (hlt : ∀ t, r.tasks.contains t = true → t < n)
    (p : TaskId → Bool) : (r.tasks.filter p).headD 0 < n := by
  cases hl : r.tasks.filter p with
  | nil => exact hpos
  | cons t ts =>
    have ht : t ∈ r.tasks.filter p := hl ▸ List.mem_cons_self
    exact hlt t (List.contains_iff_mem.mpr (List.mem_of_mem_filter ht))

theorem loopHead_buildStage_lt {n : Nat} (hpos : 0 < n)
    (hlt : ∀ t, r.tasks.contains t = true → t < n) {stageOf : TaskId → StageId} {k : Nat}
    {s : StageId} {t : TaskId} (h : (buildStage g r stageOf k s).loopHead = some t) : t < n := by
  unfold buildStage at h
  simp only [Option.ite_none_right_eq_some, Option.some.injEq] at h
  rw [← h.2]
  exact headD_filter_lt hpos hlt _

/-- A stage is built from what is known of planned tasks and of their edges. -/
theorem buildStage_of_alike (h : g.Keeps g') (ha : Runs.Alike r r')
    (hpos : 0 < g.tasks.length) (hlt : ∀ t, r.tasks.contains t = true → t < g.tasks.length)
    (n : Nat) (s : StageId) :
    buildStage g' r' r'.place n s = buildStage g r r.place n s := by
  have hp : ∀ e ∈ r.edges, r'.place e.producer = r.place e.producer := fun e he =>
    ha.place (ha.ends e he).1
  have hc : ∀ e ∈ r.edges, r'.place e.consumer = r.place e.consumer := fun e he =>
    ha.place (ha.ends e he).2
  -- what the lists of a stage ask of an edge
  have hin : ∀ e ∈ r.edges, (r'.place e.consumer == s) = (r.place e.consumer == s) :=
    fun e he => by rw [hc e he]
  have hout : ∀ e ∈ r.edges, (r'.place e.producer == s) = (r.place e.producer == s) :=
    fun e he => by rw [hp e he]
  have hinner : ∀ e ∈ r.edges, (!e.feedback && r'.place e.producer == r'.place e.consumer) =
      (!e.feedback && r.place e.producer == r.place e.consumer) := fun e he => by
    rw [hp e he, hc e he]
  have houter : ∀ e ∈ r.edges, (r'.place e.producer != r'.place e.consumer) =
      (r.place e.producer != r.place e.consumer) := fun e he => by
    rw [hp e he, hc e he]
  have hdepends : ∀ e ∈ r.edges,
      (r'.place e.producer != r'.place e.consumer && !e.feedback) =
        (r.place e.producer != r.place e.consumer && !e.feedback) := fun e he => by
    rw [houter e he]
  have htasks : (r.tasks.filter fun t => r'.place t == s) =
      r.tasks.filter fun t => r.place t == s :=
    List.filter_congr fun t ht => by rw [ha.place ht]
  have hfirst := headD_filter_lt hpos hlt fun t => r.place t == s
  unfold buildStage
  simp only [ha.tasks, ha.edges, htasks, h.operator _ hfirst, h.isLoopHead hfirst,
    Stage.mk.injEq, true_and, and_true]
  refine ⟨?_, ?_, ?_, ?_, ?_⟩
  · rw [select_congr hin hinner fun _ _ => rfl]
  · rw [select_congr hout hinner fun _ _ => rfl, select_congr hout houter fun _ _ => rfl]
  · rw [select_congr hin hdepends hp]
  · rw [select_congr hout hdepends hc]
  · rw [select_congr hin (fun _ _ => rfl) hp]

/-! ## Finishing -/

theorem finishChannels_cons_eq_error {finish : ChannelId → Channel → Except PlanningError Channel}
    {e : PlanningError} {id : ChannelId} {c : Channel} {cs : List Channel} :
    finishChannels finish id (c :: cs) = .error e ↔ finish id c = .error e ∨
      (∀ e', finish id c ≠ .error e') ∧ finishChannels finish (id + 1) cs = .error e := by
  rw [finishChannels]
  cases hc : finish id c with
  | error e' => simp [bind, Except.bind]
  | ok d => cases hcs : finishChannels finish (id + 1) cs <;> simp [bind, Except.bind]

/-- Channels fail with the error of the first that fails; more of them that do not fail make no
difference. -/
theorem finishChannels_congr {finish finish' : ChannelId → Channel → Except PlanningError Channel}
    {e : PlanningError} : ∀ {cs cs' : List Channel} {id : ChannelId}, cs.length ≤ cs'.length →
      (∀ i < cs.length, ∀ e, finish' (id + i) (cs'.getD i default) = .error e ↔
        finish (id + i) (cs.getD i default) = .error e) →
      (∀ i < cs'.length, cs.length ≤ i → ∀ e, finish' (id + i) (cs'.getD i default) ≠ .error e) →
      (finishChannels finish' id cs' = .error e ↔ finishChannels finish id cs = .error e)
  | [], cs', id, _, _, hnew => by
    refine iff_of_false (fun herr => ?_) (by simp [finishChannels])
    obtain ⟨i, hi, hf⟩ := finishChannels_eq_error herr
    exact hnew i hi (Nat.zero_le i) e hf
  | c :: cs, [], id, hle, _, _ => absurd hle (by simp)
  | c :: cs, c' :: cs', id, hle, hold, hnew => by
    have hshift : ∀ i, id + (i + 1) = id + 1 + i := fun i => by
      rw [Nat.add_assoc, Nat.add_comm 1 i]
    have hhead : ∀ e, finish' id c' = .error e ↔ finish id c = .error e :=
      hold 0 (Nat.succ_pos _)
    have htail : finishChannels finish' (id + 1) cs' = .error e ↔
        finishChannels finish (id + 1) cs = .error e := finishChannels_congr
      (Nat.le_of_succ_le_succ hle)
      (fun i hi => hshift i ▸ hold (i + 1) (Nat.succ_lt_succ hi))
      (fun i hi hge => hshift i ▸ hnew (i + 1) (Nat.succ_lt_succ hi) (Nat.succ_le_succ hge))
    rw [finishChannels_cons_eq_error, finishChannels_cons_eq_error, htail]
    simp only [ne_eq, hhead]

section Finish

variable (h : g.Keeps g') (ha : Runs.Alike r r')
  (hlt : ∀ t, r.tasks.contains t = true → t < g.tasks.length)
include h hlt

/-- A new channel is read too often by no planned tasks. -/
theorem not_overread_fresh {c : ChannelId} (hc : g.channels.length ≤ c) (n : Nat)
    (stageOf : TaskId → StageId) : ¬ Overread r.tasks.contains stageOf n (g'.channel c) := by
  rintro ⟨-, -, hmany⟩
  have hnil : ascending n [] = [] := List.filter_eq_nil_iff.mpr fun _ _ => nofun
  rw [readers_eq, readings_fresh h hlt hc, hnil] at hmany
  exact absurd hmany (Nat.not_lt_zero 1)

include ha

theorem readers_of_alike {c : ChannelId} (hc : c < g.channels.length) :
    readers r'.tasks.contains r'.place r'.count (g'.channel c) =
      readers r.tasks.contains r.place r.count (g.channel c) := by
  rw [ha.tasks, ha.count, readers_eq, readers_eq, readings_of_keeps h hlt
    (fun _ ht => ha.place (List.contains_iff_mem.mp ht)) hc]

/-- An old channel fails as before. -/
theorem finishChannel_of_alike {c : ChannelId} (hc : c < g.channels.length) (e : PlanningError) :
    finishChannel r' r'.tasks.contains r'.place r'.count c (g'.channel c) = .error e ↔
      finishChannel r r.tasks.contains r.place r.count c (g.channel c) = .error e := by
  have hover : Overread r'.tasks.contains r'.place r'.count (g'.channel c) ↔
      Overread r.tasks.contains r.place r.count (g.channel c) := by
    unfold Overread
    rw [readers_of_alike h ha hlt hc, h.producer hc, h.descriptor hc, ha.tasks]
  have hlabel : (g'.channel c).label c = (g.channel c).label c := by
    unfold Channel.label
    rw [h.descriptor hc]
  rw [finishChannel_eq, finishChannel_eq, readers_of_alike h ha hlt hc, hlabel]
  by_cases ho : Overread r.tasks.contains r.place r.count (g.channel c)
  · rw [if_pos ho, if_pos (hover.mpr ho)]
  · rw [if_neg ho, if_neg fun ho' => ho (hover.mp ho')]
    simp

/-- All channels fail as the old ones do. -/
theorem finishChannels_of_alike (e : PlanningError) :
    finishChannels (finishChannel r' r'.tasks.contains r'.place r'.count) 0 g'.channels =
        .error e ↔
      finishChannels (finishChannel r r.tasks.contains r.place r.count) 0 g.channels =
        .error e := by
  refine finishChannels_congr h.channels_le (fun c hc e => ?_) (fun c _ hc e => ?_)
  · rw [Nat.zero_add]
    exact finishChannel_of_alike h ha hlt hc e
  · have hover := not_overread_fresh h (ha.tasks.symm ▸ hlt) hc r'.count r'.place
    rw [Nat.zero_add, finishChannel_eq]
    exact (if_neg hover).symm ▸ nofun

/-- An old channel is finished with the same flags. -/
theorem finished_of_alike {c : ChannelId} (hc : c < g.channels.length) :
    (finished r' r'.tasks.contains r'.place r'.count c (g'.channel c)).barrier =
        (finished r r.tasks.contains r.place r.count c (g.channel c)).barrier ∧
      (finished r' r'.tasks.contains r'.place r'.count c (g'.channel c)).betweenStages =
        (finished r r.tasks.contains r.place r.count c (g.channel c)).betweenStages := by
  have hreaders := readers_of_alike h ha hlt hc
  constructor
  · change ((g'.channel c).barrier || r'.barriers.contains c) = _
    rw [h.barrier hc, ha.barriers]
    rfl
  · unfold finished
    simp only [hreaders, h.producer hc, h.betweenStages hc]
    rw [ha.tasks]
    split
    · rename_i hp
      rw [ha.place (List.contains_iff_mem.mp hp)]
    · rfl

end Finish

/-! ## The whole plan -/

/-- Two plans have the same stages, and the channels of a graph the same flags in both. -/
structure Matches (g : TaskGraph) (plan plan' : Plan) : Prop where
  stages : plan'.stages = plan.stages
  startingStages : plan'.startingStages = plan.startingStages
  splits : plan'.splits = plan.splits
  barrier : ∀ c < g.channels.length,
    (plan'.graph.channel c).barrier = (plan.graph.channel c).barrier
  betweenStages : ∀ c < g.channels.length,
    (plan'.graph.channel c).betweenStages = (plan.graph.channel c).betweenStages

section Outcome

variable (h : g.Keeps g') (hu : g.Unplaced) (hu' : g'.Unplaced) (ha : Runs.Alike r r')
  (hpos : 0 < g.tasks.length) (hlt : ∀ t, r.tasks.contains t = true → t < g.tasks.length)
include h hu hu' ha hpos hlt

theorem stages_finishedPlan (cs cs' : List Channel) :
    (finishedPlan g' r' cs').stages = (finishedPlan g r cs).stages := by
  have hbuild : (List.range r'.count).map (buildStage g' r' r'.place r'.count) =
      (List.range r.count).map (buildStage g r r.place r.count) := by
    rw [ha.count]
    exact List.map_congr_left fun s _ => buildStage_of_alike h ha hpos hlt _ s
  have hoperator : ∀ {g : TaskGraph} {planned : TaskId → Bool} {stageOf : TaskId → StageId},
      (∀ t, planned t = true → t < g.tasks.length) → ∀ t,
      ((placeTasks g planned stageOf).task t).operator = (g.task t).operator := fun hp t => by
    rw [task_placeTasks (hp t)]
    split <;> rfl
  change Loops.assign (placeTasks g' r'.tasks.contains r'.place) _ = Loops.assign _ _
  rw [hbuild, ha.tasks]
  refine Loops.assign_congr fun s hs t ht => ?_
  obtain ⟨k, -, rfl⟩ := List.mem_map.mp hs
  have htlt := loopHead_buildStage_lt hpos hlt ht
  refine ⟨?_, fun outputs => readerStages_of_keeps h hu hu' hlt
    (fun u hp => ha.place (List.contains_iff_mem.mp hp)) htlt outputs⟩
  rw [hoperator fun u hp => Nat.lt_of_lt_of_le (hlt u hp) h.tasks_le, hoperator hlt,
    h.operator t htlt]

/-- The finished plans match. -/
theorem matches_finishedPlan {cs cs' : List Channel}
    (hcs : finishChannels (finishChannel r r.tasks.contains r.place r.count) 0 g.channels = .ok cs)
    (hcs' : finishChannels (finishChannel r' r'.tasks.contains r'.place r'.count) 0 g'.channels =
      .ok cs') : Matches g (finishedPlan g r cs) (finishedPlan g' r' cs') := by
  have hstages := stages_finishedPlan h hu hu' ha hpos hlt cs cs'
  have hchannel := (channel_finishedPlan hcs).2
  have hchannel' : ∀ c < g.channels.length, cs'.getD c default =
      finished r' r'.tasks.contains r'.place r'.count c (g'.channel c) := fun c hc =>
    (channel_finishedPlan hcs').2 c (Nat.lt_of_lt_of_le hc h.channels_le)
  refine ⟨hstages, ?_, ha.splits, fun c hc => ?_, fun c hc => ?_⟩
  · unfold Plan.startingStages Plan.stageIds Plan.stage
    rw [hstages]
  · change (cs'.getD c default).barrier = (cs.getD c default).barrier
    rw [hchannel c hc, hchannel' c hc]
    exact (finished_of_alike h ha hlt hc).1
  · change (cs'.getD c default).betweenStages = (cs.getD c default).betweenStages
    rw [hchannel c hc, hchannel' c hc]
    exact (finished_of_alike h ha hlt hc).2

/-- **Finishing alike runs** fails with one error or yields plans that match. -/
theorem materialize_of_alike (hlen : r.executionOrder.length = r.count) :
    (∃ e, materialize g r = .error e ∧ materialize g' r' = .error e) ∨
      ∃ plan plan', materialize g r = .ok plan ∧ materialize g' r' = .ok plan' ∧
        Matches g plan plan' := by
  have hlen' : r'.executionOrder.length = r'.count := by
    rw [ha.executionOrder, ha.count, hlen]
  have hfail := finishChannels_of_alike h ha hlt
  rw [materialize_eq hlen, materialize_eq hlen']
  cases hcs : finishChannels (finishChannel r r.tasks.contains r.place r.count) 0 g.channels with
  | error e =>
    rw [(hfail e).mpr hcs]
    exact Or.inl ⟨e, rfl, rfl⟩
  | ok cs =>
    cases hcs' : finishChannels (finishChannel r' r'.tasks.contains r'.place r'.count) 0
        g'.channels with
    | error e => exact absurd ((hfail e).mp hcs') (by rw [hcs]; nofun)
    | ok cs' =>
      exact Or.inr ⟨_, _, rfl, rfl, matches_finishedPlan h hu hu' ha hpos hlt hcs hcs'⟩

end Outcome

end PreliminaryPlan

end Dataflow
