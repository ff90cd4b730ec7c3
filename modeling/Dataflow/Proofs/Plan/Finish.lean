import Dataflow.Proofs.Plan.Order

/-!
# Finishing a plan

What `PreliminaryPlan.materialize` makes of runs whose order is complete: the flags of each channel
are set (`finished`), unless a channel that can be read once has readers in several stages.

* `finishChannels_eq_ok`, `finishChannels_eq_error`: channel after channel.
* `one_lt_length_readers`: when a channel has readers in several stages.
* **`materialize_eq_ok`**, `materialize_cases`: the finished plan, and when there is none.
-/

namespace Dataflow

namespace PreliminaryPlan

/-! ## Channels of the finished graph -/

section Finish

theorem mem_ascending {n x : Nat} {xs : List Nat} : x ∈ ascending n xs ↔ x < n ∧ x ∈ xs := by
  unfold ascending
  rw [List.mem_filter, List.mem_range, List.contains_iff_mem]

theorem nodup_ascending (n : Nat) (xs : List Nat) : (ascending n xs).Nodup :=
  List.nodup_range.filter _

theorem pairwise_ascending (n : Nat) (xs : List Nat) : (ascending n xs).Pairwise (· < ·) :=
  List.pairwise_lt_range.filter _

theorem mem_readers {planned : TaskId → Bool} {stageOf : TaskId → StageId} {n : Nat} {c : Channel}
    {s : StageId} : s ∈ readers planned stageOf n c ↔
      s < n ∧ ∃ k ∈ c.consumers, planned k.task = true ∧ stageOf k.task = s := by
  unfold readers
  rw [mem_ascending, List.mem_map]
  simp only [List.mem_filter, and_assoc]

/-- A channel with its flags set. -/
def finished (r : Runs) (planned : TaskId → Bool) (stageOf : TaskId → StageId) (n : Nat)
    (id : ChannelId) (c : Channel) : Channel :=
  { c with
    barrier := c.barrier || r.barriers.contains id
    betweenStages := if planned c.producer then
      (readers planned stageOf n c).any (· != stageOf c.producer) else c.betweenStages }

/-- A channel that can be read once would feed several stages. -/
def Overread (planned : TaskId → Bool) (stageOf : TaskId → StageId) (n : Nat) (c : Channel) :
    Prop :=
  planned c.producer = true ∧ c.descriptor.reusable = false ∧
    1 < (readers planned stageOf n c).length

instance (planned : TaskId → Bool) (stageOf : TaskId → StageId) (n : Nat) (c : Channel) :
    Decidable (Overread planned stageOf n c) :=
  inferInstanceAs (Decidable (_ ∧ _ ∧ _))

theorem finishChannel_eq (r : Runs) (planned : TaskId → Bool) (stageOf : TaskId → StageId) (n : Nat)
    (id : ChannelId) (c : Channel) : finishChannel r planned stageOf n id c =
      if Overread planned stageOf n c then
        .error (.nonReusableFanOut (c.label id) (readers planned stageOf n c).length)
      else .ok (finished r planned stageOf n id c) := by
  have hlabel : ∀ b : Bool, Channel.label id { c with barrier := b } = c.label id := fun _ => rfl
  have hreaders : ∀ b : Bool, readers planned stageOf n { c with barrier := b } =
      readers planned stageOf n c := fun _ => rfl
  unfold finishChannel finished Overread
  by_cases hp : planned c.producer = true <;> simp [hp, hlabel, hreaders]

/-- The readers are in several stages iff some two of them are in different stages. -/
theorem one_lt_length_readers {planned : TaskId → Bool} {stageOf : TaskId → StageId} {n : Nat}
    (hlt : ∀ t, planned t = true → stageOf t < n) {c : Channel} :
    1 < (readers planned stageOf n c).length ↔ ∃ k ∈ c.consumers, ∃ k' ∈ c.consumers,
      planned k.task = true ∧ planned k'.task = true ∧ stageOf k.task ≠ stageOf k'.task := by
  constructor
  · intro h
    have h0 := List.getElem_mem (Nat.lt_of_succ_lt h)
    have h1 := List.getElem_mem h
    obtain ⟨-, k, hk, hp, hs⟩ := mem_readers.mp h0
    obtain ⟨-, k', hk', hp', hs'⟩ := mem_readers.mp h1
    refine ⟨k, hk, k', hk', hp, hp', fun heq => ?_⟩
    rw [hs, hs'] at heq
    exact absurd ((nodup_ascending n _).getElem_inj_iff.mp heq) (by simp)
  · rintro ⟨k, hk, k', hk', hp, hp', hne⟩
    have hs : stageOf k.task ∈ readers planned stageOf n c :=
      mem_readers.mpr ⟨hlt _ hp, k, hk, hp, rfl⟩
    have hs' : stageOf k'.task ∈ readers planned stageOf n c :=
      mem_readers.mpr ⟨hlt _ hp', k', hk', hp', rfl⟩
    by_contra hle
    obtain ⟨i, hi, hki⟩ := List.getElem_of_mem hs
    obtain ⟨j, hj, hkj⟩ := List.getElem_of_mem hs'
    obtain rfl : i = j := by omega
    exact hne (hki.symm.trans hkj)

variable {finish : ChannelId → Channel → Except PlanningError Channel}

theorem finishChannels_eq_ok : ∀ {cs cs' : List Channel} {id : ChannelId},
    finishChannels finish id cs = .ok cs' → cs'.length = cs.length ∧
      ∀ i < cs.length, finish (id + i) (cs.getD i default) = .ok (cs'.getD i default)
  | [], cs', id, h => by
    obtain rfl : [] = cs' := Except.ok.inj h
    exact ⟨rfl, fun i hi => absurd hi (Nat.not_lt_zero i)⟩
  | c :: cs, cs', id, h => by
    unfold finishChannels at h
    cases hc : finish id c with
    | error e =>
      rw [hc] at h
      exact absurd h (by simp [bind, Except.bind])
    | ok c' =>
      cases hrest : finishChannels finish (id + 1) cs with
      | error e =>
        rw [hc, hrest] at h
        exact absurd h (by simp [bind, Except.bind])
      | ok rest =>
        rw [hc, hrest] at h
        obtain rfl : c' :: rest = cs' := Except.ok.inj h
        obtain ⟨hlen, hall⟩ := finishChannels_eq_ok hrest
        refine ⟨by rw [List.length_cons, List.length_cons, hlen], fun i hi => ?_⟩
        cases i with
        | zero => exact hc
        | succ i =>
          have hi' := hall i (Nat.lt_of_succ_lt_succ hi)
          rw [Nat.add_assoc, Nat.add_comm 1 i] at hi'
          exact hi'

theorem finishChannels_eq_error {e : PlanningError} : ∀ {cs : List Channel} {id : ChannelId},
    finishChannels finish id cs = .error e →
      ∃ i < cs.length, finish (id + i) (cs.getD i default) = .error e
  | [], id, h => by simp [finishChannels] at h
  | c :: cs, id, h => by
    unfold finishChannels at h
    cases hc : finish id c with
    | error e' =>
      rw [hc] at h
      obtain rfl : e' = e := Except.error.inj h
      exact ⟨0, Nat.succ_pos _, hc⟩
    | ok c' =>
      cases hrest : finishChannels finish (id + 1) cs with
      | error e' =>
        rw [hc, hrest] at h
        obtain rfl : e' = e := Except.error.inj h
        obtain ⟨i, hi, hf⟩ := finishChannels_eq_error hrest
        refine ⟨i + 1, Nat.succ_lt_succ hi, ?_⟩
        rw [Nat.add_assoc, Nat.add_comm 1 i] at hf
        exact hf
      | ok rest =>
        rw [hc, hrest] at h
        exact absurd h (by simp [bind, Except.bind])

end Finish

/-! ## The finished plan -/

section Materialize

variable {r : Runs}

/-- The finished plan, given its channels. -/
def finishedPlan (g : TaskGraph) (r : Runs) (channels : List Channel) : Plan :=
  let g' := placeTasks g r.tasks.contains r.place
  { graph := { g' with channels }
    stages := Loops.assign g' ((List.range r.count).map (buildStage g r r.place r.count))
    splits := r.splits }

theorem materialize_eq {g : TaskGraph} (h : r.executionOrder.length = r.count) :
    materialize g r = (finishChannels (finishChannel r r.tasks.contains r.place r.count) 0
      g.channels).map (finishedPlan g r) := by
  have hne : (r.executionOrder.length != r.count) = false := by simpa using h
  unfold materialize
  simp only [hne]
  change (finishChannels (finishChannel r r.tasks.contains r.place r.count) 0 g.channels >>= fun cs =>
    Except.ok (finishedPlan g r cs)) = _
  generalize finishChannels (finishChannel r r.tasks.contains r.place r.count) 0 g.channels = x
  cases x <;> rfl

theorem channel_finishedPlan {g : TaskGraph} {cs : List Channel}
    (h : finishChannels (finishChannel r r.tasks.contains r.place r.count) 0 g.channels = .ok cs) :
    cs.length = g.channels.length ∧ ∀ c < g.channels.length, cs.getD c default =
      finished r r.tasks.contains r.place r.count c (g.channel c) := by
  obtain ⟨hlen, hall⟩ := finishChannels_eq_ok h
  refine ⟨hlen, fun c hc => ?_⟩
  have hf := hall c hc
  rw [Nat.zero_add, finishChannel_eq] at hf
  split at hf
  · exact absurd hf (by simp)
  · exact (Except.ok.inj hf).symm

/-- What is finished successfully is the finished plan. -/
theorem materialize_eq_ok {g : TaskGraph} (h : r.executionOrder.length = r.count) {plan : Plan}
    (hp : materialize g r = .ok plan) : ∃ cs, plan = finishedPlan g r cs ∧
      finishChannels (finishChannel r r.tasks.contains r.place r.count) 0 g.channels = .ok cs := by
  rw [materialize_eq h] at hp
  cases hcs : finishChannels (finishChannel r r.tasks.contains r.place r.count) 0 g.channels with
  | error e =>
    rw [hcs] at hp
    exact absurd hp (by simp [Except.map])
  | ok cs =>
    rw [hcs] at hp
    exact ⟨cs, (Except.ok.inj hp).symm, rfl⟩

/-- Finishing fails only for a channel that is read too often. -/
theorem materialize_cases {g : TaskGraph} (h : r.executionOrder.length = r.count) :
    ((∃ plan, materialize g r = .ok plan) ∧ ∀ c < g.channels.length,
      ¬ Overread r.tasks.contains r.place r.count (g.channel c)) ∨
    ((∃ e, materialize g r = .error e ∧ e.kind = .nonReusableFanOut) ∧ ∃ c < g.channels.length,
      Overread r.tasks.contains r.place r.count (g.channel c)) := by
  rw [materialize_eq h]
  cases hcs : finishChannels (finishChannel r r.tasks.contains r.place r.count) 0 g.channels with
  | error e =>
    obtain ⟨c, hc, hf⟩ := finishChannels_eq_error hcs
    rw [finishChannel_eq] at hf
    split at hf
    · rename_i hover
      refine Or.inr ⟨⟨e, rfl, ?_⟩, c, hc, hover⟩
      rw [← Except.error.inj hf]
      rfl
    · exact absurd hf (by simp)
  | ok cs =>
    refine Or.inl ⟨⟨_, rfl⟩, fun c hc hover => ?_⟩
    have hf := (finishChannels_eq_ok hcs).2 c hc
    change finishChannel r r.tasks.contains r.place r.count (0 + c) (g.channel c) = _ at hf
    rw [finishChannel_eq, if_pos hover] at hf
    exact absurd hf (by simp)

/-- What is recorded in a finished plan, given the graph and the runs that it is made of. -/
structure Finished (g : TaskGraph) (tasks : List TaskId) (r : Runs) (plan : Plan) : Prop where
  resolved : r.Resolved g tasks
  task : ∀ t, plan.graph.task t =
    if t ∈ tasks then { g.task t with stage := some (r.place t) } else g.task t
  length_tasks : plan.graph.tasks.length = g.tasks.length
  length_channels : plan.graph.channels.length = g.channels.length
  channel : ∀ c < g.channels.length, plan.graph.channel c =
    finished r tasks.contains r.place r.count c (g.channel c)
  stages : ∃ g', (∀ t, g'.task t = plan.graph.task t) ∧ (∀ c, g'.channel c = g.channel c) ∧
    plan.stages = Loops.assign g' ((List.range r.count).map (buildStage g r r.place r.count))

theorem task_placeTasks {g : TaskGraph} {planned : TaskId → Bool} {stageOf : TaskId → StageId}
    {t : TaskId} (h : planned t = true → t < g.tasks.length) :
    (placeTasks g planned stageOf).task t =
      if planned t = true then { g.task t with stage := some (stageOf t) } else g.task t := by
  unfold placeTasks TaskGraph.task
  rw [List.getD_eq_getElem?_getD, List.getD_eq_getElem?_getD, List.getElem?_mapIdx]
  by_cases ht : t < g.tasks.length
  · rw [List.getElem?_eq_getElem ht]
    rfl
  · rw [List.getElem?_eq_none (Nat.le_of_not_lt ht), if_neg fun hp => ht (h hp)]
    rfl

/-- What `materialize` answers is finished. -/
theorem finished_of_materialize {g : TaskGraph} {tasks : List TaskId} (hs : g.IsScope tasks)
    (hr : r.Resolved g tasks) {plan : Plan} (hp : materialize g r = .ok plan) :
    Finished g tasks r plan := by
  obtain ⟨cs, rfl, hcs⟩ := materialize_eq_ok (hr.length_executionOrder hs) hp
  obtain ⟨hlen, hchannel⟩ := channel_finishedPlan hcs
  rw [hr.valid.tasks_eq] at hchannel
  refine ⟨hr, fun t => ?_, List.length_mapIdx, hlen, hchannel,
    placeTasks g r.tasks.contains r.place, fun _ => rfl, fun _ => rfl, rfl⟩
  change (placeTasks g r.tasks.contains r.place).task t = _
  rw [hr.valid.tasks_eq, task_placeTasks fun h => hs.lt t (List.contains_iff_mem.mp h)]
  simp only [List.contains_iff_mem]

variable {g : TaskGraph} {tasks : List TaskId} {plan : Plan}

namespace Finished

theorem length_stages (h : Finished g tasks r plan) : plan.stages.length = r.count := by
  obtain ⟨g', -, -, hst⟩ := h.stages
  rw [hst]
  simp [Loops.assign]

/-- A stage is what was built from its run, but for the loop it belongs to. -/
theorem stage (h : Finished g tasks r plan) {s : StageId} (hlt : s < r.count) :
    ∃ head, plan.stage s = { buildStage g r r.place r.count s with loopHeadStage := head } := by
  obtain ⟨g', -, -, hst⟩ := h.stages
  unfold Plan.stage
  rw [hst, List.getD_eq_getElem?_getD]
  unfold Loops.assign
  simp only [List.getElem?_mapIdx, List.getElem?_map, List.getElem?_range hlt, Option.map_some,
    Option.getD_some]
  exact ⟨_, rfl⟩

theorem mem_tasks (h : Finished g tasks r plan) {s : StageId} (hlt : s < r.count) {t : TaskId} :
    t ∈ (plan.stage s).tasks ↔ t ∈ tasks ∧ r.place t = s := by
  obtain ⟨head, hst⟩ := h.stage hlt
  rw [hst]
  change t ∈ r.tasks.filter (fun t => r.place t == s) ↔ _
  rw [h.resolved.valid.tasks_eq, List.mem_filter, beq_iff_eq]

theorem operator (h : Finished g tasks r plan) (t : TaskId) :
    (plan.graph.task t).operator = (g.task t).operator := by
  rw [h.task]
  split <;> rfl

theorem inputs (h : Finished g tasks r plan) (t : TaskId) :
    (plan.graph.task t).inputs = (g.task t).inputs := by
  rw [h.task]
  split <;> rfl

theorem outputs (h : Finished g tasks r plan) (t : TaskId) :
    (plan.graph.task t).outputs = (g.task t).outputs := by
  rw [h.task]
  split <;> rfl

/-- Planning changes no connection. -/
theorem sameWiring (h : Finished g tasks r plan) : g.SameWiring plan.graph := by
  have hc : ∀ c, (plan.graph.channel c).consumers = (g.channel c).consumers ∧
      (plan.graph.channel c).producer = (g.channel c).producer ∧
      (plan.graph.channel c).output = (g.channel c).output := fun c => by
    by_cases hlt : c < g.channels.length
    · rw [h.channel c hlt]
      exact ⟨rfl, rfl, rfl⟩
    · rw [TaskGraph.channel_of_le (Nat.le_of_not_lt hlt),
        TaskGraph.channel_of_le (h.length_channels ▸ Nat.le_of_not_lt hlt)]
      exact ⟨rfl, rfl, rfl⟩
  refine ⟨fun t i => ?_, fun t o => ?_, h.length_channels, fun c => (hc c).1, fun c => (hc c).2.1,
    fun c => (hc c).2.2⟩
  · unfold Task.inputChannel
    rw [h.inputs]
  · unfold Task.outputChannel
    rw [h.outputs]

/-- A channel that a planned task reads is a barrier in the end iff the runs need it as one. -/
theorem barrier_eq (h : Finished g tasks r plan) {e : Edge} (he : e ∈ Edge.among g tasks)
    (hc : e.channel < g.channels.length) :
    (plan.graph.channel e.channel).barrier = r.barriers.contains e.channel := by
  rw [h.channel _ hc]
  change ((g.channel e.channel).barrier || r.barriers.contains e.channel) = _
  cases hb : (g.channel e.channel).barrier with
  | false => rfl
  | true =>
    rw [Bool.true_or, eq_comm, List.contains_iff_mem]
    refine h.resolved.valid.given _ (List.mem_map_of_mem (List.mem_filter.mpr ⟨he, ?_⟩))
    simp [hb]

end Finished

end Materialize

end PreliminaryPlan

end Dataflow
