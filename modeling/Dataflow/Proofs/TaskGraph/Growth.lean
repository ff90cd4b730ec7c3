import Dataflow.Proofs.TaskGraph.Wiring
import Mathlib.Data.List.ReduceOption

/-!
# Graphs that grow

A graph grows by tasks and by connections into the tasks it has grown by. What it had before stays
(`Keeps`): its tasks read what they read, its channels keep their ends and flags, and whatever else
they feed now are new tasks.

* **`GrowsTo.keeps`**: growing keeps what was there.

The order of what was there is kept as well: new consumers are appended to those of a channel, and new
tasks and channels get the numbers behind the old ones. `Dataflow.Proofs.Plan.Growth` draws the
conclusion for planning.
-/

namespace Dataflow

namespace TaskGraph

/-- Tasks are added to a graph, and inputs of these tasks are fed. -/
inductive GrowsTo (g : TaskGraph) : TaskGraph → Prop
  | refl : GrowsTo g g
  | addTask {g' : TaskGraph} (o : Operator) : GrowsTo g g' → GrowsTo g (g'.addTask o)
  | addBroadcastInput {g' g'' : TaskGraph} {t : TaskId} {input : Nat} : GrowsTo g g' →
      g.tasks.length ≤ t → g'.addBroadcastInput t = .ok (g'', input) → GrowsTo g g''
  | connectWith {g' g'' : TaskGraph} {producer consumer : TaskId} {output input : Nat}
      {kind : ChannelDescriptor} {c : ChannelId} : GrowsTo g g' → g.tasks.length ≤ consumer →
      g'.connectWith producer output consumer input kind = .ok (g'', c) → GrowsTo g g''

/-- What a graph has, another one has as well. -/
structure Keeps (g g' : TaskGraph) : Prop where
  tasks_le : g.tasks.length ≤ g'.tasks.length
  channels_le : g.channels.length ≤ g'.channels.length
  operator : ∀ t < g.tasks.length, (g'.task t).operator = (g.task t).operator
  inputs : ∀ t < g.tasks.length, (g'.task t).inputs = (g.task t).inputs
  /-- An output that had no channel may have got a new one. -/
  outputs : ∀ t < g.tasks.length,
    (g'.task t).outputs.reduceOption.filter (· < g.channels.length) =
      (g.task t).outputs.reduceOption.filter (· < g.channels.length)
  /-- An old channel may have got consumers, and these are new tasks. -/
  channel : ∀ c < g.channels.length, ∃ more : List Consumer,
    (∀ k ∈ more, g.tasks.length ≤ k.task) ∧
      g'.channel c = { g.channel c with consumers := (g.channel c).consumers ++ more }
  fresh : ∀ c, g.channels.length ≤ c → ∀ k ∈ (g'.channel c).consumers, g.tasks.length ≤ k.task

variable {g g' g'' : TaskGraph}

theorem GrowsTo.built (h : g.GrowsTo g') (hg : g.Built) : g'.Built := by
  induction h with
  | refl => exact hg
  | addTask o _ ih => exact ih.addTask o
  | addBroadcastInput _ _ he ih => exact ih.addBroadcastInput he
  | connectWith _ _ he ih => exact ih.connectWith he

theorem GrowsTo.wire (h : g.GrowsTo g') {producer consumer : TaskId} {output input : Nat}
    {kind : ChannelDescriptor} (hk : g.tasks.length ≤ consumer)
    (hc : g'.checkConnection producer output consumer input = .ok ()) :
    g.GrowsTo (g'.wire producer output consumer input kind) :=
  h.connectWith hk (connectWith_of_ok hc kind)

theorem Keeps.refl (g : TaskGraph) : g.Keeps g := by
  refine ⟨Nat.le_refl _, Nat.le_refl _, fun _ _ => rfl, fun _ _ => rfl, fun _ _ => rfl,
    fun c _ => ⟨[], nofun, by rw [List.append_nil]⟩, fun c hc k hk => ?_⟩
  rw [channel_of_le hc] at hk
  exact absurd hk List.not_mem_nil

section

variable (h : g.Keeps g')
include h

theorem Keeps.isLoopHead {t : TaskId} (ht : t < g.tasks.length) :
    (g'.task t).isLoopHead = (g.task t).isLoopHead := by
  unfold Task.isLoopHead
  rw [h.operator t ht]

theorem Keeps.taskLabel {t : TaskId} (ht : t < g.tasks.length) :
    g'.taskLabel t = g.taskLabel t := by
  unfold TaskGraph.taskLabel Task.label
  rw [h.operator t ht]

theorem Keeps.producer {c : ChannelId} (hc : c < g.channels.length) :
    (g'.channel c).producer = (g.channel c).producer := by
  obtain ⟨more, -, heq⟩ := h.channel c hc
  rw [heq]

theorem Keeps.output {c : ChannelId} (hc : c < g.channels.length) :
    (g'.channel c).output = (g.channel c).output := by
  obtain ⟨more, -, heq⟩ := h.channel c hc
  rw [heq]

theorem Keeps.descriptor {c : ChannelId} (hc : c < g.channels.length) :
    (g'.channel c).descriptor = (g.channel c).descriptor := by
  obtain ⟨more, -, heq⟩ := h.channel c hc
  rw [heq]

theorem Keeps.barrier {c : ChannelId} (hc : c < g.channels.length) :
    (g'.channel c).barrier = (g.channel c).barrier := by
  obtain ⟨more, -, heq⟩ := h.channel c hc
  rw [heq]

theorem Keeps.betweenStages {c : ChannelId} (hc : c < g.channels.length) :
    (g'.channel c).betweenStages = (g.channel c).betweenStages := by
  obtain ⟨more, -, heq⟩ := h.channel c hc
  rw [heq]

/-- Among the old tasks, those that read an old channel are the same. -/
theorem Keeps.filter_consumers {p : TaskId → Bool} (hp : ∀ t, p t = true → t < g.tasks.length)
    {c : ChannelId} (hc : c < g.channels.length) :
    ((g'.channel c).consumers.filter fun k => p k.task) =
      (g.channel c).consumers.filter fun k => p k.task := by
  obtain ⟨more, hmore, heq⟩ := h.channel c hc
  have hnone : (more.filter fun k => p k.task) = [] :=
    List.filter_eq_nil_iff.mpr fun k hk hpk => Nat.not_le_of_lt (hp _ hpk) (hmore k hk)
  rw [heq, List.filter_append, hnone, List.append_nil]

/-- No old task reads a new channel. -/
theorem Keeps.filter_consumers_fresh {p : TaskId → Bool}
    (hp : ∀ t, p t = true → t < g.tasks.length) {c : ChannelId} (hc : g.channels.length ≤ c) :
    ((g'.channel c).consumers.filter fun k => p k.task) = [] :=
  List.filter_eq_nil_iff.mpr fun k hk hpk => Nat.not_le_of_lt (hp _ hpk) (h.fresh c hc k hk)

end

/-! ## One step -/

theorem Keeps.addTask (h : g.Keeps g') (o : Operator) : g.Keeps (g'.addTask o) := by
  have hold : ∀ t < g.tasks.length, (g'.addTask o).task t = g'.task t := fun t ht => by
    rw [task_addTask, if_neg (Nat.ne_of_lt (Nat.lt_of_lt_of_le ht h.tasks_le))]
  refine ⟨?_, h.channels_le, fun t ht => ?_, fun t ht => ?_, fun t ht => ?_, h.channel, h.fresh⟩
  · exact Nat.le_trans h.tasks_le (by simp [TaskGraph.addTask])
  · rw [hold t ht, h.operator t ht]
  · rw [hold t ht, h.inputs t ht]
  · rw [hold t ht, h.outputs t ht]

theorem Keeps.addBroadcastInput (h : g.Keeps g') {t : TaskId} {input : Nat}
    (ht : g.tasks.length ≤ t) (he : g'.addBroadcastInput t = .ok (g'', input)) : g.Keeps g'' := by
  obtain ⟨-, -, rfl⟩ := addBroadcastInput_eq_ok he
  have hold : ∀ u < g.tasks.length,
      task { g' with tasks := g'.tasks.set t (g'.task t).addInput } u = g'.task u := fun u hu => by
    have hne : ¬ t = u := fun he => Nat.not_le_of_lt hu (he ▸ ht)
    unfold task
    rw [getD_set, if_neg fun he => hne he.1]
  refine ⟨?_, h.channels_le, fun u hu => ?_, fun u hu => ?_, fun u hu => ?_, h.channel, h.fresh⟩
  · exact Nat.le_trans h.tasks_le (by simp)
  · rw [hold u hu, h.operator u hu]
  · rw [hold u hu, h.inputs u hu]
  · rw [hold u hu, h.outputs u hu]

/-- Filling an empty place with what is left out again. -/
theorem filter_reduceOption_set {p : Nat → Bool} {c : Nat} (hc : p c = false) :
    ∀ (xs : List (Option Nat)) (i : Nat), (xs[i]?).join = none →
      (xs.set i (some c)).reduceOption.filter p = xs.reduceOption.filter p
  | [], _, _ => rfl
  | none :: xs, 0, _ => by simp [List.reduceOption_cons_of_some, hc]
  | some x :: xs, 0, h => absurd h (by simp)
  | none :: xs, i + 1, h => by
    simpa using filter_reduceOption_set hc xs i h
  | some x :: xs, i + 1, h => by
    have ih := filter_reduceOption_set hc xs i h
    simp only [List.set_cons_succ, List.reduceOption_cons_of_some, List.filter_cons, ih]

theorem Keeps.addChannel (h : g.Keeps g') {producer : TaskId} {output : Nat}
    (kind : ChannelDescriptor) (hfree : (g'.task producer).outputChannel output = none) :
    g.Keeps (g'.addChannel producer output kind) := by
  have hle := h.channels_le
  refine {
    tasks_le := ?tasks_le
    channels_le := ?channels_le
    operator := fun t ht => ?operator
    inputs := fun t ht => ?inputs
    outputs := fun t ht => ?outputs
    channel := fun c hc => ?channel
    fresh := fun c hc => ?fresh }
  case tasks_le =>
    rw [length_tasks_addChannel]
    exact h.tasks_le
  case channels_le =>
    rw [length_addChannel]
    omega
  case operator =>
    rw [task_addChannel, ← h.operator t ht]
    split <;> rfl
  case inputs =>
    rw [task_addChannel, ← h.inputs t ht]
    split <;> rfl
  case outputs =>
    rw [task_addChannel, ← h.outputs t ht]
    split
    · rename_i ht'
      obtain ⟨rfl, -⟩ := ht'
      exact filter_reduceOption_set (by simpa using hle) _ _ hfree
    · rfl
  case channel =>
    rw [channel_addChannel, if_neg (Nat.ne_of_lt (Nat.lt_of_lt_of_le hc hle))]
    exact h.channel c hc
  case fresh =>
    rw [channel_addChannel]
    split
    · exact fun k hk => absurd hk List.not_mem_nil
    · exact h.fresh c hc

theorem Keeps.attach (h : g.Keeps g') (c : ChannelId) {consumer : TaskId} (input : Nat)
    (hk : g.tasks.length ≤ consumer) : g.Keeps (g'.attach c consumer input) := by
  have hold : ∀ t < g.tasks.length,
      (g'.attach c consumer input).task t = g'.task t := fun t ht => by
    have hne : ¬ consumer = t := fun he => Nat.not_le_of_lt ht (he ▸ hk)
    rw [task_attach, if_neg fun he => hne he.1]
  have hnew : ∀ k ∈ [Consumer.mk consumer input], g.tasks.length ≤ k.task := fun k hkm => by
    rw [List.mem_singleton.mp hkm]
    exact hk
  refine {
    tasks_le := ?tasks_le
    channels_le := ?channels_le
    operator := fun t ht => ?operator
    inputs := fun t ht => ?inputs
    outputs := fun t ht => ?outputs
    channel := fun d hd => ?channel
    fresh := fun d hd => ?fresh }
  case tasks_le =>
    exact Nat.le_trans h.tasks_le (by simp [TaskGraph.attach])
  case channels_le =>
    rw [length_attach]
    exact h.channels_le
  case operator =>
    rw [hold t ht, h.operator t ht]
  case inputs =>
    rw [hold t ht, h.inputs t ht]
  case outputs =>
    rw [hold t ht, h.outputs t ht]
  case channel =>
    obtain ⟨more, hmore, heq⟩ := h.channel d hd
    rw [channel_attach]
    split
    · refine ⟨more ++ [⟨consumer, input⟩], fun k hkm => ?_, ?_⟩
      · exact (List.mem_append.mp hkm).elim (hmore k) (hnew k)
      · rw [heq, List.append_assoc]
    · exact ⟨more, hmore, heq⟩
  case fresh =>
    rw [channel_attach]
    split
    · exact fun k hkm => (List.mem_append.mp hkm).elim (h.fresh d hd k) (hnew k)
    · exact h.fresh d hd

theorem Keeps.wire (h : g.Keeps g') {producer consumer : TaskId} {output input : Nat}
    {kind : ChannelDescriptor} (hk : g.tasks.length ≤ consumer) :
    g.Keeps (g'.wire producer output consumer input kind) := by
  unfold TaskGraph.wire
  cases ho : (g'.task producer).outputChannel output with
  | some c =>
    rw [openChannel_of_some ho]
    exact h.attach _ _ hk
  | none =>
    rw [openChannel_of_none ho]
    exact (h.addChannel kind ho).attach _ _ hk

/-! ## All steps -/

/-- **A graph that grows keeps what it had.** -/
theorem GrowsTo.keeps (h : g.GrowsTo g') : g.Keeps g' := by
  induction h with
  | refl => exact .refl g
  | addTask o _ ih => exact ih.addTask o
  | addBroadcastInput _ ht he ih => exact ih.addBroadcastInput ht he
  | connectWith _ hk he ih =>
    obtain ⟨-, -, rfl⟩ := connectWith_eq_ok he
    exact ih.wire hk

end TaskGraph

end Dataflow
