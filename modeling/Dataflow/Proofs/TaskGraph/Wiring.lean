import Dataflow.TaskGraph.Basic
import Mathlib.Data.List.Nodup

/-!
# What wiring keeps

`TaskGraph.Built` are the graphs that come about by the wiring operations. In each of them the
three records of a connection agree (`TaskGraph.Wired`): an input is fed by a channel iff it is
among the consumers of that channel, and an output feeds a channel iff the channel names it as
its source.

* **`TaskGraph.Built.wired_unplaced_consumed`**: the invariant of all wiring operations.

Each operation is cut into the parts that change one record (`addChannel`, `attach`), since in between
a connection is half made: a channel that was just opened has a producer and no consumer. `Wired`
allows for that, and that there is no such channel in the end is proved beside it (`Consumed`). `wire`
puts the parts together for connections that are known to be accepted, which is how graphs are written
down in examples.
-/

namespace Dataflow

/-- The element at a position after one position was changed. -/
theorem getD_modify {α : Type} (xs : List α) (i j : Nat) (f : α → α) (d : α) :
    (xs.modify i f).getD j d = if i = j ∧ j < xs.length then f (xs.getD j d) else xs.getD j d := by
  rw [List.getD_eq_getElem?_getD, List.getD_eq_getElem?_getD, List.getElem?_modify]
  by_cases hj : j < xs.length
  · by_cases hi : i = j <;> simp [hi, hj]
  · simp [hj]

theorem getD_set {α : Type} (xs : List α) (i j : Nat) (x d : α) :
    (xs.set i x).getD j d = if i = j ∧ j < xs.length then x else xs.getD j d := by
  rw [List.getD_eq_getElem?_getD, List.getD_eq_getElem?_getD, List.getElem?_set]
  by_cases hj : j < xs.length
  · by_cases hi : i = j <;> simp [hi, hj]
  · by_cases hi : i = j <;> simp [hi, hj]

theorem getD_append_singleton {α : Type} (xs : List α) (x : α) (j : Nat) (d : α) :
    (xs ++ [x]).getD j d = if j = xs.length then x else xs.getD j d := by
  rw [List.getD_eq_getElem?_getD, List.getD_eq_getElem?_getD, List.getElem?_append]
  by_cases hj : j < xs.length
  · rw [if_pos hj, if_neg (by omega)]
  · by_cases he : j = xs.length
    · simp [he]
    · rw [if_neg hj, if_neg he, List.getElem?_eq_none (by rw [List.length_singleton]; omega),
        List.getElem?_eq_none (by omega)]

theorem lt_succ_iff_of_ne {m n : Nat} (h : m ≠ n) : m < n + 1 ↔ m < n := by omega

/-- The task with one more input, which nothing feeds. -/
def Task.addInput (t : Task) : Task := { t with inputs := t.inputs ++ [none] }

namespace TaskGraph

/-- A graph that the wiring operations build. -/
inductive Built : TaskGraph → Prop
  | empty : Built .empty
  | addTask {g : TaskGraph} (o : Operator) : Built g → Built (g.addTask o)
  | addBroadcastInput {g g' : TaskGraph} {t : TaskId} {input : Nat} :
      Built g → g.addBroadcastInput t = .ok (g', input) → Built g'
  | connectWith {g g' : TaskGraph} {producer consumer : TaskId} {output input : Nat}
      {kind : ChannelDescriptor} {c : ChannelId} : Built g →
      g.connectWith producer output consumer input kind = .ok (g', c) → Built g'
  | markBarrier {g : TaskGraph} (c : ChannelId) : Built g → Built (g.markBarrier c)
  | setInstrumented {g : TaskGraph} (c : ChannelId) (on : Bool) :
      Built g → Built (g.setInstrumented c on)

/-- The three records of each connection agree, and a channel records a consumer once. -/
structure Wired (g : TaskGraph) : Prop where
  input_iff : ∀ t i c, (g.task t).inputChannel i = some c ↔
    c < g.channels.length ∧ ⟨t, i⟩ ∈ (g.channel c).consumers
  output_iff : ∀ t o c, (g.task t).outputChannel o = some c ↔
    c < g.channels.length ∧ (g.channel c).producer = t ∧ (g.channel c).output = o
  nodup : ∀ c, (g.channel c).consumers.Nodup

theorem task_of_le {g : TaskGraph} {t : TaskId} (h : g.tasks.length ≤ t) : g.task t = default := by
  unfold task
  rw [List.getD_eq_getElem?_getD, List.getElem?_eq_none h]
  rfl

theorem channel_of_le {g : TaskGraph} {c : ChannelId} (h : g.channels.length ≤ c) :
    g.channel c = default := by
  unfold channel
  rw [List.getD_eq_getElem?_getD, List.getElem?_eq_none h]
  rfl

@[simp] theorem inputChannel_default (i : Nat) : (default : Task).inputChannel i = none := rfl

@[simp] theorem outputChannel_default (o : Nat) : (default : Task).outputChannel o = none := rfl

theorem outputChannel_lt {g : TaskGraph} {t : TaskId} {o : Nat} {c : ChannelId}
    (h : (g.task t).outputChannel o = some c) : t < g.tasks.length := by
  by_contra hlt
  rw [task_of_le (Nat.le_of_not_lt hlt), outputChannel_default] at h
  exact absurd h (by simp)

theorem inputChannel_lt {g : TaskGraph} {t : TaskId} {i : Nat} {c : ChannelId}
    (h : (g.task t).inputChannel i = some c) : t < g.tasks.length := by
  by_contra hlt
  rw [task_of_le (Nat.le_of_not_lt hlt), inputChannel_default] at h
  exact absurd h (by simp)

/-- The producer of a channel is a task of the graph. -/
theorem Wired.producer_lt {g : TaskGraph} (h : g.Wired) {c : ChannelId}
    (hc : c < g.channels.length) : (g.channel c).producer < g.tasks.length :=
  outputChannel_lt ((h.output_iff _ _ c).mpr ⟨hc, rfl, rfl⟩)

/-- Two graphs with the same connections. -/
structure SameWiring (g g' : TaskGraph) : Prop where
  input : ∀ t i, (g'.task t).inputChannel i = (g.task t).inputChannel i
  output : ∀ t o, (g'.task t).outputChannel o = (g.task t).outputChannel o
  length : g'.channels.length = g.channels.length
  consumers : ∀ c, (g'.channel c).consumers = (g.channel c).consumers
  producer : ∀ c, (g'.channel c).producer = (g.channel c).producer
  source : ∀ c, (g'.channel c).output = (g.channel c).output

theorem Wired.congr {g g' : TaskGraph} (h : g.Wired) (hs : SameWiring g g') : g'.Wired := by
  refine ⟨fun t i c => ?_, fun t o c => ?_, fun c => ?_⟩
  · rw [hs.input, hs.length, hs.consumers]
    exact h.input_iff t i c
  · rw [hs.output, hs.length, hs.producer, hs.source]
    exact h.output_iff t o c
  · rw [hs.consumers]
    exact h.nodup c

/-! ## The operations one by one -/

theorem task_addTask (g : TaskGraph) (o : Operator) (t : TaskId) :
    (g.addTask o).task t = if t = g.tasks.length then Task.ofOperator o else g.task t :=
  getD_append_singleton g.tasks _ t default

@[simp] theorem inputChannel_ofOperator (o : Operator) (i : Nat) :
    (Task.ofOperator o).inputChannel i = none := by
  unfold Task.ofOperator Task.inputChannel
  simp only [List.getElem?_replicate]
  split <;> rfl

@[simp] theorem outputChannel_ofOperator (o : Operator) (i : Nat) :
    (Task.ofOperator o).outputChannel i = none := by
  unfold Task.ofOperator Task.outputChannel
  simp only [List.getElem?_replicate]
  split <;> rfl

/-- A new task has the channels that its number had before it was given out: none. -/
theorem sameWiring_addTask (g : TaskGraph) (o : Operator) : SameWiring g (g.addTask o) := by
  have hfree : g.task g.tasks.length = default := task_of_le (Nat.le_refl _)
  refine ⟨fun t i => ?_, fun t i => ?_, rfl, fun _ => rfl, fun _ => rfl, fun _ => rfl⟩ <;>
  · rw [task_addTask]
    split
    · rename_i ht
      rw [ht, hfree]
      simp
    · rfl

theorem requireTask_eq_ok {g : TaskGraph} {t : TaskId} :
    g.requireTask t = .ok () ↔ t < g.tasks.length := by
  unfold requireTask
  split <;> simp_all

theorem requireTask_eq_error {g : TaskGraph} {t : TaskId} (h : ¬ t < g.tasks.length) :
    g.requireTask t = .error (.unknownTask t) := if_neg h

theorem addBroadcastInput_eq_ok {g g' : TaskGraph} {t : TaskId} {input : Nat}
    (h : g.addBroadcastInput t = .ok (g', input)) :
    (g.task t).operator.supportsBroadcast = true ∧ input = (g.task t).inputs.length ∧
      g' = { g with tasks := g.tasks.set t (g.task t).addInput } := by
  unfold addBroadcastInput at h
  by_cases ht : t < g.tasks.length
  · rw [requireTask_eq_ok.mpr ht] at h
    change (if (g.task t).operator.supportsBroadcast = true then _ else _) = _ at h
    split at h
    · rename_i hs
      obtain ⟨rfl, rfl⟩ := Prod.mk.inj (Except.ok.inj h)
      exact ⟨hs, rfl, rfl⟩
    · exact absurd h (by simp)
  · rw [requireTask_eq_error ht] at h
    exact absurd h (by simp [bind, Except.bind])

theorem sameWiring_addBroadcastInput {g g' : TaskGraph} {t : TaskId} {input : Nat}
    (h : g.addBroadcastInput t = .ok (g', input)) : SameWiring g g' := by
  obtain ⟨-, -, rfl⟩ := addBroadcastInput_eq_ok h
  have htask : ∀ u, task { g with tasks := g.tasks.set t (g.task t).addInput } u =
      if t = u ∧ u < g.tasks.length then (g.task t).addInput else g.task u :=
    fun u => getD_set g.tasks t u _ default
  refine ⟨fun u i => ?_, fun u i => ?_, rfl, fun _ => rfl, fun _ => rfl, fun _ => rfl⟩
  · rw [htask]
    split
    · rename_i hu
      rw [hu.1]
      simp only [Task.addInput, Task.inputChannel, List.getElem?_append]
      split
      · rfl
      · rename_i hi
        rw [List.getElem?_eq_none (Nat.le_of_not_lt hi)]
        cases i - (g.task u).inputs.length <;> rfl
    · rfl
  · rw [htask]
    split
    · rename_i hu
      rw [hu.1]
      rfl
    · rfl

theorem channel_modify {g : TaskGraph} (c d : ChannelId) (f : Channel → Channel) :
    channel { g with channels := g.channels.modify c f } d =
      if c = d ∧ d < g.channels.length then f (g.channel d) else g.channel d :=
  getD_modify g.channels c d f default

/-- Changing the flags of a channel changes no connection. -/
theorem sameWiring_modify {g : TaskGraph} (c : ChannelId) (f : Channel → Channel)
    (hc : ∀ x, (f x).consumers = x.consumers) (hp : ∀ x, (f x).producer = x.producer)
    (ho : ∀ x, (f x).output = x.output) :
    SameWiring g { g with channels := g.channels.modify c f } := by
  refine ⟨fun _ _ => rfl, fun _ _ => rfl, List.length_modify _ _ _, fun d => ?_, fun d => ?_,
    fun d => ?_⟩ <;>
  · rw [channel_modify]
    split <;> simp [hc, hp, ho]

/-! ## Connecting -/

/-- What a connection needs of the graph, the types of its ends apart. -/
structure Connectable (g : TaskGraph) (producer : TaskId) (output : Nat) (consumer : TaskId)
    (input : Nat) : Prop where
  producer_lt : producer < g.tasks.length
  output_lt : output < (g.task producer).outputs.length
  consumer_lt : consumer < g.tasks.length
  input_lt : input < (g.task consumer).inputs.length
  unfed : (g.task consumer).inputChannel input = none

theorem connectable_of_ok {g : TaskGraph} {producer consumer : TaskId} {output input : Nat}
    (h : g.checkConnection producer output consumer input = .ok ()) :
    g.Connectable producer output consumer input := by
  unfold checkConnection at h
  by_cases hp : producer < g.tasks.length
  · rw [requireTask_eq_ok.mpr hp] at h
    by_cases ho : output < (g.task producer).outputs.length
    · by_cases hc : consumer < g.tasks.length
      · rw [requireTask_eq_ok.mpr hc] at h
        by_cases hi : input < (g.task consumer).inputs.length
        · cases hb : (g.task consumer).inputChannel input with
          | none => exact ⟨hp, ho, hc, hi, hb⟩
          | some bound =>
            simp [bind, Except.bind, ho, hi, hb, throw, throwThe, MonadExceptOf.throw] at h
        · simp [bind, Except.bind, ho, hi, throw, throwThe, MonadExceptOf.throw] at h
      · rw [requireTask_eq_error hc] at h
        simp [bind, Except.bind, ho] at h
    · simp [bind, Except.bind, ho, throw, throwThe, MonadExceptOf.throw] at h
  · rw [requireTask_eq_error hp] at h
    exact absurd h (by simp [bind, Except.bind])

/-- The graph with a channel of its own for an output that had none. -/
def addChannel (g : TaskGraph) (producer : TaskId) (output : Nat) (kind : ChannelDescriptor) :
    TaskGraph :=
  { g with
    channels := g.channels ++ [{ descriptor := kind, producer, output }]
    tasks := g.tasks.modify producer (·.bindOutput output g.channels.length) }

theorem openChannel_of_some {g : TaskGraph} {producer : TaskId} {output : Nat} {c : ChannelId}
    (h : (g.task producer).outputChannel output = some c) (kind : ChannelDescriptor) :
    g.openChannel producer output kind = (g, c) := by
  unfold openChannel
  rw [h]

theorem openChannel_of_none {g : TaskGraph} {producer : TaskId} {output : Nat}
    (h : (g.task producer).outputChannel output = none) (kind : ChannelDescriptor) :
    g.openChannel producer output kind = (g.addChannel producer output kind, g.channels.length) := by
  unfold openChannel
  rw [h]
  rfl

theorem task_addChannel (g : TaskGraph) (producer : TaskId) (output : Nat)
    (kind : ChannelDescriptor) (t : TaskId) :
    (g.addChannel producer output kind).task t = if producer = t ∧ t < g.tasks.length then
      (g.task t).bindOutput output g.channels.length else g.task t :=
  getD_modify g.tasks producer t _ default

theorem channel_addChannel (g : TaskGraph) (producer : TaskId) (output : Nat)
    (kind : ChannelDescriptor) (c : ChannelId) :
    (g.addChannel producer output kind).channel c = if c = g.channels.length then
      { descriptor := kind, producer, output } else g.channel c :=
  getD_append_singleton g.channels _ c default

theorem length_addChannel (g : TaskGraph) (producer : TaskId) (output : Nat)
    (kind : ChannelDescriptor) :
    (g.addChannel producer output kind).channels.length = g.channels.length + 1 :=
  List.length_append

theorem length_tasks_addChannel (g : TaskGraph) (producer : TaskId) (output : Nat)
    (kind : ChannelDescriptor) :
    (g.addChannel producer output kind).tasks.length = g.tasks.length :=
  List.length_modify _ _ _

theorem inputChannel_addChannel (g : TaskGraph) (producer : TaskId) (output : Nat)
    (kind : ChannelDescriptor) (t : TaskId) (i : Nat) :
    ((g.addChannel producer output kind).task t).inputChannel i = (g.task t).inputChannel i := by
  rw [task_addChannel]
  split <;> simp

theorem Wired.addChannel {g : TaskGraph} (h : g.Wired) {producer : TaskId} {output : Nat}
    (kind : ChannelDescriptor) (hp : producer < g.tasks.length)
    (ho : output < (g.task producer).outputs.length)
    (hfree : (g.task producer).outputChannel output = none) :
    (g.addChannel producer output kind).Wired := by
  refine ⟨fun t i c => ?_, fun t o c => ?_, fun c => ?_⟩
  · rw [inputChannel_addChannel, h.input_iff, channel_addChannel, length_addChannel]
    split
    · rename_i he
      simp [he]
    · rename_i he
      rw [lt_succ_iff_of_ne he]
  · have hold := h.output_iff t o c
    rw [channel_addChannel, length_addChannel, task_addChannel]
    by_cases hc : c = g.channels.length
    · -- the new channel is that of this output alone
      have hno : (g.task t).outputChannel o ≠ some c := fun he =>
        absurd (hold.mp he).1 (by rw [hc]; exact Nat.lt_irrefl _)
      rw [if_pos hc]
      split
      · rename_i ht
        obtain ⟨rfl, -⟩ := ht
        rw [Task.outputChannel_bindOutput]
        split
        · rename_i hto
          simp [hc, hto.1]
        · rename_i hto
          have hne : ¬ output = o := fun he => hto ⟨he.symm, ho⟩
          simp [hno, hne]
      · rename_i ht
        have hne : ¬ producer = t := fun he => ht ⟨he, he ▸ hp⟩
        simp [hno, hne]
    · have hne : some g.channels.length ≠ some c := fun he => hc (Option.some.inj he).symm
      rw [if_neg hc, lt_succ_iff_of_ne hc, ← hold]
      split
      · rename_i ht
        obtain ⟨rfl, -⟩ := ht
        rw [Task.outputChannel_bindOutput]
        split
        · rename_i hto
          rw [hto.1, hfree]
          simp [hne]
        · rfl
      · rfl
  · rw [channel_addChannel]
    split
    · exact List.nodup_nil
    · exact h.nodup c

theorem task_attach (g : TaskGraph) (c : ChannelId) (consumer : TaskId) (input : Nat) (t : TaskId) :
    (g.attach c consumer input).task t = if consumer = t ∧ t < g.tasks.length then
      (g.task t).bindInput input c else g.task t :=
  getD_modify g.tasks consumer t _ default

theorem channel_attach (g : TaskGraph) (c : ChannelId) (consumer : TaskId) (input : Nat)
    (d : ChannelId) :
    (g.attach c consumer input).channel d = if c = d ∧ d < g.channels.length then
      { g.channel d with consumers := (g.channel d).consumers ++ [⟨consumer, input⟩] }
      else g.channel d :=
  getD_modify g.channels c d _ default

theorem length_attach (g : TaskGraph) (c : ChannelId) (consumer : TaskId) (input : Nat) :
    (g.attach c consumer input).channels.length = g.channels.length :=
  List.length_modify _ _ _

theorem Wired.attach {g : TaskGraph} (h : g.Wired) {c : ChannelId} {consumer : TaskId}
    {input : Nat} (hc : c < g.channels.length) (hk : consumer < g.tasks.length)
    (hi : input < (g.task consumer).inputs.length)
    (hfree : (g.task consumer).inputChannel input = none) :
    (g.attach c consumer input).Wired := by
  have hnew : ∀ d < g.channels.length, (⟨consumer, input⟩ : Consumer) ∉ (g.channel d).consumers :=
    fun d hd hm => by
      have := (h.input_iff consumer input d).mpr ⟨hd, hm⟩
      rw [hfree] at this
      exact absurd this (by simp)
  refine ⟨fun t i d => ?_, fun t o d => ?_, fun d => ?_⟩
  · have hold := h.input_iff t i d
    rw [channel_attach, length_attach, task_attach]
    by_cases hti : t = consumer ∧ i = input
    · obtain ⟨rfl, rfl⟩ := hti
      rw [if_pos ⟨rfl, hk⟩, Task.inputChannel_bindInput, if_pos ⟨rfl, hi⟩, Option.some.injEq]
      constructor
      · rintro rfl
        simp [hc]
      · rintro ⟨hd, hm⟩
        by_contra hne
        rw [if_neg fun he => hne he.1] at hm
        exact hnew d hd hm
    · have htask : ((if consumer = t ∧ t < g.tasks.length then (g.task t).bindInput input c
          else g.task t) : Task).inputChannel i = (g.task t).inputChannel i := by
        split
        · rename_i ht
          rw [Task.inputChannel_bindInput, if_neg fun he => hti ⟨ht.1.symm, he.1⟩]
        · rfl
      rw [htask, hold]
      split
      · simp [hti]
      · rfl
  · have hold := h.output_iff t o d
    rw [channel_attach, length_attach, task_attach]
    have htask : ((if consumer = t ∧ t < g.tasks.length then (g.task t).bindInput input c
        else g.task t) : Task).outputChannel o = (g.task t).outputChannel o := by
      split <;> simp
    rw [htask, hold]
    split <;> rfl
  · rw [channel_attach]
    split
    · rename_i hd
      rw [List.nodup_append]
      refine ⟨h.nodup d, by simp, fun x hx y hy => ?_⟩
      rw [List.mem_singleton] at hy
      rintro rfl
      exact hnew d hd.2 (hy ▸ hx)
    · exact h.nodup d

/-- The graph with one connection more. -/
def wire (g : TaskGraph) (producer : TaskId) (output : Nat) (consumer : TaskId) (input : Nat)
    (kind : ChannelDescriptor) : TaskGraph :=
  (g.openChannel producer output kind).1.attach (g.openChannel producer output kind).2 consumer input

theorem connectWith_eq_ok {g g' : TaskGraph} {producer consumer : TaskId} {output input : Nat}
    {kind : ChannelDescriptor} {c : ChannelId}
    (h : g.connectWith producer output consumer input kind = .ok (g', c)) :
    g.Connectable producer output consumer input ∧
      c = (g.openChannel producer output kind).2 ∧
      g' = g.wire producer output consumer input kind := by
  unfold connectWith at h
  cases hc : g.checkConnection producer output consumer input with
  | error e =>
    rw [hc] at h
    exact absurd h (by simp [bind, Except.bind])
  | ok u =>
    rw [hc] at h
    have hpair : (g.wire producer output consumer input kind,
        (g.openChannel producer output kind).2) = (g', c) := Except.ok.inj h
    obtain ⟨rfl, rfl⟩ := Prod.mk.inj hpair
    exact ⟨connectable_of_ok hc, rfl, rfl⟩

theorem connectWith_of_ok {g : TaskGraph} {producer consumer : TaskId} {output input : Nat}
    (hc : g.checkConnection producer output consumer input = .ok ()) (kind : ChannelDescriptor) :
    g.connectWith producer output consumer input kind =
      .ok (g.wire producer output consumer input kind, (g.openChannel producer output kind).2) := by
  unfold TaskGraph.connectWith
  rw [hc]
  rfl

theorem Built.wire {g : TaskGraph} (h : g.Built) {producer consumer : TaskId} {output input : Nat}
    {kind : ChannelDescriptor} (hc : g.checkConnection producer output consumer input = .ok ()) :
    (g.wire producer output consumer input kind).Built := h.connectWith (connectWith_of_ok hc kind)

/-! ## Graphs that are built -/

/-- No task is placed in a stage. -/
def Unplaced (g : TaskGraph) : Prop := ∀ t, (g.task t).stage = none

/-- Every channel is read. -/
def Consumed (g : TaskGraph) : Prop := ∀ c < g.channels.length, (g.channel c).consumers ≠ []

theorem wired_empty : Wired .empty :=
  ⟨fun _ _ c => ⟨fun h => absurd h (by simp [task, empty]), fun h => absurd h.1 (Nat.not_lt_zero c)⟩,
    fun _ _ c => ⟨fun h => absurd h (by simp [task, empty]), fun h => absurd h.1 (Nat.not_lt_zero c)⟩,
    fun _ => List.nodup_nil⟩

theorem Unplaced.openChannel {g : TaskGraph} (h : g.Unplaced) (producer : TaskId) (output : Nat)
    (kind : ChannelDescriptor) : (g.openChannel producer output kind).1.Unplaced := by
  intro t
  cases hc : (g.task producer).outputChannel output with
  | some c =>
    rw [openChannel_of_some hc]
    exact h t
  | none =>
    rw [openChannel_of_none hc, task_addChannel]
    split <;> exact h t

theorem Unplaced.attach {g : TaskGraph} (h : g.Unplaced) (c : ChannelId) (consumer : TaskId)
    (input : Nat) : (g.attach c consumer input).Unplaced := by
  intro t
  rw [task_attach]
  split <;> exact h t

/-- The channel of the connected output has got a consumer, the others have kept theirs. -/
theorem Consumed.wire {g : TaskGraph} (h : g.Consumed) {producer consumer : TaskId}
    {output input : Nat} (kind : ChannelDescriptor) :
    (g.wire producer output consumer input kind).Consumed := by
  intro d hd
  unfold TaskGraph.wire at hd ⊢
  rw [length_attach] at hd
  rw [channel_attach]
  split
  · simp
  · rename_i hne
    cases hc : (g.task producer).outputChannel output with
    | some c =>
      rw [openChannel_of_some hc] at hd ⊢
      exact h d hd
    | none =>
      rw [openChannel_of_none hc] at hd hne ⊢
      have hdc : d ≠ g.channels.length := fun he => hne ⟨he.symm, hd⟩
      rw [length_addChannel, lt_succ_iff_of_ne hdc] at hd
      rw [channel_addChannel, if_neg hdc]
      exact h d hd

theorem Wired.wire {g : TaskGraph} (h : g.Wired) {producer consumer : TaskId}
    {output input : Nat} (kind : ChannelDescriptor)
    (hc : g.Connectable producer output consumer input) :
    (g.wire producer output consumer input kind).Wired := by
  unfold TaskGraph.wire
  cases ho : (g.task producer).outputChannel output with
  | some c =>
    rw [openChannel_of_some ho]
    exact h.attach ((h.output_iff _ _ _).mp ho).1 hc.consumer_lt hc.input_lt hc.unfed
  | none =>
    rw [openChannel_of_none ho]
    have hg := h.addChannel kind hc.producer_lt hc.output_lt ho
    refine hg.attach ?_ ?_ ?_ ?_
    · rw [length_addChannel]
      exact Nat.lt_succ_self _
    · rw [length_tasks_addChannel]
      exact hc.consumer_lt
    · rw [task_addChannel]
      split <;> exact hc.input_lt
    · rw [inputChannel_addChannel]
      exact hc.unfed

/-- **In a graph that wiring operations built the records of the connections agree**, no task is
placed yet, and no channel is without a consumer. -/
theorem Built.wired_unplaced_consumed {g : TaskGraph} (h : g.Built) :
    g.Wired ∧ g.Unplaced ∧ g.Consumed := by
  induction h with
  | empty => exact ⟨wired_empty, fun _ => rfl, fun c hc => absurd hc (Nat.not_lt_zero c)⟩
  | addTask o _ ih =>
    obtain ⟨hw, hu, hc⟩ := ih
    refine ⟨hw.congr (sameWiring_addTask _ o), fun t => ?_, hc⟩
    rw [task_addTask]
    split
    · rfl
    · exact hu t
  | addBroadcastInput _ he ih =>
    obtain ⟨hw, hu, hc⟩ := ih
    have hs := sameWiring_addBroadcastInput he
    obtain ⟨-, -, rfl⟩ := addBroadcastInput_eq_ok he
    refine ⟨hw.congr hs, fun t => ?_, hc⟩
    unfold task
    rw [getD_set]
    split
    · exact hu _
    · exact hu t
  | connectWith _ he ih =>
    obtain ⟨hw, hu, hc⟩ := ih
    obtain ⟨hcon, rfl, rfl⟩ := connectWith_eq_ok he
    exact ⟨hw.wire _ hcon, (hu.openChannel _ _ _).attach _ _ _, hc.wire _⟩
  | @markBarrier g c _ ih =>
    obtain ⟨hw, hu, hc⟩ := ih
    have hs : SameWiring g (g.markBarrier c) := sameWiring_modify c
      (fun ch => { ch with barrier := true }) (fun _ => rfl) (fun _ => rfl) (fun _ => rfl)
    refine ⟨hw.congr hs, hu, fun d hd => ?_⟩
    rw [hs.consumers]
    exact hc d (hs.length ▸ hd)
  | @setInstrumented g c on _ ih =>
    obtain ⟨hw, hu, hc⟩ := ih
    have hs : SameWiring g (g.setInstrumented c on) := sameWiring_modify c
      (fun ch => { ch with instrumented := on }) (fun _ => rfl) (fun _ => rfl) (fun _ => rfl)
    refine ⟨hw.congr hs, hu, fun d hd => ?_⟩
    rw [hs.consumers]
    exact hc d (hs.length ▸ hd)

theorem Built.wired {g : TaskGraph} (h : g.Built) : g.Wired := h.wired_unplaced_consumed.1

theorem Built.unplaced {g : TaskGraph} (h : g.Built) : g.Unplaced := h.wired_unplaced_consumed.2.1

theorem Built.consumed {g : TaskGraph} (h : g.Built) : g.Consumed := h.wired_unplaced_consumed.2.2

/-- That a channel leaves a stage is found out by planning only. -/
theorem Built.betweenStages_eq_false {g : TaskGraph} (h : g.Built) (c : ChannelId) :
    (g.channel c).betweenStages = false := by
  induction h with
  | empty => rfl
  | addTask o _ ih => exact ih
  | addBroadcastInput _ he ih =>
    obtain ⟨-, -, rfl⟩ := addBroadcastInput_eq_ok he
    exact ih
  | @connectWith g _ producer _ output _ kind _ _ he ih =>
    obtain ⟨-, -, rfl⟩ := connectWith_eq_ok he
    have hopen : ((g.openChannel producer output kind).1.channel c).betweenStages = false := by
      cases ho : (g.task producer).outputChannel output with
      | some d =>
        rw [openChannel_of_some ho]
        exact ih
      | none =>
        rw [openChannel_of_none ho, channel_addChannel]
        split
        · rfl
        · exact ih
    unfold TaskGraph.wire
    rw [channel_attach]
    split <;> exact hopen
  | markBarrier d _ ih =>
    unfold TaskGraph.markBarrier
    rw [channel_modify]
    split <;> exact ih
  | setInstrumented d on _ ih =>
    unfold TaskGraph.setInstrumented
    rw [channel_modify]
    split <;> exact ih

end TaskGraph

end Dataflow
