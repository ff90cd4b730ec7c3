import Dataflow.Proofs.Plan.Demand
import Dataflow.Proofs.TaskGraph.Wiring

/-!
# What wiring tasks keeps

The calls that change a task graph (`Request`), carried out one after the other whether they succeed
or not. Besides the records of the connections, which `Built.wired_unplaced_consumed` is about, the
calls keep the types of the connections in order (`Typed`), and a channel stays the channel that it
was when it was opened.

There are few ways to change a graph, and each of them writes both ends of a connection. So the
invariants are proved call by call, and `TaskGraph.Built` is what they have in common: whatever calls
have made is built, and everything that is proved of built graphs holds of it.

* `checkConnection_eq_ok`: when a connection is accepted.
* `Built.typed`: a declared input is fed with what it takes.
* **`handleAll_wired_typed`**: what holds after any calls.

Broadcast inputs have no declared type and take anything, hence the restriction to declared inputs.
The kind of a channel is settled by the call that opens it; a later call that names another kind for
the same output joins the channel all the same. Validation has an error for a channel without
consumer. As no channel is opened without one, no graph leads to this error.
-/

namespace Dataflow

namespace TaskGraph

/-! ## Accepted connections -/

/-- What leaves the output may flow into the input, unless the input is a broadcast input, which takes
anything. -/
def Flows (g : TaskGraph) (producer : TaskId) (output : Nat) (consumer : TaskId) (input : Nat) :
    Prop :=
  input < (g.task consumer).operator.inputs.length →
    ((g.task producer).operator.outputType output).isCompatibleWith
      ((g.task consumer).operator.inputType input) = true

variable {g g' : TaskGraph} {producer consumer : TaskId} {output input : Nat}
  {kind : ChannelDescriptor}

/-- With both ends there and the input free, the types decide. -/
theorem checkConnection_of_connectable (h : g.Connectable producer output consumer input) :
    g.checkConnection producer output consumer input =
      if input < (g.task consumer).operator.inputs.length ∧
          ((g.task producer).operator.outputType output).isCompatibleWith
            ((g.task consumer).operator.inputType input) = false then
        .error (.incompatible ((g.task consumer).operator.inputType input) input consumer
          ((g.task producer).operator.outputType output) output producer)
      else .ok () := by
  unfold checkConnection
  rw [requireTask_eq_ok.mpr h.producer_lt, requireTask_eq_ok.mpr h.consumer_lt]
  simp only [bind, Except.bind, h.output_lt, h.input_lt, h.unfed, if_true]
  rfl

theorem checkConnection_eq_ok : g.checkConnection producer output consumer input = .ok () ↔
    g.Connectable producer output consumer input ∧ g.Flows producer output consumer input := by
  constructor
  · intro h
    have hc := connectable_of_ok h
    rw [checkConnection_of_connectable hc] at h
    split at h
    · exact absurd h nofun
    · rename_i hok
      refine ⟨hc, fun hi => ?_⟩
      by_contra hne
      exact hok ⟨hi, eq_false_of_ne_true hne⟩
  · rintro ⟨hc, hflows⟩
    rw [checkConnection_of_connectable hc, if_neg]
    rintro ⟨hi, hf⟩
    exact absurd ((hflows hi).symm.trans hf) nofun

theorem connectWith_eq_ok_iff {c : ChannelId} :
    g.connectWith producer output consumer input kind = .ok (g', c) ↔
      (g.Connectable producer output consumer input ∧ g.Flows producer output consumer input) ∧
        c = (g.openChannel producer output kind).2 ∧
        g' = g.wire producer output consumer input kind := by
  rw [← checkConnection_eq_ok]
  constructor
  · intro h
    obtain ⟨-, hc, hg⟩ := connectWith_eq_ok h
    refine ⟨?_, hc, hg⟩
    unfold TaskGraph.connectWith at h
    cases hcheck : g.checkConnection producer output consumer input with
    | error e =>
      rw [hcheck] at h
      exact absurd h nofun
    | ok u => rfl
  · rintro ⟨hc, rfl, rfl⟩
    exact connectWith_of_ok hc kind

/-- The channel of the output gets one more consumer. -/
theorem channel_wire_of_some {c : ChannelId} (h : (g.task producer).outputChannel output = some c)
    (hc : c < g.channels.length) (d : ChannelId) :
    (g.wire producer output consumer input kind).channel d = if d = c then
      { g.channel d with consumers := (g.channel d).consumers ++ [⟨consumer, input⟩] }
      else g.channel d := by
  unfold wire
  rw [openChannel_of_some h, channel_attach]
  by_cases hd : d = c
  · rw [if_pos hd, if_pos ⟨hd.symm, hd ▸ hc⟩]
  · rw [if_neg hd, if_neg fun he => hd he.1.symm]

/-- An output without channel gets one, with the input as its consumer. -/
theorem channel_wire_of_none (h : (g.task producer).outputChannel output = none) (d : ChannelId) :
    (g.wire producer output consumer input kind).channel d = if d = g.channels.length then
      { descriptor := kind, producer, output, consumers := [⟨consumer, input⟩] }
      else g.channel d := by
  unfold wire
  rw [openChannel_of_none h, channel_attach, length_addChannel, channel_addChannel]
  by_cases hd : d = g.channels.length
  · rw [if_pos hd, if_pos ⟨hd.symm, hd ▸ Nat.lt_succ_self _⟩]
    simp [hd]
  · rw [if_neg hd, if_neg fun he => hd he.1.symm, if_neg hd]

theorem length_wire_of_some {c : ChannelId} (h : (g.task producer).outputChannel output = some c) :
    (g.wire producer output consumer input kind).channels.length = g.channels.length := by
  unfold wire
  rw [openChannel_of_some h, length_attach]

theorem length_wire_of_none (h : (g.task producer).outputChannel output = none) :
    (g.wire producer output consumer input kind).channels.length = g.channels.length + 1 := by
  unfold wire
  rw [openChannel_of_none h, length_attach, length_addChannel]

/-- Connecting changes channels only, and what tasks record of them. -/
theorem task_wire (t : TaskId) :
    ((g.wire producer output consumer input kind).task t).operator = (g.task t).operator ∧
      ((g.wire producer output consumer input kind).task t).inputs.length =
        (g.task t).inputs.length ∧
      ((g.wire producer output consumer input kind).task t).outputs.length =
        (g.task t).outputs.length := by
  have hbind : ∀ g' : TaskGraph, ∀ c, ((g'.attach c consumer input).task t).operator =
      (g'.task t).operator ∧ ((g'.attach c consumer input).task t).inputs.length =
      (g'.task t).inputs.length ∧ ((g'.attach c consumer input).task t).outputs.length =
      (g'.task t).outputs.length := fun g' c => by
    rw [task_attach]
    split <;> simp [Task.bindInput]
  have hopen : ((g.openChannel producer output kind).1.task t).operator = (g.task t).operator ∧
      ((g.openChannel producer output kind).1.task t).inputs.length = (g.task t).inputs.length ∧
      ((g.openChannel producer output kind).1.task t).outputs.length =
        (g.task t).outputs.length := by
    cases h : (g.task producer).outputChannel output with
    | some c => rw [openChannel_of_some h]; simp
    | none =>
      rw [openChannel_of_none h, task_addChannel]
      split <;> simp [Task.bindOutput]
  obtain ⟨ho, hi, hout⟩ := hbind (g.openChannel producer output kind).1
    (g.openChannel producer output kind).2
  exact ⟨ho.trans hopen.1, hi.trans hopen.2.1, hout.trans hopen.2.2⟩

theorem length_tasks_wire :
    (g.wire producer output consumer input kind).tasks.length = g.tasks.length := by
  unfold wire attach
  cases h : (g.task producer).outputChannel output with
  | some c => rw [openChannel_of_some h]; exact List.length_modify _ _ _
  | none =>
    rw [openChannel_of_none h]
    exact (List.length_modify _ _ _).trans (length_tasks_addChannel _ _ _ _)

/-! ## Types -/

/-- Every declared input is fed with what it takes. -/
def Typed (g : TaskGraph) : Prop :=
  ∀ c, ∀ k ∈ (g.channel c).consumers,
    g.Flows (g.channel c).producer (g.channel c).output k.task k.input

theorem Flows.of_operator (h : g.Flows producer output consumer input)
    (hp : (g'.task producer).operator = (g.task producer).operator)
    (hc : (g'.task consumer).operator = (g.task consumer).operator) :
    g'.Flows producer output consumer input := by
  unfold Flows
  rw [hp, hc]
  exact h

/-- Graphs with the same channels, but for their marks, and the same operators at their ends. -/
theorem Typed.congr (h : g.Typed) (hs : SameWiring g g')
    (ho : ∀ c, ∀ k ∈ (g.channel c).consumers,
      (g'.task (g.channel c).producer).operator = (g.task (g.channel c).producer).operator ∧
        (g'.task k.task).operator = (g.task k.task).operator) : g'.Typed := by
  intro c k hk
  rw [hs.consumers] at hk
  rw [hs.producer, hs.source]
  exact (h c k hk).of_operator (ho c k hk).1 (ho c k hk).2

/-- Both ends of a connection are tasks of the graph. -/
theorem Wired.ends_lt (h : g.Wired) {c : ChannelId} {k : Consumer}
    (hk : k ∈ (g.channel c).consumers) :
    (g.channel c).producer < g.tasks.length ∧ k.task < g.tasks.length := by
  have hc : c < g.channels.length := by
    by_contra hle
    rw [channel_of_le (Nat.le_of_not_lt hle)] at hk
    exact absurd hk List.not_mem_nil
  exact ⟨h.producer_lt hc, inputChannel_lt ((h.input_iff k.task k.input c).mpr ⟨hc, hk⟩)⟩

theorem Typed.wire (h : g.Typed) (hw : g.Wired)
    (hf : g.Flows producer output consumer input) :
    (g.wire producer output consumer input kind).Typed := by
  intro d k hk
  have hsame : ∀ {p o t i}, g.Flows p o t i →
      (g.wire producer output consumer input kind).Flows p o t i := fun hflows =>
    hflows.of_operator (task_wire _).1 (task_wire _).1
  cases ho : (g.task producer).outputChannel output with
  | some c =>
    obtain ⟨hc, hp, hout⟩ := (hw.output_iff _ _ _).mp ho
    rw [channel_wire_of_some ho hc] at hk ⊢
    split at hk
    · rename_i hd
      rw [if_pos hd]
      rcases List.mem_append.mp hk with hold | hnew
      · exact hsame (h d k hold)
      · rw [List.mem_singleton.mp hnew, hd, hp, hout]
        exact hsame hf
    · rename_i hd
      rw [if_neg hd]
      exact hsame (h d k hk)
  | none =>
    rw [channel_wire_of_none ho] at hk ⊢
    split at hk
    · rename_i hd
      rw [if_pos hd, List.mem_singleton.mp hk]
      exact hsame hf
    · rename_i hd
      rw [if_neg hd]
      exact hsame (h d k hk)

theorem Built.typed (h : g.Built) : g.Typed := by
  induction h with
  | empty => exact fun c k hk => absurd hk List.not_mem_nil
  | @addTask g o hg ih =>
    refine ih.congr (sameWiring_addTask g o) fun c k hk => ?_
    obtain ⟨hp, ht⟩ := hg.wired.ends_lt hk
    rw [task_addTask, task_addTask, if_neg (Nat.ne_of_lt hp), if_neg (Nat.ne_of_lt ht)]
    exact ⟨rfl, rfl⟩
  | @addBroadcastInput g _ t _ _ he ih =>
    have hs := sameWiring_addBroadcastInput he
    obtain ⟨-, -, rfl⟩ := addBroadcastInput_eq_ok he
    have ho : ∀ u, (task { g with tasks := g.tasks.set t (g.task t).addInput } u).operator =
        (g.task u).operator := fun u => by
      unfold task
      rw [getD_set]
      split
      · rename_i hu
        rw [hu.1]
        rfl
      · rfl
    exact ih.congr hs fun c k _ => ⟨ho _, ho _⟩
  | connectWith hg he ih =>
    obtain ⟨⟨-, hflows⟩, -, rfl⟩ := connectWith_eq_ok_iff.mp he
    exact ih.wire hg.wired hflows
  | markBarrier c _ ih =>
    exact ih.congr (sameWiring_modify c (fun ch => { ch with barrier := true }) (fun _ => rfl)
      (fun _ => rfl) (fun _ => rfl)) fun _ _ _ => ⟨rfl, rfl⟩
  | setInstrumented c on _ ih =>
    exact ih.congr (sameWiring_modify c (fun ch => { ch with instrumented := on }) (fun _ => rfl)
      (fun _ => rfl) (fun _ => rfl)) fun _ _ _ => ⟨rfl, rfl⟩

/-! ## Calls -/

/-- A call that may change a task graph. -/
inductive Request where
  | addTask (o : Operator)
  | addBroadcastInput (t : TaskId)
  | connect (producer : TaskId) (output : Nat) (consumer : TaskId) (input : Nat)
  | connectWith (producer : TaskId) (output : Nat) (consumer : TaskId) (input : Nat)
    (kind : ChannelDescriptor)
  | markBarrier (c : ChannelId)
  | setInstrumented (c : ChannelId) (on : Bool)
  deriving DecidableEq, Repr

/-- What a call answers when it succeeds. -/
inductive Answer where
  | task (id : TaskId)
  | input (index : Nat)
  | channel (id : ChannelId)
  | done
  deriving DecidableEq, Repr

/-- Why a call fails: it is refused, or it names a channel that the graph does not have. -/
inductive Failure where
  | refused (e : PlanningError)
  | noChannel (c : ChannelId)
  deriving DecidableEq, Repr

/-- Carry out a call: its answer, or why it fails, and the graph after it. -/
def handle (g : TaskGraph) : Request → Except Failure Answer × TaskGraph
  | .addTask o => (.ok (.task g.tasks.length), g.addTask o)
  | .addBroadcastInput t =>
    match g.addBroadcastInput t with
    | .ok (g', input) => (.ok (.input input), g')
    | .error e => (.error (.refused e), g)
  | .connect producer output consumer input =>
    match g.connect producer output consumer input with
    | .ok (g', c) => (.ok (.channel c), g')
    | .error e => (.error (.refused e), g)
  | .connectWith producer output consumer input kind =>
    match g.connectWith producer output consumer input kind with
    | .ok (g', c) => (.ok (.channel c), g')
    | .error e => (.error (.refused e), g)
  | .markBarrier c =>
    if c < g.channels.length then (.ok .done, g.markBarrier c) else (.error (.noChannel c), g)
  | .setInstrumented c on =>
    if c < g.channels.length then (.ok .done, g.setInstrumented c on)
    else (.error (.noChannel c), g)

/-- The graph after calls one after the other. -/
def handleAll (g : TaskGraph) (requests : List Request) : TaskGraph :=
  requests.foldl (fun g request => (g.handle request).2) g

theorem handleAll_append (g : TaskGraph) (first rest : List Request) :
    g.handleAll (first ++ rest) = (g.handleAll first).handleAll rest := List.foldl_append

theorem handle_of_error {request : Request} {e : Failure} (h : (g.handle request).1 = .error e) :
    (g.handle request).2 = g := by
  cases request with
  | addTask => exact absurd h nofun
  | addBroadcastInput t => cases hadd : g.addBroadcastInput t <;> simp_all [TaskGraph.handle]
  | connect producer output consumer input =>
    cases hc : g.connect producer output consumer input <;> simp_all [TaskGraph.handle]
  | connectWith producer output consumer input kind =>
    cases hc : g.connectWith producer output consumer input kind <;> simp_all [TaskGraph.handle]
  | markBarrier c =>
    by_cases hc : c < g.channels.length
    · simp [TaskGraph.handle, hc] at h
    · simp [TaskGraph.handle, hc]
  | setInstrumented c on =>
    by_cases hc : c < g.channels.length
    · simp [TaskGraph.handle, hc] at h
    · simp [TaskGraph.handle, hc]

/-- What a call does to the graph: nothing, or what it is for. -/
inductive Change (g : TaskGraph) : TaskGraph → Prop
  | none : Change g g
  | added (o : Operator) : Change g (g.addTask o)
  | widened {g' : TaskGraph} {t : TaskId} {input : Nat}
      (added : g.addBroadcastInput t = .ok (g', input)) : Change g g'
  | connected {g' : TaskGraph} {producer consumer : TaskId} {output input : Nat}
      {kind : ChannelDescriptor} {c : ChannelId}
      (connected : g.connectWith producer output consumer input kind = .ok (g', c)) : Change g g'
  | barrier (c : ChannelId) : Change g (g.markBarrier c)
  | instrumented (c : ChannelId) (on : Bool) : Change g (g.setInstrumented c on)

theorem change_handle (g : TaskGraph) (request : Request) : g.Change (g.handle request).2 := by
  cases request with
  | addTask o => exact .added o
  | addBroadcastInput t =>
    cases hadd : g.addBroadcastInput t with
    | error e =>
      simp only [TaskGraph.handle, hadd]
      exact .none
    | ok added =>
      simp only [TaskGraph.handle, hadd]
      exact .widened hadd
  | connect producer output consumer input =>
    cases hc : g.connect producer output consumer input with
    | error e =>
      simp only [TaskGraph.handle, hc]
      exact .none
    | ok connected =>
      simp only [TaskGraph.handle, hc]
      exact .connected hc
  | connectWith producer output consumer input kind =>
    cases hc : g.connectWith producer output consumer input kind with
    | error e =>
      simp only [TaskGraph.handle, hc]
      exact .none
    | ok connected =>
      simp only [TaskGraph.handle, hc]
      exact .connected hc
  | markBarrier c =>
    by_cases hc : c < g.channels.length
    · simp only [TaskGraph.handle, if_pos hc]
      exact .barrier c
    · simp only [TaskGraph.handle, if_neg hc]
      exact .none
  | setInstrumented c on =>
    by_cases hc : c < g.channels.length
    · simp only [TaskGraph.handle, if_pos hc]
      exact .instrumented c on
    · simp only [TaskGraph.handle, if_neg hc]
      exact .none

theorem Change.built (h : g.Change g') (hg : g.Built) : g'.Built := by
  cases h with
  | none => exact hg
  | added o => exact hg.addTask o
  | widened he => exact hg.addBroadcastInput he
  | connected he => exact hg.connectWith he
  | barrier c => exact hg.markBarrier c
  | instrumented c on => exact hg.setInstrumented c on

theorem built_handleAll (hg : g.Built) (requests : List Request) : (g.handleAll requests).Built := by
  induction requests generalizing g with
  | nil => exact hg
  | cons request requests ih => exact ih ((change_handle g request).built hg)

/-! ## Channels stay what they are -/

/-- The channels of a graph are still there, of the kind and with the source that they had. -/
def KeepsChannels (g g' : TaskGraph) : Prop :=
  ∀ c < g.channels.length, c < g'.channels.length ∧
    (g'.channel c).descriptor = (g.channel c).descriptor ∧
    (g'.channel c).producer = (g.channel c).producer ∧ (g'.channel c).output = (g.channel c).output

theorem KeepsChannels.refl (g : TaskGraph) : g.KeepsChannels g := fun _ hc => ⟨hc, rfl, rfl, rfl⟩

theorem KeepsChannels.trans {g'' : TaskGraph} (h : g.KeepsChannels g')
    (h' : g'.KeepsChannels g'') : g.KeepsChannels g'' := fun c hc => by
  obtain ⟨hlt, hd, hp, ho⟩ := h c hc
  obtain ⟨hlt', hd', hp', ho'⟩ := h' c hlt
  exact ⟨hlt', hd'.trans hd, hp'.trans hp, ho'.trans ho⟩

/-- Marks on a channel leave the rest of it alone. -/
theorem keepsChannels_modify (c : ChannelId) (f : Channel → Channel)
    (hd : ∀ x, (f x).descriptor = x.descriptor) (hp : ∀ x, (f x).producer = x.producer)
    (ho : ∀ x, (f x).output = x.output) :
    g.KeepsChannels { g with channels := g.channels.modify c f } := fun d hlt => by
  refine ⟨(List.length_modify _ _ _).symm ▸ hlt, ?_⟩
  rw [channel_modify]
  split <;> simp [hd, hp, ho]

theorem Wired.keepsChannels_wire (h : g.Wired) (producer : TaskId) (output : Nat)
    (consumer : TaskId) (input : Nat) (kind : ChannelDescriptor) :
    g.KeepsChannels (g.wire producer output consumer input kind) := fun d hd => by
  cases ho : (g.task producer).outputChannel output with
  | some c =>
    rw [length_wire_of_some ho, channel_wire_of_some ho ((h.output_iff _ _ _).mp ho).1]
    refine ⟨hd, ?_⟩
    split <;> exact ⟨rfl, rfl, rfl⟩
  | none =>
    rw [length_wire_of_none ho, channel_wire_of_none ho, if_neg (Nat.ne_of_lt hd)]
    exact ⟨Nat.lt_succ_of_lt hd, rfl, rfl, rfl⟩

/-- The connected output has a channel. -/
theorem Wired.exists_channel_wire (h : g.Wired) (producer : TaskId) (output : Nat)
    (consumer : TaskId) (input : Nat) (kind : ChannelDescriptor) :
    ∃ c < (g.wire producer output consumer input kind).channels.length,
      ((g.wire producer output consumer input kind).channel c).producer = producer ∧
      ((g.wire producer output consumer input kind).channel c).output = output := by
  cases ho : (g.task producer).outputChannel output with
  | some c =>
    obtain ⟨hc, hp, hout⟩ := (h.output_iff _ _ c).mp ho
    obtain ⟨hlt, -, hp', hout'⟩ := h.keepsChannels_wire producer output consumer input kind c hc
    exact ⟨c, hlt, hp'.trans hp, hout'.trans hout⟩
  | none =>
    refine ⟨g.channels.length, ?_, ?_⟩
    · rw [length_wire_of_none ho]
      exact Nat.lt_succ_self _
    · rw [channel_wire_of_none ho, if_pos rfl]
      exact ⟨rfl, rfl⟩

theorem Change.keepsChannels (h : g.Change g') (hw : g.Wired) : g.KeepsChannels g' := by
  cases h with
  | none => exact .refl g
  | added o => exact fun _ hc => ⟨hc, rfl, rfl, rfl⟩
  | widened he =>
    obtain ⟨-, -, rfl⟩ := addBroadcastInput_eq_ok he
    exact fun _ hc => ⟨hc, rfl, rfl, rfl⟩
  | connected he =>
    obtain ⟨-, -, rfl⟩ := connectWith_eq_ok he
    exact hw.keepsChannels_wire _ _ _ _ _
  | barrier c =>
    exact keepsChannels_modify c (fun ch => { ch with barrier := true }) (fun _ => rfl)
      (fun _ => rfl) (fun _ => rfl)
  | instrumented c on =>
    exact keepsChannels_modify c (fun ch => { ch with instrumented := on }) (fun _ => rfl)
      (fun _ => rfl) (fun _ => rfl)

theorem Built.keepsChannels (hg : g.Built) (requests : List Request) :
    g.KeepsChannels (g.handleAll requests) := by
  induction requests generalizing g with
  | nil => exact .refl g
  | cons request requests ih =>
    have hstep := change_handle g request
    exact (hstep.keepsChannels hg.wired).trans (ih (hstep.built hg))

/-! ## Plans of such graphs -/

/-- No plan is found to have a channel that nothing reads, whatever its sinks are. -/
theorem validate_ne_noConsumer {p : PreliminaryPlan} (hc : p.graph.Consumed) (c : ChannelLabel) :
    p.validate ≠ .error (.noConsumer c) := by
  intro h
  by_cases hs : p.sinks = []
  · rw [PreliminaryPlan.validate_of_nil hs] at h
    exact absurd (Except.error.inj h) nofun
  by_cases hknown : ∀ s ∈ p.sinks, s < p.graph.tasks.length
  · rw [PreliminaryPlan.validate_of_known ⟨hs, hknown⟩ hc] at h
    obtain ⟨t, -, ht⟩ := forM_eq_error h
    split at ht
    · exact absurd (Except.error.inj ht) nofun
    · exact absurd ht nofun
  · obtain ⟨s, hmem, hunknown⟩ := not_forall₂.mp hknown
    obtain ⟨t, ht⟩ := PreliminaryPlan.validate_of_unknown hs hmem hunknown
    rw [ht] at h
    exact absurd (Except.error.inj h) nofun

/-- **After any calls the graph is wired**: an input is fed by a channel iff the channel lists it, and
lists it once, and an output feeds a channel iff that names it as its source. Every channel has a
consumer, so that validation never misses one, and a declared input is fed with what it takes.
Whatever calls follow, a channel keeps its kind; a call that fails changes nothing. -/
theorem handleAll_wired_typed (requests : List Request) :
    let g := empty.handleAll requests
    g.Wired ∧ (∀ c < g.channels.length, (g.channel c).consumers ≠ []) ∧
      (∀ sinks c, PreliminaryPlan.validate ⟨g, sinks⟩ ≠ .error (.noConsumer c)) ∧
      (∀ c, ∀ k ∈ (g.channel c).consumers, k.input < (g.task k.task).operator.inputs.length →
        ((g.task (g.channel c).producer).operator.outputType (g.channel c).output).isCompatibleWith
          ((g.task k.task).operator.inputType k.input) = true) ∧
      (∀ more, ∀ c < g.channels.length,
        ((empty.handleAll (requests ++ more)).channel c).descriptor = (g.channel c).descriptor) ∧
      ∀ request e, (g.handle request).1 = .error e → (g.handle request).2 = g := by
  have hg := built_handleAll .empty requests
  refine ⟨hg.wired, hg.consumed, fun sinks c => validate_ne_noConsumer hg.consumed c, hg.typed,
    fun more c hc => ?_, fun _ _ => handle_of_error⟩
  rw [handleAll_append]
  exact (hg.keepsChannels more c hc).2.1

/-- Adds up what it reads, and takes parameters beside. -/
def adder : Operator :=
  { object := 0, name := "add", platform := ⟨"java"⟩, inputs := [⟨"Long", false⟩, ⟨"Long", false⟩]
    outputs := [⟨"Long", false⟩], supportsBroadcast := true }

def parameters : Operator :=
  { object := 1, name := "parameters", platform := ⟨"java"⟩, inputs := []
    outputs := [⟨"Text", false⟩] }

/-- A task that feeds itself, and an input that takes parameters only because it is a broadcast input.
The declared input refuses them, and the mark is for a channel that is not there. -/
def feedbackRequests : List Request :=
  [.addTask adder, .addTask parameters, .connectWith 0 0 0 1 .stream, .connect 1 0 0 0,
    .addBroadcastInput 0, .connect 1 0 0 2, .connect 0 0 0 0, .setInstrumented 2 true]

theorem feedback_wired_typed :
    let g := empty.handleAll feedbackRequests
    g.Wired ∧ (g.channel 0).consumers = [⟨0, 1⟩, ⟨0, 0⟩] ∧ (g.channel 0).consumers ≠ [] ∧
      g.channels.length = 2 ∧
      ((g.task (g.channel 0).producer).operator.outputType (g.channel 0).output).isCompatibleWith
        ((g.task 0).operator.inputType 1) = true ∧
      ((empty.handleAll (feedbackRequests ++ [.addTask adder, .connect 0 0 2 0])).channel
        0).descriptor = .stream ∧
      (g.handle (.connect 1 0 0 0)).1 = .error (.refused (.alreadyFed 0 0 0)) ∧
      (g.handle (.connect 1 0 0 0)).2 = g := by
  obtain ⟨hw, hconsumed, -, htyped, hkeeps, hfail⟩ := handleAll_wired_typed feedbackRequests
  have hlt : 0 < (empty.handleAll feedbackRequests).channels.length := Nat.zero_lt_succ 1
  have herror : ((empty.handleAll feedbackRequests).handle (.connect 1 0 0 0)).1 =
      .error (.refused (.alreadyFed 0 0 0)) := rfl
  exact ⟨hw, rfl, hconsumed 0 hlt, rfl, htyped 0 ⟨0, 1⟩ (List.mem_cons_self) (Nat.lt_succ_self 1),
    hkeeps _ 0 hlt, herror, hfail _ _ herror⟩

end TaskGraph

end Dataflow
