import Dataflow.Proofs.Digraph.Acyclic
import Dataflow.Proofs.Execution.Activation

/-!
# The push loop

A stage without a loop head executes each of its tasks once and then stops. `Pushing` says what
holds in between, given which inputs were fed by now and which tasks were executed: a task waits
when some of its inputs were fed but not all, it is ready or executed when all are bound, and every
bound input carries the data of its channel.

The invariant is about a set of inputs that were fed and a list of tasks that were executed, and every
step adds to one of them. An input is fed once, since it has one channel and a task emits on an output
once; so to feed it is to bind an input that is not bound, and it succeeds (`Feedable`). A task is
complete when its last input is fed, and it becomes ready at this moment and no other.

* `feed_spec`, `feedAll_spec`: the invariant when an instance is fed.
* `executeTask_spec`: the invariant of one activation.
* **`push_spec`**: a whole push.

At the end nothing is ready. If a task were not executed, one of its inputs inside the stage would not
have been fed, so that its producer was not executed either; and this leads back through the stage for
ever, which it cannot, as its tasks form no cycle (`Pushing.all_done`). This is the only place where
it matters that all operators emit on every connected output. Stages of loop heads are not among these
(`Dataflow.Proofs.Execution.HeadRun`), and neither are operators that fail or emit nothing
(`Dataflow.Proofs.Execution.Spread`, `Dataflow.Proofs.Execution.Activated`).
-/

namespace Dataflow

namespace Plan

/-- The tasks of a stage that feed a task of the same stage directly. -/
def innerProducers (p : Plan) (t : TaskId) : List TaskId :=
  ((List.range (p.graph.task t).inputs.length).filter fun i => !p.isFedExternally t i).filterMap
    (p.graph.producerOf t)

/-- A stage without a loop head, as planning makes it. -/
structure IsPlain (p : Plan) (s : StageId) : Prop where
  wired : p.graph.Wired
  placed : ∀ t, (p.graph.task t).stage = some s ↔ t ∈ (p.stage s).tasks
  nodup : (p.stage s).tasks.Nodup
  plain : ∀ t ∈ (p.stage s).tasks, (p.graph.task t).operator.loopRoles = none
  fed : ∀ t ∈ (p.stage s).tasks, ∀ i < (p.graph.task t).inputs.length,
    ∃ c, (p.graph.task t).inputChannel i = some c
  start : ∀ t, t ∈ (p.stage s).startTasks ↔ t ∈ (p.stage s).tasks ∧
    ∀ i < (p.graph.task t).inputs.length, p.isFedExternally t i = true
  nodup_start : (p.stage s).startTasks.Nodup
  /-- Inside the stage the tasks form no cycle. -/
  grounded : ∀ t ∈ (p.stage s).tasks, Digraph.Grounded p.innerProducers t

end Plan

theorem lt_length_of_inputChannel {t : Task} {i : Nat} {c : ChannelId}
    (h : t.inputChannel i = some c) : i < t.inputs.length := by
  by_contra hi
  unfold Task.inputChannel at h
  rw [List.getElem?_eq_none (Nat.le_of_not_lt hi)] at h
  exact absurd h (by simp)

theorem lt_length_of_outputChannel {t : Task} {o : Nat} {c : ChannelId}
    (h : t.outputChannel o = some c) : o < t.outputs.length := by
  by_contra ho
  unfold Task.outputChannel at h
  rw [List.getElem?_eq_none (Nat.le_of_not_lt ho)] at h
  exact absurd h (by simp)

theorem isFedExternally_eq {p : Plan} {t : TaskId} {i : Nat} {c : ChannelId}
    (h : (p.graph.task t).inputChannel i = some c) : p.isFedExternally t i =
      ((p.graph.channel c).barrier ||
        (p.graph.task (p.graph.channel c).producer).stage != (p.graph.task t).stage) := by
  unfold Plan.isFedExternally
  simp only [h]

theorem mem_innerProducers {p : Plan} {t u : TaskId} : u ∈ p.innerProducers t ↔ ∃ i c,
    (p.graph.task t).inputChannel i = some c ∧ p.isFedExternally t i = false ∧
      (p.graph.channel c).producer = u := by
  unfold Plan.innerProducers TaskGraph.producerOf
  simp only [List.mem_filterMap, List.mem_filter, List.mem_range, Option.map_eq_some_iff,
    Bool.not_eq_true']
  constructor
  · rintro ⟨i, ⟨-, hx⟩, c, hc, hu⟩
    exact ⟨i, c, hc, hx, hu⟩
  · rintro ⟨i, c, hc, hx, hu⟩
    exact ⟨i, ⟨lt_length_of_inputChannel hc, hx⟩, c, hc, hu⟩

/-- What the inputs of a task carry, given the data of each channel. -/
def inputData (p : Plan) (v : ChannelId → Payload) (t : TaskId) (i : Nat) : Option Payload :=
  ((p.graph.task t).inputChannel i).map v

/-- The operator of a task computes the data of its output channels from those of its input
channels, and its memory meets a condition on the tasks that were executed. -/
structure Serves {ω : Type} (p : Plan) (b : Behaviour ω) (v : ChannelId → Payload)
    (I : List TaskId → ω → Prop) (t : TaskId) : Prop where
  prepare : ∀ ctx m done, Shows p t .plain (inputData p v t) ctx → I done m →
    (b.prepare (p.graph.task t).operator.object ctx m).Succeeds ∧
      I done (b.prepare (p.graph.task t).operator.object ctx m).memory
  evaluate : ∀ ctx m done, Shows p t .plain (inputData p v t) ctx → I done m →
    (b.evaluate (p.graph.task t).operator.object ctx m).Succeeds ∧
      I (done ++ [t]) (b.evaluate (p.graph.task t).operator.object ctx m).memory ∧
      ∀ o c, (p.graph.task t).outputChannel o = some c → ∃ e,
        (b.evaluate (p.graph.task t).operator.object ctx m).emissions[o]? = some (some e) ∧
          e.payload = v c

namespace Workspace

/-- Every input of a task is bound: it is fed through the execution state or was fed inside. -/
def Complete (p : Plan) (fed : Consumer → Prop) (t : TaskId) : Prop :=
  ∀ i < (p.graph.task t).inputs.length, p.isFedExternally t i = true ∨ fed ⟨t, i⟩

/-- An activator has bound the inputs it should have, to the data of their channels. -/
structure Gathers (p : Plan) (v : ChannelId → Payload) (l : Ledger) (fed : Consumer → Prop)
    (a : Activator) : Prop where
  length : a.inputs.length = (p.graph.task a.task).inputs.length
  bound : ∀ i c, (p.graph.task a.task).inputChannel i = some c →
    p.isFedExternally a.task i = true ∨ fed ⟨a.task, i⟩ →
    ∃ x, a.inputs[i]? = some (some x) ∧ l.Live x c (v c)
  unbound : ∀ i < (p.graph.task a.task).inputs.length,
    ¬ (p.isFedExternally a.task i = true ∨ fed ⟨a.task, i⟩) → a.inputs[i]? = some none

/-- The instances and the state that a stage execution begins with: what the stage reads through the
state is published, and references are held on it. -/
structure Supplied (p : Plan) (s : StageId) (store : Store) (v : ChannelId → Payload)
    (own : InstanceId → Nat) : Prop where
  published : ∀ t ∈ (p.stage s).tasks, ∀ i c, (p.graph.task t).inputChannel i = some c →
    p.isFedExternally t i = true → ∃ x, store.state.get? c = some x ∧ store.ledger.Live x c (v c)
  owned : ∀ c x, store.state.get? c = some x → own x ≠ 0

/-- The invariant of a push: `fed` are the inputs that were fed inside the stage, `done` the tasks
that were executed. -/
structure Pushing {ω : Type} (p : Plan) (s : StageId) (store : Store)
    (v : ChannelId → Payload) (I : List TaskId → ω → Prop) (own : InstanceId → Nat)
    (fed : Consumer → Prop) (done : List TaskId) (w : Workspace ω) : Prop where
  staged : ∀ t, t ∈ w.run.staged.map Activator.task ↔
    t ∈ (p.stage s).tasks ∧ (∃ i, fed ⟨t, i⟩) ∧ ¬ Complete p fed t
  nodup_staged : (w.run.staged.map Activator.task).Nodup
  ready : ∀ t, t ∈ done ++ w.run.ready.map (fun r => r.1.task) ↔
    t ∈ (p.stage s).tasks ∧ Complete p fed t
  nodup_ready : (done ++ w.run.ready.map fun r => r.1.task).Nodup
  plain : ∀ r ∈ w.run.ready, r.2 = .plain
  gathers : ∀ a ∈ w.run.activators, Gathers p v w.ledger fed a
  executed : w.run.executed = done.map fun t => ⟨t, .plain⟩
  channels : (w.run.instances.map fun i => (w.ledger.get i).channel).Nodup
  produced : ∀ c, c ∈ w.run.instances.map (fun i => (w.ledger.get i).channel) ↔
    c < p.graph.channels.length ∧ (p.graph.channel c).producer ∈ done
  live : ∀ i ∈ w.run.instances,
    (w.ledger.get i).payload = some (v (w.ledger.get i).channel)
  memory : I done w.memory
  supplied : Supplied p s store v own
  later : store.ledger.Later w.ledger
  covers : w.ledger.Covers own (w.run.activators.flatMap Activator.bound ++ w.run.instances)

section Steps

variable {ω : Type} {p : Plan} {b : Behaviour ω} {s : StageId} {store : Store}
  {v : ChannelId → Payload} {I : List TaskId → ω → Prop} {own : InstanceId → Nat}
  {fed : Consumer → Prop} {done : List TaskId} {w : Workspace ω} {l l' : Ledger} {a : Activator}

/-! ## Activators -/

/-- What is published stays live while it is owned. -/
theorem Supplied.live {held : List InstanceId} (h : Supplied p s store v own)
    (hl : store.ledger.Later l) (hc : l.Covers own held) {t : TaskId}
    (ht : t ∈ (p.stage s).tasks) {i : Nat} {c : ChannelId}
    (hi : (p.graph.task t).inputChannel i = some c) (hx : p.isFedExternally t i = true) :
    ∃ x, store.state.get? c = some x ∧ l.Live x c (v c) := by
  obtain ⟨x, hget, hlive⟩ := h.published t ht i c hi hx
  exact ⟨x, hget, hlive.later hl (hc.references_of_own (h.owned c x hget))⟩

theorem Gathers.later (h : Gathers p v l fed a) (hl : l.Later l')
    (hr : ∀ x ∈ a.bound, (l'.get x).references ≠ 0) : Gathers p v l' fed a := by
  refine ⟨h.length, fun i c hc hb => ?_, h.unbound⟩
  obtain ⟨x, hx, hlive⟩ := h.bound i c hc hb
  refine ⟨x, hx, hlive.later hl (hr x ?_)⟩
  exact List.mem_filterMap.mpr ⟨some x, List.mem_of_getElem? hx, rfl⟩

/-- What was fed matters to a task only as far as it is about its own inputs. -/
theorem Gathers.congr {fed' : Consumer → Prop} (h : Gathers p v l fed a)
    (heq : ∀ i, fed' ⟨a.task, i⟩ ↔ fed ⟨a.task, i⟩) : Gathers p v l fed' a :=
  ⟨h.length, fun i c hc hb => h.bound i c hc (hb.imp_right (heq i).mp),
    fun i hi hb => h.unbound i hi fun hb' => hb (hb'.imp_right (heq i).mpr)⟩

theorem Gathers.bears (h : Gathers p v l fed a) (hc : Complete p fed a.task)
    (hfed : ∀ i < (p.graph.task a.task).inputs.length,
      ∃ c, (p.graph.task a.task).inputChannel i = some c) {held : List InstanceId}
    (hcov : l.Covers own (a.bound ++ held)) :
    Bears l own (a.bound ++ held) a (inputData p v a.task) := by
  refine ⟨hcov, fun i => ?_⟩
  unfold inputData
  by_cases hi : i < (p.graph.task a.task).inputs.length
  · obtain ⟨c, hch⟩ := hfed i hi
    obtain ⟨x, hx, hlive⟩ := h.bound i c hch (hc i hi)
    have hmem : x ∈ a.bound := List.mem_filterMap.mpr ⟨some x, List.mem_of_getElem? hx, rfl⟩
    rw [hx, hch]
    refine ⟨hlive.2, fun y hy => ?_⟩
    obtain rfl : x = y := Option.some.inj hy
    exact hcov.references_of_mem (List.mem_append_left _ hmem)
  · have hch : (p.graph.task a.task).inputChannel i = none := by
      unfold Task.inputChannel
      rw [List.getElem?_eq_none (Nat.le_of_not_lt hi)]
      rfl
    rw [List.getElem?_eq_none (by rw [h.length]; exact Nat.le_of_not_lt hi), hch]
    exact ⟨rfl, fun _ h => absurd h (by simp)⟩

/-- A task without loop roles is ready when all its inputs are bound. -/
theorem Gathers.readiness (h : Gathers p v l fed a)
    (hplain : (p.graph.task a.task).operator.loopRoles = none)
    (hfed : ∀ i < (p.graph.task a.task).inputs.length,
      ∃ c, (p.graph.task a.task).inputChannel i = some c) (m : ω) :
    (Complete p fed a.task ∧ a.readiness p.graph b m = some .plain) ∨
      (¬ Complete p fed a.task ∧ a.readiness p.graph b m = none) := by
  have hall : (List.range (p.graph.task a.task).inputs.length).all a.isBound = true ↔
      Complete p fed a.task := by
    rw [List.all_eq_true]
    refine forall_congr' ?_
    intro i
    rw [List.mem_range]
    refine forall_congr' ?_
    intro hi
    unfold Activator.isBound
    by_cases hb : p.isFedExternally a.task i = true ∨ fed ⟨a.task, i⟩
    · obtain ⟨c, hc⟩ := hfed i hi
      obtain ⟨x, hx, -⟩ := h.bound i c hc hb
      simp [hx, hb]
    · rw [h.unbound i hi hb]
      simp [hb]
  unfold Activator.readiness Dataflow.readiness
  rw [hplain]
  by_cases hc : Complete p fed a.task
  · exact Or.inl ⟨hc, if_pos (hall.mpr hc)⟩
  · exact Or.inr ⟨hc, if_neg fun h' => hc (hall.mp h')⟩

/-! ## Waiting activators -/

theorem perm_of_find? {staged : List Activator} {t : TaskId}
    (hn : (staged.map Activator.task).Nodup) (h : staged.find? (fun x => x.task == t) = some a) :
    staged.Perm (a :: staged.filter fun x => x.task != t) := by
  induction staged with
  | nil => exact absurd h (by simp)
  | cons y ys ih =>
    rw [List.map_cons, List.nodup_cons] at hn
    by_cases hy : y.task = t
    · obtain rfl : y = a := by simpa [List.find?_cons, hy] using h
      have hall : ys.filter (fun x => x.task != t) = ys := by
        rw [List.filter_eq_self]
        intro x hx
        rw [bne_iff_ne]
        rintro rfl
        exact hn.1 (List.mem_map.mpr ⟨x, hx, hy.symm⟩)
      rw [List.filter_cons_of_neg (by simp [hy]), hall]
    · have h' : ys.find? (fun x => x.task == t) = some a := by simpa [List.find?_cons, hy] using h
      rw [List.filter_cons_of_pos (by simp [hy])]
      exact (List.Perm.cons y (ih hn.2 h')).trans (List.Perm.swap a y _)

/-- Staging puts an activator in place of that of the same task. -/
theorem perm_stage (r : StageRun) (a : Activator) :
    (r.stage a).staged.Perm (a :: r.staged.filter fun x => x.task != a.task) := by
  have hsplit : ∀ xs : List Activator, (xs.filter (fun x => x.task < a.task) ++
      xs.filter fun x => a.task < x.task).Perm (xs.filter fun x => x.task != a.task) := by
    intro xs
    induction xs with
    | nil => exact List.Perm.refl _
    | cons y ys ih =>
      rcases Nat.lt_trichotomy y.task a.task with hlt | heq | hgt
      · rw [List.filter_cons_of_pos (by simpa using hlt),
          List.filter_cons_of_neg (by simpa using Nat.le_of_lt hlt),
          List.filter_cons_of_pos (by simpa using Nat.ne_of_lt hlt)]
        exact List.Perm.cons y ih
      · rw [List.filter_cons_of_neg (by simp [heq]), List.filter_cons_of_neg (by simp [heq]),
          List.filter_cons_of_neg (by simp [heq])]
        exact ih
      · rw [List.filter_cons_of_neg (by simpa using Nat.le_of_lt hgt),
          List.filter_cons_of_pos (by simpa using hgt),
          List.filter_cons_of_pos (by simpa using Nat.ne_of_gt hgt)]
        exact List.perm_middle.trans (List.Perm.cons y ih)
  exact List.perm_middle.trans (List.Perm.cons a (hsplit r.staged))

/-! ## Feeding -/

/-- The references that a stage execution holds but for the waiting activator of a task. -/
def heldElsewhere (r : StageRun) (t : TaskId) : List InstanceId :=
  (r.staged.filter fun x => x.task != t).flatMap Activator.bound ++
    ((r.ready.map Prod.fst).flatMap Activator.bound ++ r.instances)

/-- The activator of a task waits, and nothing else has changed. -/
structure Awaits (p : Plan) (v : ChannelId → Payload) (own : InstanceId → Nat)
    (fed : Consumer → Prop) (w : Workspace ω) (t : TaskId) (a : Activator) (w' : Workspace ω) :
    Prop where
  task : a.task = t
  gathers : Gathers p v w'.ledger fed a
  staged : w'.run.staged.Perm (a :: w.run.staged.filter fun x => x.task != t)
  run : w'.run = { w.run with staged := w'.run.staged }
  memory : w'.memory = w.memory
  later : w.ledger.Later w'.ledger
  covers : w'.ledger.Covers own (a.bound ++ heldElsewhere w.run t)

theorem awaits_of_find? (hinv : Pushing p s store v I own fed done w) {t : TaskId}
    (h : w.run.find? t = some a) : Awaits p v own fed w t a w := by
  have htask : a.task = t := by simpa using List.find?_some h
  have hperm := perm_of_find? hinv.nodup_staged h
  refine ⟨htask, hinv.gathers a ?_, hperm, rfl, rfl, Ledger.Later.refl _, hinv.covers.perm ?_⟩
  · exact List.mem_append_left _ (List.mem_of_find?_eq_some h)
  · unfold StageRun.activators heldElsewhere
    rw [List.flatMap_append, List.append_assoc, ← List.append_assoc a.bound]
    exact ((hperm.flatMap_right Activator.bound).append_right _).symm

/-- A task that nothing was fed to starts to wait; `f` is what comes then. -/
theorem awaits_of_none (hinv : Pushing p s store v I own fed done w) {t : TaskId}
    (ht : t ∈ (p.stage s).tasks) (hc : ¬ Complete p fed t) (h : w.run.find? t = none)
    {f : Activator → WorkspaceM ω Unit} {S : Unit → Workspace ω → Prop}
    (hf : ∀ a w', Awaits p v own fed w t a w' → Succeeds (f a) w' S) :
    Succeeds (do
      let a ← onLedger (Activator.ofState p t store.state)
      modifyRun (·.stage a)
      let waiting ← pure a
      f waiting) w S := by
  have hnot : ∀ x ∈ w.run.staged, x.task ≠ t := fun x hx => by
    simpa using List.find?_eq_none.mp h x hx
  have hunfed : ∀ i, ¬ fed ⟨t, i⟩ := fun i hf => by
    obtain ⟨x, hx, heq⟩ := List.mem_map.mp ((hinv.staged t).mpr ⟨ht, ⟨i, hf⟩, hc⟩)
    exact hnot x hx heq
  have hothers : (w.run.staged.filter fun x => x.task != t) = w.run.staged := by
    rw [List.filter_eq_self]
    exact fun x hx => bne_iff_ne.mpr (hnot x hx)
  refine Succeeds.bind (onLedger_spec (Activator.ofState_spec hinv.supplied.owned hinv.covers)) ?_
  rintro a _ ⟨l', ⟨htask, hlen, hin, hl, hcov⟩, rfl⟩
  refine Succeeds.bind (modifyRun_spec _) ?_
  rintro _ _ rfl
  refine hf a _ ⟨htask, ⟨by rw [htask, hlen], fun i c hc hb => ?_, fun i hi hb => ?_⟩, ?_, rfl,
    rfl, hl, ?_⟩
  · rw [htask] at hc hb
    have hx := hb.resolve_right (hunfed i)
    obtain ⟨x, hget, hlive⟩ := hinv.supplied.live (hinv.later.trans hl) hcov ht hc hx
    refine ⟨x, ?_, hlive⟩
    rw [hin i (lt_length_of_inputChannel hc), if_pos hx, hc]
    exact congrArg some hget
  · rw [htask] at hi hb
    rw [hin i hi, if_neg fun hx => hb (Or.inl hx)]
  · exact htask ▸ perm_stage w.run a
  · unfold heldElsewhere
    rw [hothers, ← List.append_assoc, ← List.append_assoc]
    refine hcov.perm ?_
    unfold StageRun.activators
    rw [List.flatMap_append]
    simp only [List.append_assoc]
    exact List.Perm.refl _

theorem mem_map_filter_task {xs : List Activator} {t u : TaskId} :
    u ∈ (xs.filter fun x => x.task != t).map Activator.task ↔
      u ∈ xs.map Activator.task ∧ u ≠ t := by
  simp only [List.mem_map, List.mem_filter, bne_iff_ne]
  constructor
  · rintro ⟨x, ⟨hx, hne⟩, rfl⟩
    exact ⟨⟨x, hx, rfl⟩, hne⟩
  · rintro ⟨⟨x, hx, rfl⟩, hne⟩
    exact ⟨x, ⟨hx, hne⟩, rfl⟩

/-- The inputs that are fed once one more is. -/
def andFed (fed : Consumer → Prop) (k : Consumer) : Consumer → Prop := fun j => fed j ∨ j = k

theorem andFed_of_ne {k : Consumer} {t : TaskId} (h : t ≠ k.task) (i : Nat) :
    andFed fed k ⟨t, i⟩ ↔ fed ⟨t, i⟩ :=
  or_iff_left fun he => h (congrArg Consumer.task he)

theorem complete_andFed_of_ne {k : Consumer} {t : TaskId} (h : t ≠ k.task) :
    Complete p (andFed fed k) t ↔ Complete p fed t := by
  unfold Complete
  simp only [andFed_of_ne h]

/-- What feeding an input leaves behind: the activator of its task is ready if it is complete, and
waits otherwise. -/
structure Feeds (p : Plan) (v : ChannelId → Payload) (own : InstanceId → Nat)
    (fed : Consumer → Prop) (w : Workspace ω) (k : Consumer) (a : Activator) (w' : Workspace ω) :
    Prop where
  task : a.task = k.task
  gathers : Gathers p v w'.ledger (andFed fed k) a
  outcome : (Complete p (andFed fed k) k.task ∧
      w'.run.staged.Perm (w.run.staged.filter fun x => x.task != k.task) ∧
      w'.run.ready = w.run.ready ++ [(a, .plain)]) ∨
    (¬ Complete p (andFed fed k) k.task ∧
      w'.run.staged.Perm (a :: w.run.staged.filter fun x => x.task != k.task) ∧
      w'.run.ready = w.run.ready)
  instances : w'.run.instances = w.run.instances
  executed : w'.run.executed = w.run.executed
  memory : w'.memory = w.memory
  later : w.ledger.Later w'.ledger
  covers : w'.ledger.Covers own (a.bound ++ heldElsewhere w.run k.task)

/-- The activators afterwards are those from before, but for the one that was fed. -/
theorem Feeds.activators {k : Consumer} {w' : Workspace ω} (h : Feeds p v own fed w k a w') :
    w'.run.activators.Perm (a :: ((w.run.staged.filter fun x => x.task != k.task) ++
      w.run.ready.map Prod.fst)) := by
  unfold StageRun.activators
  rcases h.outcome with ⟨-, hst, hr⟩ | ⟨-, hst, hr⟩
  · rw [hr, List.map_append, ← List.append_assoc]
    exact List.perm_append_comm.trans (List.Perm.cons a (hst.append_right _))
  · rw [hr]
    exact hst.append_right _

theorem Feeds.references {k : Consumer} {w' : Workspace ω} (h : Feeds p v own fed w k a w')
    {i : InstanceId} (hi : i ∈ heldElsewhere w.run k.task) : (w'.ledger.get i).references ≠ 0 :=
  h.covers.references_of_mem (List.mem_append_right _ hi)

theorem Feeds.live {k : Consumer} {w' : Workspace ω} (h : Feeds p v own fed w k a w')
    (hinv : Pushing p s store v I own fed done w) {i : InstanceId} (hi : i ∈ w.run.instances) :
    (w'.ledger.get i).channel = (w.ledger.get i).channel ∧
      (w'.ledger.get i).payload = (w.ledger.get i).payload := by
  have hr := h.references (List.mem_append_right _ (List.mem_append_right _ hi))
  have hlt := Ledger.lt_size_of_references
    (hinv.covers.references_of_mem (List.mem_append_right _ hi))
  exact ⟨h.later.channel i hlt, (h.later.payload i hlt hr).2⟩

/-- Feeding an input keeps the invariant. -/
theorem Feeds.pushing {k : Consumer} {w' : Workspace ω} (h : Feeds p v own fed w k a w')
    (hinv : Pushing p s store v I own fed done w) (hk : k.task ∈ (p.stage s).tasks)
    (hinc : ¬ Complete p fed k.task) : Pushing p s store v I own (andFed fed k) done w' := by
  have hchannels : w'.run.instances.map (fun i => (w'.ledger.get i).channel) =
      w.run.instances.map fun i => (w.ledger.get i).channel := by
    rw [h.instances]
    exact List.map_congr_left fun i hi => (h.live hinv hi).1
  have hidle : k.task ∉ done ++ w.run.ready.map fun r => r.1.task := fun hm =>
    hinc ((hinv.ready _).mp hm).2
  have hothers : ∀ t, t ∈ (w.run.staged.filter fun x => x.task != k.task).map Activator.task ↔
      t ≠ k.task ∧ t ∈ (p.stage s).tasks ∧ (∃ i, andFed fed k ⟨t, i⟩) ∧
        ¬ Complete p (andFed fed k) t := fun t => by
    rw [mem_map_filter_task, hinv.staged, and_comm]
    refine and_congr_right ?_
    intro hne
    simp only [andFed_of_ne hne, complete_andFed_of_ne hne]
  have hnodup : ((w.run.staged.filter fun x => x.task != k.task).map Activator.task).Nodup :=
    hinv.nodup_staged.sublist (List.filter_sublist.map _)
  refine {
    staged := fun t => ?staged
    nodup_staged := ?nodup_staged
    ready := fun t => ?ready
    nodup_ready := ?nodup_ready
    plain := ?plain
    gathers := ?gathers
    executed := h.executed.trans hinv.executed
    channels := ?channels
    produced := ?produced
    live := ?live
    memory := h.memory ▸ hinv.memory
    supplied := hinv.supplied
    later := hinv.later.trans h.later
    covers := ?covers }
  case staged =>
    rcases h.outcome with ⟨hc, hst, -⟩ | ⟨hc, hst, -⟩
    · rw [(hst.map _).mem_iff, hothers]
      refine and_iff_right_of_imp ?_
      intro ht he
      exact ht.2.2 (he ▸ hc)
    · rw [(hst.map _).mem_iff, List.map_cons, List.mem_cons, hothers, h.task]
      by_cases he : t = k.task
      · rw [he]
        simp only [true_or, true_iff]
        exact ⟨hk, ⟨k.input, Or.inr rfl⟩, hc⟩
      · simp [he]
  case nodup_staged =>
    rcases h.outcome with ⟨-, hst, -⟩ | ⟨-, hst, -⟩
    · exact (hst.map _).nodup_iff.mpr hnodup
    · refine (hst.map _).nodup_iff.mpr (List.nodup_cons.mpr ⟨fun hm => ?_, hnodup⟩)
      rw [h.task] at hm
      exact ((hothers _).mp hm).1 rfl
  case ready =>
    by_cases he : t = k.task
    · rcases h.outcome with ⟨hc, -, hr⟩ | ⟨hc, -, hr⟩
      · rw [hr, he]
        simp [hk, hc, h.task]
      · rw [hr, he]
        exact iff_of_false hidle fun h' => hc h'.2
    · rw [complete_andFed_of_ne he, ← hinv.ready]
      rcases h.outcome with ⟨-, -, hr⟩ | ⟨-, -, hr⟩
      · rw [hr]
        simp [h.task, he]
      · rw [hr]
  case nodup_ready =>
    rcases h.outcome with ⟨-, -, hr⟩ | ⟨-, -, hr⟩
    · rw [hr, List.map_append, ← List.append_assoc]
      refine List.nodup_append.mpr ⟨hinv.nodup_ready, by simp, fun x hx y hy => ?_⟩
      obtain rfl : y = a.task := by simpa using hy
      rintro rfl
      exact hidle (h.task ▸ hx)
    · rw [hr]
      exact hinv.nodup_ready
  case plain =>
    rcases h.outcome with ⟨-, -, hr⟩ | ⟨-, -, hr⟩
    · rw [hr]
      intro r hr'
      rcases List.mem_append.mp hr' with hr' | hr'
      · exact hinv.plain r hr'
      · rw [List.mem_singleton.mp hr']
    · rw [hr]
      exact hinv.plain
  case gathers =>
    intro x hx
    rcases List.mem_cons.mp (h.activators.mem_iff.mp hx) with rfl | hx
    · exact h.gathers
    · -- the task of another activator is another task
      have hxr : ∀ i ∈ x.bound, i ∈ heldElsewhere w.run k.task := fun i hi => by
        rcases List.mem_append.mp hx with hx | hx
        · exact List.mem_append_left _ (List.mem_flatMap.mpr ⟨x, hx, hi⟩)
        · exact List.mem_append_right _ (List.mem_append_left _ (List.mem_flatMap.mpr ⟨x, hx, hi⟩))
      have hold : x ∈ w.run.activators ∧ x.task ≠ k.task := by
        rcases List.mem_append.mp hx with hx | hx
        · obtain ⟨hx, hne⟩ := List.mem_filter.mp hx
          exact ⟨List.mem_append_left _ hx, bne_iff_ne.mp hne⟩
        · refine ⟨List.mem_append_right _ hx, fun he => hidle (List.mem_append_right _ ?_)⟩
          obtain ⟨r, hr, rfl⟩ := List.mem_map.mp hx
          exact List.mem_map.mpr ⟨r, hr, he⟩
      exact ((hinv.gathers x hold.1).later h.later fun i hi => h.references (hxr i hi)).congr
        (andFed_of_ne hold.2)
  case channels =>
    rw [hchannels]
    exact hinv.channels
  case produced =>
    rw [hchannels]
    exact hinv.produced
  case live =>
    rw [h.instances]
    intro i hi
    rw [(h.live hinv hi).1, (h.live hinv hi).2]
    exact hinv.live i hi
  case covers =>
    refine h.covers.perm ?_
    rw [h.instances]
    unfold heldElsewhere
    have hflat := h.activators.flatMap_right Activator.bound
    rw [List.flatMap_cons, List.flatMap_append] at hflat
    rw [← List.append_assoc, ← List.append_assoc, List.append_assoc a.bound]
    exact hflat.append_right _

/-- An input that is fed inside the stage and was not fed yet, and an instance to feed it. -/
structure Feedable (p : Plan) (s : StageId) (v : ChannelId → Payload) (fed : Consumer → Prop)
    (w : Workspace ω) (k : Consumer) (x : InstanceId) : Prop where
  mem : k.task ∈ (p.stage s).tasks
  inner : p.isFedExternally k.task k.input = false
  unfed : ¬ fed k
  held : x ∈ w.run.instances
  live : ∃ c, (p.graph.task k.task).inputChannel k.input = some c ∧ w.ledger.Live x c (v c)

theorem Feedable.incomplete {k : Consumer} {x : InstanceId} (h : Feedable p s v fed w k x) :
    ¬ Complete p fed k.task := by
  obtain ⟨c, hc, -⟩ := h.live
  intro hcomp
  rcases hcomp k.input (lt_length_of_inputChannel hc) with hx | hf
  · rw [h.inner] at hx
    exact absurd hx (by simp)
  · exact h.unfed hf

/-- A waiting activator binds one more input and is made ready if that was the last one: what
feeding comes to once the activator was found or made. -/
def bindInput (p : Plan) (b : Behaviour ω) (a : Activator) (input : Nat) (i : InstanceId) :
    WorkspaceM ω Unit := do
  let a ← onLedger (a.accept input i)
  modifyRun (·.stage a)
  match a.readiness p.graph b (← get).memory with
  | some activation => modifyRun (·.makeReady a activation)
  | none => Pure.pure ()

/-- An input that waits is bound. -/
theorem bindInput_spec (hp : p.IsPlain s) {k : Consumer} {x : InstanceId} {w₁ : Workspace ω}
    (hk : Feedable p s v fed w k x) (ha : Awaits p v own fed w k.task a w₁) :
    Succeeds (bindInput p b a k.input x) w₁ fun _ w' => ∃ a', Feeds p v own fed w k a' w' := by
  obtain ⟨c, hc, hlive⟩ := hk.live
  have hi := lt_length_of_inputChannel hc
  have hfree : a.inputs[k.input]? = some none := by
    refine ha.gathers.unbound k.input (ha.task ▸ hi) ?_
    rw [ha.task]
    rintro (hx | hf)
    · rw [hk.inner] at hx
      exact absurd hx (by simp)
    · exact hk.unfed hf
  have hmem : x ∈ heldElsewhere w.run k.task :=
    List.mem_append_right _ (List.mem_append_right _ hk.held)
  have hr₁ := ha.covers.references_of_mem (List.mem_append_right _ hmem)
  unfold bindInput
  refine Succeeds.bind (onLedger_spec (Activator.accept_spec hfree hr₁ ha.covers)) ?_
  rintro _ _ ⟨l₂, ⟨rfl, hl₂, hcov⟩, rfl⟩
  refine Succeeds.bind (modifyRun_spec _) ?_
  rintro _ _ rfl
  -- the activator with its new input
  have htask : (a.bind k.input x).task = k.task := ha.task
  have hgathers : Gathers p v l₂ (andFed fed k) (a.bind k.input x) := by
    have hold := ha.gathers.later hl₂ fun i hi =>
      hcov.references_of_mem (List.mem_append_left _
        ((Activator.bound_bind hfree x).mem_iff.mpr (List.mem_cons_of_mem _ hi)))
    refine ⟨(List.length_set).trans hold.length, fun j d hd hb => ?_, fun j hj hb => ?_⟩
    · by_cases he : j = k.input
      · rw [htask, he, hc] at hd
        obtain rfl : c = d := Option.some.inj hd
        refine ⟨x, ?_, (hlive.later ha.later hr₁).later hl₂
          (hcov.references_of_mem (List.mem_append_right _ hmem))⟩
        rw [he]
        exact List.getElem?_set_self (by rw [hold.length, ha.task]; exact hi)
      · have hb' : p.isFedExternally a.task j = true ∨ fed ⟨a.task, j⟩ :=
          hb.imp_right fun hf => hf.resolve_right fun heq => he (congrArg Consumer.input heq)
        obtain ⟨y, hy, hylive⟩ := hold.bound j d hd hb'
        exact ⟨y, (List.getElem?_set_ne (Ne.symm he)).trans hy, hylive⟩
    · have he : j ≠ k.input := fun he => hb (Or.inr (Or.inr (by rw [htask, he])))
      refine (List.getElem?_set_ne (Ne.symm he)).trans (hold.unbound j hj fun hb' => hb ?_)
      exact hb'.imp_right Or.inl
  have hstaged : (w₁.run.stage (a.bind k.input x)).staged.Perm (a.bind k.input x ::
      w.run.staged.filter fun y => y.task != k.task) := by
    refine (perm_stage w₁.run (a.bind k.input x)).trans (List.Perm.cons _ ?_)
    rw [htask]
    refine (ha.staged.filter _).trans ?_
    rw [List.filter_cons_of_neg (by simp [ha.task]), List.filter_filter]
    simp
  have hready : w₁.run.ready = w.run.ready := by rw [ha.run]
  have hinst : w₁.run.instances = w.run.instances := by rw [ha.run]
  have hexec : w₁.run.executed = w.run.executed := by rw [ha.run]
  have hlater := ha.later.trans hl₂
  refine Succeeds.bind Succeeds.get ?_
  rintro _ _ ⟨rfl, rfl⟩
  rcases hgathers.readiness (b := b) (hp.plain _ (htask ▸ hk.mem)) (hp.fed _ (htask ▸ hk.mem))
    w₁.memory with ⟨hcomp, hr⟩ | ⟨hcomp, hr⟩
  · simp only [hr]
    refine (modifyRun_spec _).mono ?_
    rintro _ _ rfl
    refine ⟨a.bind k.input x, htask, hgathers, Or.inl ⟨htask ▸ hcomp, ?_, ?_⟩, hinst, hexec,
      ha.memory, hlater, hcov⟩
    · refine (hstaged.filter _).trans ?_
      rw [htask, List.filter_cons_of_neg (by simp [htask]), List.filter_filter]
      simp
    · exact congrArg (· ++ [(a.bind k.input x, .plain)]) hready
  · simp only [hr]
    exact Succeeds.pure ⟨a.bind k.input x, htask, hgathers,
      Or.inr ⟨htask ▸ hcomp, hstaged, hready⟩, hinst, hexec, ha.memory, hlater, hcov⟩

/-- Feeding an input succeeds. -/
theorem feed_spec (hp : p.IsPlain s) (hinv : Pushing p s store v I own fed done w) {k : Consumer}
    {x : InstanceId} (hk : Feedable p s v fed w k x) :
    Succeeds (feed p b store.state k.task k.input x) w
      fun _ w' => ∃ a, Feeds p v own fed w k a w' := by
  unfold feed
  refine Succeeds.bind Succeeds.get ?_
  rintro _ _ ⟨rfl, rfl⟩
  cases h : w.run.find? k.task with
  | some a =>
    simp only
    exact bindInput_spec hp hk (awaits_of_find? hinv h)
  | none =>
    simp only
    exact awaits_of_none hinv hk.mem hk.incomplete h fun a w₁ ha => bindInput_spec hp hk ha

/-- What feeding leaves alone. -/
structure Frame (w w' : Workspace ω) : Prop where
  later : w.ledger.Later w'.ledger
  instances : w'.run.instances = w.run.instances

theorem Frame.trans {w₁ w₂ w₃ : Workspace ω} (h : Frame w₁ w₂) (h' : Frame w₂ w₃) : Frame w₁ w₃ :=
  ⟨h.later.trans h'.later, h'.instances.trans h.instances⟩

/-- An instance that a stage execution holds on to keeps its channel and its data. -/
theorem Frame.live {fed' : Consumer → Prop} {done' : List TaskId} {w' : Workspace ω}
    (h : Frame w w') (hinv : Pushing p s store v I own fed' done' w') {x : InstanceId}
    {c : ChannelId} {y : Payload} (hx : x ∈ w.run.instances) (hl : w.ledger.Live x c y) :
    w'.ledger.Live x c y := by
  refine hl.later h.later (hinv.covers.references_of_mem (List.mem_append_right _ ?_))
  rw [h.instances]
  exact hx

theorem Feedable.frame {fed' : Consumer → Prop} {done' : List TaskId} {w' : Workspace ω}
    {k : Consumer} {x : InstanceId} (h : Feedable p s v fed w k x) (hf : Frame w w')
    (hinv : Pushing p s store v I own fed' done' w') (hk : ¬ fed' k) :
    Feedable p s v fed' w' k x := by
  obtain ⟨c, hc, hl⟩ := h.live
  exact ⟨h.mem, h.inner, hk, hf.instances ▸ h.held, c, hc, hf.live hinv h.held hl⟩

theorem Pushing.congr {fed' : Consumer → Prop} (hinv : Pushing p s store v I own fed done w)
    (h : ∀ k, fed k ↔ fed' k) : Pushing p s store v I own fed' done w := by
  have heq : fed = fed' := funext fun k => propext (h k)
  rwa [heq] at hinv

/-- Feeding an instance to some readers, each of which was not fed yet. -/
theorem feedEach_spec (hp : p.IsPlain s) {x : InstanceId} :
    ∀ {ks : List Consumer} {fed : Consumer → Prop} {w : Workspace ω}, ks.Nodup →
      (∀ k ∈ ks, Feedable p s v fed w k x) → Pushing p s store v I own fed done w →
      Succeeds (feedEach p b store.state x ks) w fun _ w' =>
        Pushing p s store v I own (fun k => fed k ∨ k ∈ ks) done w' ∧ Frame w w'
  | [], _, w, _, _, hinv =>
    Succeeds.pure ⟨hinv.congr fun k => by simp, Ledger.Later.refl _, rfl⟩
  | k :: ks, fed, w, hn, hks, hinv => by
    obtain ⟨hnot, hn⟩ := List.nodup_cons.mp hn
    have hk := hks k List.mem_cons_self
    unfold feedEach
    refine Succeeds.bind (feed_spec hp hinv hk) ?_
    rintro _ w₁ ⟨a, hfeeds⟩
    have hinv₁ := hfeeds.pushing hinv hk.mem hk.incomplete
    have hframe : Frame w w₁ := ⟨hfeeds.later, hfeeds.instances⟩
    have hks₁ : ∀ j ∈ ks, Feedable p s v (andFed fed k) w₁ j x := fun j hj => by
      have hj' := hks j (List.mem_cons_of_mem _ hj)
      refine hj'.frame hframe hinv₁ ?_
      rintro (hf | rfl)
      · exact hj'.unfed hf
      · exact hnot hj
    refine (feedEach_spec hp hn hks₁ hinv₁).mono ?_
    rintro _ w₂ ⟨hinv₂, hframe₂⟩
    refine ⟨hinv₂.congr fun j => ?_, hframe.trans hframe₂⟩
    unfold andFed
    rw [List.mem_cons, or_assoc]

theorem Feedable.channel_eq {k : Consumer} {x : InstanceId} (h : Feedable p s v fed w k x) :
    (p.graph.task k.task).inputChannel k.input = some (w.ledger.get x).channel := by
  obtain ⟨c, hc, hl⟩ := h.live
  rw [hc, hl.1]

/-- Feeding instances of different channels to all their readers inside the stage. -/
theorem feedAll_spec (hp : p.IsPlain s) : ∀ {xs : List InstanceId} {fed : Consumer → Prop}
    {w : Workspace ω}, (xs.map fun x => (w.ledger.get x).channel).Nodup →
      (∀ x ∈ xs, x ∈ w.run.instances) →
      (∀ x ∈ xs, ∀ k ∈ innerConsumers p s (w.ledger.get x).channel, Feedable p s v fed w k x) →
      Pushing p s store v I own fed done w →
      Succeeds (feedAll p b s store.state xs) w fun _ w' => Pushing p s store v I own
        (fun k => fed k ∨ ∃ x ∈ xs, k ∈ innerConsumers p s (w.ledger.get x).channel) done w'
  | [], _, w, _, _, _, hinv => Succeeds.pure (hinv.congr fun k => by simp)
  | x :: xs, fed, w, hn, hheld, hks, hinv => by
    obtain ⟨hnot, hn⟩ := List.nodup_cons.mp hn
    have hconsumers : (innerConsumers p s (w.ledger.get x).channel).Nodup := by
      unfold innerConsumers
      simp only
      split
      · exact List.nodup_nil
      · exact (hp.wired.nodup _).filter _
    unfold feedAll
    refine Succeeds.bind Succeeds.get ?_
    rintro _ _ ⟨rfl, rfl⟩
    refine Succeeds.bind (feedEach_spec hp hconsumers (hks x List.mem_cons_self) hinv) ?_
    rintro _ w₁ ⟨hinv₁, hframe⟩
    have hchannel : ∀ y ∈ xs, (w₁.ledger.get y).channel = (w.ledger.get y).channel := fun y hy =>
      hframe.later.channel y (Ledger.lt_size_of_references (hinv.covers.references_of_mem
        (List.mem_append_right _ (hheld y (List.mem_cons_of_mem _ hy)))))
    have hmap : xs.map (fun y => (w₁.ledger.get y).channel) =
        xs.map fun y => (w.ledger.get y).channel := List.map_congr_left hchannel
    refine (feedAll_spec hp (hmap ▸ hn) (fun y hy => ?_) (fun y hy k hk => ?_) hinv₁).mono ?_
    · rw [hframe.instances]
      exact hheld y (List.mem_cons_of_mem _ hy)
    · rw [hchannel y hy] at hk
      have hky := hks y (List.mem_cons_of_mem _ hy) k hk
      refine hky.frame hframe hinv₁ ?_
      rintro (hf | hx)
      · exact hky.unfed hf
      · -- an input is fed by one channel
        have heq := hky.channel_eq.symm.trans (hks x List.mem_cons_self k hx).channel_eq
        exact hnot (List.mem_map.mpr ⟨y, hy, Option.some.inj heq⟩)
    · rintro _ w₂ hinv₂
      refine hinv₂.congr ?_
      intro k
      simp only [List.mem_cons, exists_eq_or_imp, or_assoc]
      refine or_congr_right (or_congr_right (exists_congr fun y => and_congr_right fun hy => ?_))
      rw [hchannel y hy]

/-! ## Executing a task -/

/-- The inputs that the executed tasks have fed. -/
def fedBy (p : Plan) (s : StageId) (done : List TaskId) (k : Consumer) : Prop :=
  (p.graph.task k.task).stage = some s ∧ ∃ c, (p.graph.task k.task).inputChannel k.input = some c ∧
    (p.graph.channel c).barrier = false ∧ (p.graph.channel c).producer ∈ done

theorem mem_innerConsumers (hw : p.graph.Wired) {c : ChannelId} (hc : c < p.graph.channels.length)
    {k : Consumer} : k ∈ innerConsumers p s c ↔ (p.graph.task k.task).stage = some s ∧
      (p.graph.task k.task).inputChannel k.input = some c ∧ (p.graph.channel c).barrier = false := by
  unfold innerConsumers
  rw [hw.input_iff k.task k.input c]
  cases hb : (p.graph.channel c).barrier with
  | true => simp [hb]
  | false => simp [hc, hb, and_comm]

/-- The instances that an executed task has produced. -/
structure Produces (p : Plan) (v : ChannelId → Payload) (t : TaskId) (l : Ledger)
    (is : List InstanceId) : Prop where
  channels : (is.map fun i => (l.get i).channel).Nodup
  produced : ∀ c, c ∈ is.map (fun i => (l.get i).channel) ↔
    c < p.graph.channels.length ∧ (p.graph.channel c).producer = t
  live : ∀ i ∈ is, (l.get i).payload = some (v (l.get i).channel)

theorem Carry.map_channel {is : List InstanceId} {cxs : List (ChannelId × Payload)}
    (h : Carry l is cxs) : (is.map fun i => (l.get i).channel) = cxs.map Prod.fst := by
  induction h with
  | nil => rfl
  | cons hd _ ih => rw [List.map_cons, List.map_cons, hd.1, ih]

theorem Carry.exists_of_mem {is : List InstanceId} {cxs : List (ChannelId × Payload)}
    (h : Carry l is cxs) {i : InstanceId} (hi : i ∈ is) : ∃ cx ∈ cxs, l.Live i cx.1 cx.2 := by
  induction h with
  | nil => exact absurd hi List.not_mem_nil
  | @cons j cx js cxs hd _ ih =>
    rcases List.mem_cons.mp hi with rfl | hi
    · exact ⟨cx, List.mem_cons_self, hd⟩
    · obtain ⟨cx', hcx, hl⟩ := ih hi
      exact ⟨cx', List.mem_cons_of_mem _ hcx, hl⟩

/-- Emissions on every connected output become one instance for each channel of the task. -/
theorem Carry.produces (hw : p.graph.Wired) {t : TaskId} {out : Emissions}
    (hout : ∀ o c, (p.graph.task t).outputChannel o = some c →
      ∃ e, out[o]? = some (some e) ∧ e.payload = v c)
    {is : List InstanceId} (h : Carry l is (emitted p t 0 out)) : Produces p v t l is := by
  have hval : ∀ c x, (c, x) ∈ emitted p t 0 out →
      (p.graph.channel c).producer = t ∧ c < p.graph.channels.length ∧ x = v c := by
    intro c x hcx
    obtain ⟨j, e, he, hc, rfl⟩ := mem_emitted.mp hcx
    obtain ⟨hlt, hprod, -⟩ := (hw.output_iff _ _ _).mp hc
    obtain ⟨e', he', hv⟩ := hout _ c hc
    rw [Nat.zero_add, he] at he'
    obtain rfl : e = e' := by simpa using he'
    exact ⟨hprod, hlt, hv⟩
  refine ⟨?_, fun c => ?_, fun i hi => ?_⟩
  · rw [h.map_channel]
    exact nodup_emitted hw
  · rw [h.map_channel, List.mem_map]
    constructor
    · rintro ⟨⟨d, x⟩, hd, rfl⟩
      exact ⟨(hval d x hd).2.1, (hval d x hd).1⟩
    · rintro ⟨hlt, hprod⟩
      have hc := (hw.output_iff t (p.graph.channel c).output c).mpr ⟨hlt, hprod, rfl⟩
      obtain ⟨e, he, -⟩ := hout _ c hc
      exact ⟨(c, e.payload), mem_emitted.mpr ⟨_, e, he, (Nat.zero_add _).symm ▸ hc, rfl⟩, rfl⟩
  · obtain ⟨⟨c, x⟩, hcx, hl⟩ := h.exists_of_mem hi
    rw [hl.1, hl.2, (hval c x hcx).2.2]

/-- What a stage execution holds when a ready activator has been executed, but for what its results
feed. -/
theorem Pushing.executed_next {act : Activation} {rest : List (Activator × Activation)}
    (hinv : Pushing p s store v I own fed done w) (hready : w.run.ready = (a, act) :: rest)
    {w' : Workspace ω} {is : List InstanceId} (hlater : w.ledger.Later w'.ledger)
    (hrun : w'.run = { w.run with
      ready := rest
      instances := w.run.instances ++ is
      executed := w.run.executed ++ [⟨a.task, .plain⟩] })
    (hmem : I (done ++ [a.task]) w'.memory) (his : Produces p v a.task w'.ledger is)
    (hcov : w'.ledger.Covers own (is ++ ((w.run.staged ++ rest.map Prod.fst).flatMap
      Activator.bound ++ w.run.instances))) :
    Pushing p s store v I own fed (done ++ [a.task]) w' := by
  have hkeep : ∀ i ∈ w.run.instances, (w'.ledger.get i).channel = (w.ledger.get i).channel ∧
      (w'.ledger.get i).payload = (w.ledger.get i).payload := fun i hi => by
    have hlt := Ledger.lt_size_of_references
      (hinv.covers.references_of_mem (List.mem_append_right _ hi))
    have hr := hcov.references_of_mem (List.mem_append_right is (List.mem_append_right _ hi))
    exact ⟨hlater.channel i hlt, (hlater.payload i hlt hr).2⟩
  have hold : w.run.instances.map (fun i => (w'.ledger.get i).channel) =
      w.run.instances.map fun i => (w.ledger.get i).channel :=
    List.map_congr_left fun i hi => (hkeep i hi).1
  have hperm : (done ++ [a.task] ++ rest.map fun r => r.1.task) =
      done ++ w.run.ready.map fun r => r.1.task := by
    rw [hready]
    simp
  have hnew : a.task ∉ done := fun hm => by
    have hn := hinv.nodup_ready
    rw [hready] at hn
    exact (List.nodup_append.mp hn).2.2 _ hm _ List.mem_cons_self rfl
  refine {
    staged := ?staged
    nodup_staged := ?nodup_staged
    ready := ?ready
    nodup_ready := ?nodup_ready
    plain := ?plain
    gathers := ?gathers
    executed := ?executed
    channels := ?channels
    produced := ?produced
    live := ?live
    memory := hmem
    supplied := hinv.supplied
    later := hinv.later.trans hlater
    covers := ?covers }
  case staged =>
    rw [hrun]
    exact hinv.staged
  case nodup_staged =>
    rw [hrun]
    exact hinv.nodup_staged
  case ready =>
    rw [hrun]
    intro t
    rw [hperm]
    exact hinv.ready t
  case nodup_ready =>
    rw [hrun, hperm]
    exact hinv.nodup_ready
  case plain =>
    rw [hrun]
    exact fun r hr => hinv.plain r (hready ▸ List.mem_cons_of_mem _ hr)
  case gathers =>
    intro x hx
    rw [hrun] at hx
    have hx' : x ∈ w.run.staged ++ rest.map Prod.fst := hx
    have hin : x ∈ w.run.activators := by
      unfold StageRun.activators
      rw [hready, List.map_cons]
      rcases List.mem_append.mp hx' with h | h
      · exact List.mem_append_left _ h
      · exact List.mem_append_right _ (List.mem_cons_of_mem _ h)
    refine (hinv.gathers x hin).later hlater fun i hi => hcov.references_of_mem ?_
    exact List.mem_append_right _ (List.mem_append_left _ (List.mem_flatMap.mpr ⟨x, hx', hi⟩))
  case executed =>
    rw [hrun]
    simp [hinv.executed]
  case channels =>
    rw [hrun]
    change (List.map _ (w.run.instances ++ is)).Nodup
    rw [List.map_append, hold]
    refine List.nodup_append.mpr ⟨hinv.channels, his.channels, fun c hc d hd => ?_⟩
    rintro rfl
    exact hnew (((his.produced c).mp hd).2 ▸ ((hinv.produced c).mp hc).2)
  case produced =>
    rw [hrun]
    intro c
    change c ∈ List.map _ (w.run.instances ++ is) ↔ _
    rw [List.map_append, List.mem_append, hold, hinv.produced, his.produced, ← and_or_left,
      List.mem_append, List.mem_singleton]
  case live =>
    rw [hrun]
    intro i hi
    rcases List.mem_append.mp hi with hi | hi
    · rw [(hkeep i hi).1, (hkeep i hi).2]
      exact hinv.live i hi
    · exact his.live i hi
  case covers =>
    rw [hrun]
    refine hcov.perm ?_
    change ((w.run.staged ++ rest.map Prod.fst).flatMap Activator.bound ++
      (w.run.instances ++ is)).Perm _
    rw [← List.append_assoc]
    exact List.perm_append_comm

/-- A reader inside the stage of what a task has produced can be fed. -/
theorem feedable_of_produced (hp : p.IsPlain s) {t : TaskId} (ht : t ∈ (p.stage s).tasks)
    (hnew : t ∉ done) {is : List InstanceId} (his : Produces p v t w.ledger is) {x : InstanceId}
    (hx : x ∈ is) (hheld : x ∈ w.run.instances) {k : Consumer}
    (hk : k ∈ innerConsumers p s (w.ledger.get x).channel) :
    Feedable p s v (fedBy p s done) w k x := by
  obtain ⟨hlt, hprod⟩ := (his.produced _).mp (List.mem_map.mpr ⟨x, hx, rfl⟩)
  obtain ⟨hstage, hc, hb⟩ := (mem_innerConsumers hp.wired hlt).mp hk
  refine ⟨(hp.placed _).mp hstage, ?_, ?_, hheld, _, hc, rfl, his.live x hx⟩
  · rw [isFedExternally_eq hc, hb, hprod, hstage, (hp.placed t).mpr ht]
    simp
  · rintro ⟨-, c, hc', -, hdone⟩
    obtain rfl : (w.ledger.get x).channel = c := Option.some.inj (hc.symm.trans hc')
    exact hnew (hprod ▸ hdone)

/-- What is fed once one more task has fed its readers. -/
theorem fedBy_append (hp : p.IsPlain s) {t : TaskId} {is : List InstanceId}
    (his : Produces p v t l is) (k : Consumer) : fedBy p s (done ++ [t]) k ↔
      fedBy p s done k ∨ ∃ x ∈ is, k ∈ innerConsumers p s (l.get x).channel := by
  unfold fedBy
  constructor
  · rintro ⟨hs, c, hc, hb, hd⟩
    rcases List.mem_append.mp hd with hd | hd
    · exact Or.inl ⟨hs, c, hc, hb, hd⟩
    · have hlt := ((hp.wired.input_iff _ _ _).mp hc).1
      have hprod : (p.graph.channel c).producer = t := List.mem_singleton.mp hd
      obtain ⟨x, hx, rfl⟩ := List.mem_map.mp ((his.produced c).mpr ⟨hlt, hprod⟩)
      exact Or.inr ⟨x, hx, (mem_innerConsumers hp.wired hlt).mpr ⟨hs, hc, hb⟩⟩
  · rintro (⟨hs, c, hc, hb, hd⟩ | ⟨x, hx, hk⟩)
    · exact ⟨hs, c, hc, hb, List.mem_append_left _ hd⟩
    · obtain ⟨hlt, hprod⟩ := (his.produced _).mp (List.mem_map.mpr ⟨x, hx, rfl⟩)
      obtain ⟨hs, hc, hb⟩ := (mem_innerConsumers hp.wired hlt).mp hk
      exact ⟨hs, _, hc, hb, List.mem_append_right _ (List.mem_singleton.mpr hprod)⟩

/-- Executing the first ready activator. -/
theorem executeTask_spec (hp : p.IsPlain s) (hb : ∀ t ∈ (p.stage s).tasks, Serves p b v I t)
    (hinv : Pushing p s store v I own (fedBy p s done) done w)
    {rest : List (Activator × Activation)} (hready : w.run.ready = (a, .plain) :: rest) :
    Succeeds (executeTask p b s store.state a .plain) { w with run := { w.run with ready := rest } }
      fun _ w' => Pushing p s store v I own (fedBy p s (done ++ [a.task])) (done ++ [a.task]) w' := by
  have hmem : a.task ∈ done ++ w.run.ready.map fun r => r.1.task := by
    rw [hready]
    exact List.mem_append_right _ List.mem_cons_self
  obtain ⟨ht, hcomp⟩ := (hinv.ready _).mp hmem
  have hnew : a.task ∉ done := fun hm => by
    have hn := hinv.nodup_ready
    rw [hready] at hn
    exact (List.nodup_append.mp hn).2.2 _ hm _ List.mem_cons_self rfl
  have hgathers : Gathers p v w.ledger (fedBy p s done) a := by
    refine hinv.gathers a (List.mem_append_right _ ?_)
    rw [hready]
    exact List.mem_cons_self
  have hcov : w.ledger.Covers own (a.bound ++ ((w.run.staged ++ rest.map Prod.fst).flatMap
      Activator.bound ++ w.run.instances)) := by
    refine hinv.covers.perm ?_
    unfold StageRun.activators
    rw [hready, List.map_cons, ← List.append_assoc]
    refine List.Perm.append_right _ ?_
    exact (List.perm_middle.flatMap_right Activator.bound).symm
  have hhead : (p.graph.task a.task).operator.isLoopHead = false := by
    unfold Operator.isLoopHead
    rw [hp.plain _ ht]
    rfl
  unfold executeTask
  refine Succeeds.bind Succeeds.get ?_
  rintro _ _ ⟨rfl, rfl⟩
  -- the operator computes
  refine Succeeds.bind (activate_spec (K := fun r => I (done ++ [a.task]) r.memory ∧
    ∀ o c, (p.graph.task a.task).outputChannel o = some c →
      ∃ e, r.emissions[o]? = some (some e) ∧ e.payload = v c) hgathers.length
    (hgathers.bears hcomp (hp.fed _ ht) hcov)
    (fun ctx hctx => (hb _ ht).prepare ctx _ done hctx hinv.memory)
    (fun ctx m hctx hm => (hb _ ht).evaluate ctx m done hctx hm)) ?_
  rintro _ w₁ ⟨r, ⟨hmem₁, hout⟩, rfl, hm₁, hrun₁, hl₁, hcov₁⟩
  simp only [hhead, Bool.false_eq_true, if_false]
  -- its results become instances
  refine Succeeds.bind (produce_spec hcov₁) ?_
  rintro is w₂ ⟨hcarry, hm₂, hrun₂, hl₂, hcov₂⟩
  -- the references on its inputs are given back
  refine Succeeds.bind (onLedger_spec (Activator.dispose_spec
    (hcov₂.perm (List.perm_append_comm_assoc _ _ _)))) ?_
  rintro _ _ ⟨l₃, ⟨hl₃, hcov₃⟩, rfl⟩
  refine Succeeds.bind (modifyRun_spec _) ?_
  rintro _ _ rfl
  refine Succeeds.bind (emit_spec _) ?_
  rintro _ _ ⟨events, rfl⟩
  have his : Produces p v a.task l₃ is := by
    refine Carry.produces hp.wired hout (hcarry.later hl₃ fun i hi => ?_)
    exact hcov₃.references_of_mem (List.mem_append_left _ hi)
  have hrun : w₂.run = { w.run with ready := rest } := hrun₂.trans hrun₁
  have hnext : Pushing p s store v I own (fedBy p s done) (done ++ [a.task])
      ⟨l₃, w₂.memory, events, { w₂.run with
        instances := w₂.run.instances ++ is
        executed := w₂.run.executed ++ [⟨a.task, .plain⟩] }⟩ :=
    hinv.executed_next hready ((hl₁.trans hl₂).trans hl₃) (by rw [hrun])
      (by rw [hm₂, hm₁]; exact hmem₁) his hcov₃
  have hheld : ∀ x ∈ is, x ∈ w₂.run.instances ++ is := fun x hx => List.mem_append_right _ hx
  -- and are fed to their readers
  refine (feedAll_spec hp his.channels hheld (fun x hx k hk =>
    feedable_of_produced hp ht hnew his hx (hheld x hx) hk) hnext).mono ?_
  intro _ w₄ hinv₄
  exact hinv₄.congr fun k => (fedBy_append hp his k).symm

/-! ## The whole push -/

/-- Executing ready activators, with fuel for all tasks that were not executed yet. -/
theorem drain_spec (hp : p.IsPlain s) (hb : ∀ t ∈ (p.stage s).tasks, Serves p b v I t) :
    ∀ {fuel : Nat} {done : List TaskId} {w : Workspace ω},
      (p.stage s).tasks.length ≤ done.length + fuel →
      Pushing p s store v I own (fedBy p s done) done w →
      Succeeds (drain p b s store.state fuel) w fun _ w' => ∃ done', w'.run.ready = [] ∧
        Pushing p s store v I own (fedBy p s done') done' w'
  | 0, done, w, hf, hinv => by
    refine Succeeds.pure ⟨done, ?_, hinv⟩
    -- there are no more activations than tasks
    have hlen := Digraph.length_le_of_subset hinv.nodup_ready fun t ht => ((hinv.ready t).mp ht).1
    rw [List.length_append, List.length_map] at hlen
    exact List.eq_nil_of_length_eq_zero (by omega)
  | fuel + 1, done, w, hf, hinv => by
    unfold drain
    refine Succeeds.bind Succeeds.get ?_
    rintro _ _ ⟨rfl, rfl⟩
    cases hready : w.run.ready with
    | nil =>
      simp only
      exact Succeeds.pure ⟨done, hready, hinv⟩
    | cons r rest =>
      obtain ⟨a, act⟩ := r
      obtain rfl : act = .plain := hinv.plain _ (hready ▸ List.mem_cons_self)
      simp only
      refine Succeeds.bind (modifyRun_spec _) ?_
      rintro _ _ rfl
      refine Succeeds.bind (executeTask_spec hp hb hinv hready) ?_
      intro _ w₁ hinv₁
      refine drain_spec hp hb ?_ hinv₁
      rw [List.length_append, List.length_singleton]
      omega

/-- What a push has done when no activator is ready: everything. -/
theorem Pushing.all_done (hp : p.IsPlain s)
    (hinv : Pushing p s store v I own (fedBy p s done) done w) (hready : w.run.ready = []) :
    done.Perm (p.stage s).tasks ∧ w.run.staged = [] := by
  have hdone : ∀ t, t ∈ done ↔ t ∈ (p.stage s).tasks ∧ Complete p (fedBy p s done) t := fun t => by
    have h := hinv.ready t
    rw [hready, List.map_nil, List.append_nil] at h
    exact h
  -- along the edges inside the stage: what feeds a task was executed, so the task is complete
  have hall : ∀ t ∈ (p.stage s).tasks, t ∈ done := by
    intro t ht
    refine (hp.grounded t ht).induction (C := fun t => t ∈ (p.stage s).tasks → t ∈ done) ?_ ht
    intro t ih ht
    refine (hdone t).mpr ⟨ht, fun i hi => ?_⟩
    obtain ⟨c, hc⟩ := hp.fed t ht i hi
    cases hx : p.isFedExternally t i with
    | true => exact Or.inl rfl
    | false =>
      have heq := isFedExternally_eq hc
      rw [hx, eq_comm, Bool.or_eq_false_iff, bne_eq_false_iff_eq] at heq
      have hstage := (hp.placed t).mpr ht
      have hprod := (hp.placed _).mp (heq.2.trans hstage)
      refine Or.inr ⟨hstage, c, hc, heq.1, ih _ (Relation.TransGen.single ?_) hprod⟩
      exact mem_innerProducers.mpr ⟨i, c, hc, hx, rfl⟩
  refine ⟨?_, ?_⟩
  · have hn := hinv.nodup_ready
    rw [hready, List.map_nil, List.append_nil] at hn
    exact (List.perm_ext_iff_of_nodup hn hp.nodup).mpr fun t =>
      ⟨fun h => ((hdone t).mp h).1, hall t⟩
  · by_contra hne
    obtain ⟨x, hx⟩ := List.exists_mem_of_ne_nil _ hne
    obtain ⟨ht, -, hinc⟩ := (hinv.staged x.task).mp (List.mem_map_of_mem hx)
    exact hinc ((hdone _).mp (hall _ ht)).2

/-- A stage execution starts with what the execution state has published. -/
structure Fresh (p : Plan) (s : StageId) (store : Store) (v : ChannelId → Payload)
    (I : List TaskId → ω → Prop) (own : InstanceId → Nat) (w : Workspace ω) : Prop where
  run : w.run = {}
  ledger : w.ledger = store.ledger
  memory : I [] w.memory
  supplied : Supplied p s store v own
  covers : w.ledger.Covers own []

/-- Nothing was fed inside the stage yet. -/
def unfed : Consumer → Prop := fun _ => False

/-- Some start tasks are ready, and nothing else has happened. -/
structure Seeded (p : Plan) (s : StageId) (store : Store) (v : ChannelId → Payload)
    (I : List TaskId → ω → Prop) (own : InstanceId → Nat) (ts : List TaskId) (w : Workspace ω) :
    Prop where
  tasks : w.run.ready.map (fun r => r.1.task) = ts
  run : w.run = { ready := w.run.ready }
  plain : ∀ r ∈ w.run.ready, r.2 = .plain
  gathers : ∀ r ∈ w.run.ready, Gathers p v w.ledger unfed r.1
  memory : I [] w.memory
  supplied : Supplied p s store v own
  later : store.ledger.Later w.ledger
  covers : w.ledger.Covers own ((w.run.ready.map Prod.fst).flatMap Activator.bound)

theorem seed_spec (hp : p.IsPlain s) : ∀ {ts before : List TaskId} {w : Workspace ω},
    (∀ t ∈ ts, t ∈ (p.stage s).startTasks) → Seeded p s store v I own before w →
    Succeeds (seed p b s store.state ts) w fun _ w' => Seeded p s store v I own (before ++ ts) w'
  | [], before, w, _, h => Succeeds.pure (by rwa [List.append_nil])
  | t :: ts, before, w, hts, h => by
    obtain ⟨ht, hext⟩ := (hp.start t).mp (hts t List.mem_cons_self)
    unfold seed
    refine Succeeds.bind (onLedger_spec (Activator.ofState_spec h.supplied.owned h.covers)) ?_
    rintro a _ ⟨l', ⟨htask, hlen, hin, hl, hcov⟩, rfl⟩
    refine Succeeds.bind Succeeds.get ?_
    rintro _ _ ⟨rfl, rfl⟩
    have hgathers : Gathers p v l' unfed a := by
      refine ⟨by rw [htask, hlen], fun i c hc hb => ?_, fun i hi hb => ?_⟩
      · rw [htask] at hc hb
        have hx := hb.resolve_right fun h => h
        obtain ⟨x, hget, hlive⟩ := h.supplied.live (h.later.trans hl) hcov ht hc hx
        refine ⟨x, ?_, hlive⟩
        rw [hin i (lt_length_of_inputChannel hc), if_pos hx, hc]
        exact congrArg some hget
      · rw [htask] at hi hb
        exact absurd (Or.inl (hext i hi)) hb
    have hready : a.readiness p.graph b w.memory = some .plain := by
      rcases hgathers.readiness (b := b) (by rw [htask]; exact hp.plain t ht)
        (by rw [htask]; exact hp.fed t ht) w.memory with ⟨-, hr⟩ | ⟨hinc, -⟩
      · exact hr
      · refine absurd (fun i hi => Or.inl ?_) hinc
        rw [htask] at hi ⊢
        exact hext i hi
    simp only [hready]
    refine Succeeds.bind (modifyRun_spec _) ?_
    rintro _ _ rfl
    have hnext : Seeded p s store v I own (before ++ [t]) { w with
        ledger := l', run := { w.run with ready := w.run.ready ++ [(a, .plain)] } } := by
      refine ⟨?_, ?_, ?_, ?_, h.memory, h.supplied, h.later.trans hl, ?_⟩
      · simp [h.tasks, htask]
      · change { w.run with ready := w.run.ready ++ [(a, Activation.plain)] } = _
        rw [h.run]
      · intro r hr
        rcases List.mem_append.mp hr with hr | hr
        · exact h.plain r hr
        · rw [List.mem_singleton.mp hr]
      · intro r hr
        rcases List.mem_append.mp hr with hr | hr
        · refine (h.gathers r hr).later hl fun x hx => hcov.references_of_mem ?_
          exact List.mem_append_right _ (List.mem_flatMap.mpr ⟨r.1, List.mem_map_of_mem hr, hx⟩)
        · rw [List.mem_singleton.mp hr]
          exact hgathers
      · refine hcov.perm ?_
        change (((w.run.ready ++ [(a, Activation.plain)]).map Prod.fst).flatMap
          Activator.bound).Perm _
        rw [List.map_append, List.flatMap_append]
        simpa using List.perm_append_comm
    refine (seed_spec hp (fun u hu => hts u (List.mem_cons_of_mem _ hu)) hnext).mono ?_
    intro _ w' hw'
    rwa [List.append_assoc] at hw'

/-- Before any start task is ready. -/
theorem Fresh.seeded (hw : Fresh p s store v I own w) : Seeded p s store v I own [] w := by
  refine ⟨?_, ?_, ?_, ?_, hw.memory, hw.supplied, ?_, ?_⟩
  · rw [hw.run]
    rfl
  · rw [hw.run]
  · rw [hw.run]
    exact fun r hr => absurd hr List.not_mem_nil
  · rw [hw.run]
    exact fun r hr => absurd hr List.not_mem_nil
  · rw [hw.ledger]
    exact Ledger.Later.refl _
  · rw [hw.run]
    exact hw.covers

/-- The invariant holds when all start tasks are ready: nothing was fed inside the stage. -/
theorem Seeded.pushing (hp : p.IsPlain s) (h : Seeded p s store v I own (p.stage s).startTasks w) :
    Pushing p s store v I own (fedBy p s []) [] w := by
  have hrun := h.run
  have hstaged : w.run.staged = [] := by rw [hrun]
  have hinst : w.run.instances = [] := by rw [hrun]
  have hexec : w.run.executed = [] := by rw [hrun]
  have hfed : ∀ k, ¬ fedBy p s [] k := fun k hk => by
    obtain ⟨-, c, -, -, hd⟩ := hk
    exact absurd hd List.not_mem_nil
  have hunfed : ∀ k, unfed k ↔ fedBy p s [] k := fun k => iff_of_false (fun h => h) (hfed k)
  refine Pushing.congr ?_ hunfed
  refine {
    staged := fun t => ?staged
    nodup_staged := ?nodup_staged
    ready := fun t => ?ready
    nodup_ready := ?nodup_ready
    plain := h.plain
    gathers := ?gathers
    executed := ?executed
    channels := ?channels
    produced := ?produced
    live := ?live
    memory := h.memory
    supplied := h.supplied
    later := h.later
    covers := ?covers }
  case staged =>
    rw [hstaged]
    simp [unfed]
  case nodup_staged =>
    rw [hstaged]
    exact List.nodup_nil
  case ready =>
    rw [List.nil_append, h.tasks, hp.start]
    simp [Complete, unfed]
  case nodup_ready =>
    rw [List.nil_append, h.tasks]
    exact hp.nodup_start
  case gathers =>
    unfold StageRun.activators
    rw [hstaged]
    intro a ha
    obtain ⟨r, hr, rfl⟩ := List.mem_map.mp ha
    exact h.gathers r hr
  case executed =>
    rw [hexec]
    rfl
  case channels =>
    rw [hinst]
    exact List.nodup_nil
  case produced =>
    rw [hinst]
    simp
  case live =>
    rw [hinst]
    exact fun i hi => absurd hi List.not_mem_nil
  case covers =>
    unfold StageRun.activators
    rw [hstaged, hinst, List.append_nil]
    exact h.covers

/-- What a push leaves behind. -/
structure Pushed (p : Plan) (s : StageId) (store : Store) (v : ChannelId → Payload)
    (I : List TaskId → ω → Prop) (own : InstanceId → Nat) (done : List TaskId) (w : Workspace ω) :
    Prop where
  perm : done.Perm (p.stage s).tasks
  activators : w.run.activators = []
  executed : w.run.executed = done.map fun t => ⟨t, .plain⟩
  channels : (w.run.instances.map fun i => (w.ledger.get i).channel).Nodup
  produced : ∀ c, c ∈ w.run.instances.map (fun i => (w.ledger.get i).channel) ↔
    c < p.graph.channels.length ∧ (p.graph.channel c).producer ∈ (p.stage s).tasks
  live : ∀ i ∈ w.run.instances, (w.ledger.get i).payload = some (v (w.ledger.get i).channel)
  memory : I done w.memory
  later : store.ledger.Later w.ledger
  covers : w.ledger.Covers own w.run.instances

/-- **A push executes every task of the stage once**, and every task computes from the data of its
input channels, whether they were fed inside the stage or through the execution state. -/
theorem push_spec (hp : p.IsPlain s) (hb : ∀ t ∈ (p.stage s).tasks, Serves p b v I t)
    (hw : Fresh p s store v I own w) : Succeeds (push p b s store.state) w fun _ w' =>
      ∃ done, Pushed p s store v I own done w' := by
  unfold push
  refine Succeeds.bind (seed_spec hp (fun t ht => ht) hw.seeded) ?_
  intro _ w₁ h₁
  refine (drain_spec hp hb (by simp) (Seeded.pushing hp h₁)).mono ?_
  rintro _ w₂ ⟨done, hready, hinv⟩
  obtain ⟨hperm, hstaged⟩ := hinv.all_done hp hready
  have hact : w₂.run.activators = [] := by
    unfold StageRun.activators
    rw [hstaged, hready]
    rfl
  refine ⟨done, hperm, hact, hinv.executed, hinv.channels, fun c => ?_, hinv.live,
    hinv.memory, hinv.later, ?_⟩
  · rw [hinv.produced, hperm.mem_iff]
  · have hcov := hinv.covers
    rwa [hact] at hcov

end Steps

end Workspace

end Dataflow
