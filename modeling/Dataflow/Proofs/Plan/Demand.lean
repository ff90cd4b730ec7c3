import Dataflow.Plan.Edge
import Dataflow.Plan.Preliminary
import Dataflow.Proofs.Digraph.Reach
import Dataflow.Proofs.TaskGraph.Wiring

/-!
# What a plan asks for

A preliminary plan needs its sinks and whatever feeds a task that it needs. The first two
conditions for planning are that the sinks are known tasks and that every input of a needed task
is fed; `PreliminaryPlan.validate` decides them, in this order.

* **`mem_plannedTasks`**: the planned tasks are the needed ones.
* `mem_among_iff`: the edges between planned tasks are their fed inputs.
* `validate_eq_ok`, `validate_of_nil`, `validate_of_unknown`, `validate_of_unfed`: the outcome of a
  validation.
-/

namespace Dataflow

/-- Some input of `v` reads a channel that `u` feeds. -/
def TaskGraph.Feeds (g : TaskGraph) (u v : TaskId) : Prop :=
  ∃ i c, (g.task v).inputChannel i = some c ∧ (g.channel c).producer = u

theorem inputChannel_eq_some {t : Task} {i : Nat} {c : ChannelId} :
    t.inputChannel i = some c ↔ t.inputs[i]? = some (some c) := by
  unfold Task.inputChannel
  cases t.inputs[i]? <;> simp

theorem TaskGraph.mem_producers {g : TaskGraph} {u v : TaskId} :
    u ∈ g.producers v ↔ g.Feeds u v := by
  unfold TaskGraph.producers TaskGraph.Feeds
  simp only [List.mem_filterMap, Option.map_eq_some_iff, inputChannel_eq_some]
  constructor
  · rintro ⟨o, ho, c, rfl, hu⟩
    obtain ⟨i, hi⟩ := List.mem_iff_getElem?.mp ho
    exact ⟨i, c, hi, hu⟩
  · rintro ⟨i, c, hi, hu⟩
    exact ⟨some c, List.mem_of_getElem? hi, c, rfl, hu⟩

/-- A task that feeds nothing is a sink. -/
theorem TaskGraph.mem_sinks {g : TaskGraph} {t : TaskId} (ht : t < g.tasks.length)
    (h : ∀ o c, (g.task t).outputChannel o ≠ some c) : t ∈ g.sinks := by
  refine List.mem_filter.mpr ⟨List.mem_range.mpr ht, List.all_eq_true.mpr fun y hy => ?_⟩
  cases y with
  | none => rfl
  | some c =>
    obtain ⟨o, ho⟩ := List.mem_iff_getElem?.mp hy
    refine absurd ?_ (h o c)
    unfold Task.outputChannel
    rw [ho]
    rfl

namespace PreliminaryPlan

/-- The plan depends on a task: it is a sink, or it feeds a task that the plan depends on. -/
def Needs (p : PreliminaryPlan) (t : TaskId) : Prop :=
  ∃ s ∈ p.sinks, Relation.ReflTransGen p.graph.Feeds t s

/-- There are sinks, and all of them are tasks of the graph. -/
def SinksKnown (p : PreliminaryPlan) : Prop :=
  p.sinks ≠ [] ∧ ∀ s ∈ p.sinks, s < p.graph.tasks.length

/-- Every input of a needed task is fed. -/
def InputsFed (p : PreliminaryPlan) : Prop :=
  ∀ t, p.Needs t → ∀ i < (p.graph.task t).inputs.length,
    ((p.graph.task t).inputChannel i).isSome = true

theorem sinksKnown_ofGraph {g : TaskGraph} {t : TaskId} (h : t ∈ g.sinks) :
    (ofGraph g).SinksKnown :=
  ⟨List.ne_nil_of_mem h, fun _ hu => List.mem_range.mp (List.mem_filter.mp hu).1⟩

theorem Needs.of_sink {p : PreliminaryPlan} {t : TaskId} (h : t ∈ p.sinks) : p.Needs t :=
  ⟨t, h, Relation.ReflTransGen.refl⟩

theorem Needs.of_feeds {p : PreliminaryPlan} {u v : TaskId} (h : p.Needs v)
    (hf : p.graph.Feeds u v) : p.Needs u := by
  obtain ⟨s, hs, hr⟩ := h
  exact ⟨s, hs, Relation.ReflTransGen.head hf hr⟩

/-- The producer of what a needed task reads is needed. -/
theorem Needs.producer {p : PreliminaryPlan} {t : TaskId} {i : Nat} {c : ChannelId}
    (h : p.Needs t) (hc : (p.graph.task t).inputChannel i = some c) :
    p.Needs (p.graph.channel c).producer := h.of_feeds ⟨i, c, hc, rfl⟩

theorem reaches_producers_iff {g : TaskGraph} {s t : TaskId} :
    Digraph.Reaches g.producers s t ↔ Relation.ReflTransGen g.Feeds t s := by
  rw [← Relation.reflTransGen_swap]
  have heq : Digraph.Leads g.producers = Function.swap g.Feeds := by
    funext a b
    exact propext TaskGraph.mem_producers
  rw [← heq]

section Planned

variable {p : PreliminaryPlan}

/-- Feeding tasks are tasks of the graph. -/
theorem isClosed_producers (hg : p.graph.Wired) : Digraph.IsClosed p.graph.producers
    p.graph.taskIds := by
  intro v _ u hu
  obtain ⟨i, c, hc, rfl⟩ := TaskGraph.mem_producers.mp hu
  exact List.mem_range.mpr (hg.producer_lt ((hg.input_iff v i c).mp hc).1)

theorem mem_dependencies (hg : p.graph.Wired) (hs : p.SinksKnown) {t : TaskId} :
    t ∈ p.dependencies ↔ p.Needs t := by
  unfold dependencies Needs
  rw [Digraph.mem_closure_iff (isClosed_producers hg)
    (fun s h => List.mem_range.mpr (hs.2 s h)) (by simp [TaskGraph.taskIds])]
  simp only [reaches_producers_iff]

theorem Needs.lt (hg : p.graph.Wired) (hs : p.SinksKnown) {t : TaskId} (h : p.Needs t) :
    t < p.graph.tasks.length := by
  obtain ⟨s, hsm, hr⟩ := h
  rcases Relation.ReflTransGen.cases_head hr with rfl | ⟨u, ⟨i, c, hc, rfl⟩, -⟩
  · exact hs.2 _ hsm
  · exact hg.producer_lt ((hg.input_iff u i c).mp hc).1

/-- **The planned tasks are those that the plan depends on.** -/
theorem mem_plannedTasks (hg : p.graph.Wired) (hs : p.SinksKnown) {t : TaskId} :
    t ∈ p.plannedTasks ↔ p.Needs t := by
  unfold plannedTasks
  rw [List.mem_filter, List.contains_iff_mem, mem_dependencies hg hs]
  exact and_iff_right_of_imp fun h => List.mem_range.mpr (h.lt hg hs)

theorem nodup_plannedTasks : p.plannedTasks.Nodup := List.nodup_range.filter _

end Planned

end PreliminaryPlan

/-! ## Edges -/

theorem mem_into_iff {g : TaskGraph} {t : TaskId} {e : Edge} :
    e ∈ Edge.into g t ↔ ∃ i c, (g.task t).inputChannel i = some c ∧ e = Edge.ofInput g t i c := by
  unfold Edge.into
  simp only [List.mem_filterMap, Option.map_eq_some_iff, inputChannel_eq_some]
  constructor
  · rintro ⟨⟨o, i⟩, hm, c, rfl, rfl⟩
    exact ⟨i, c, List.mem_zipIdx_iff_getElem?.mp hm, rfl⟩
  · rintro ⟨i, c, hi, rfl⟩
    exact ⟨(some c, i), List.mem_zipIdx_iff_getElem?.mpr hi, c, rfl, rfl⟩

/-- The edges between planned tasks are the inputs of these tasks that are fed. -/
theorem mem_among_iff {g : TaskGraph} {tasks : List TaskId} {e : Edge} :
    e ∈ Edge.among g tasks ↔ ∃ t ∈ tasks, ∃ i c,
      (g.task t).inputChannel i = some c ∧ e = Edge.ofInput g t i c := by
  unfold Edge.among
  simp only [List.mem_flatMap, mem_into_iff]

/-! ## Validation -/

section ForM

variable {α ε : Type}

theorem forM_eq_ok_iff {f : α → Except ε Unit} : ∀ {xs : List α},
    xs.forM f = .ok () ↔ ∀ x ∈ xs, f x = .ok ()
  | [] => by simp [List.forM, pure, Except.pure]
  | x :: xs => by
    change (f x >>= fun _ => xs.forM f) = .ok () ↔ _
    rw [List.forall_mem_cons, ← forM_eq_ok_iff]
    cases h : f x with
    | error e => simp [bind, Except.bind]
    | ok u => simp [bind, Except.bind]

/-- A failure is that of the first element that fails. -/
theorem forM_eq_error {f : α → Except ε Unit} {e : ε} : ∀ {xs : List α},
    xs.forM f = .error e → ∃ x ∈ xs, f x = .error e
  | [], h => by simp [List.forM, pure, Except.pure] at h
  | x :: xs, h => by
    change (f x >>= fun _ => xs.forM f) = .error e at h
    cases hx : f x with
    | error e' =>
      rw [hx] at h
      exact ⟨x, List.mem_cons_self, hx.trans h⟩
    | ok u =>
      rw [hx] at h
      obtain ⟨y, hy, he⟩ := forM_eq_error h
      exact ⟨y, List.mem_cons_of_mem _ hy, he⟩

end ForM

namespace PreliminaryPlan

variable {p : PreliminaryPlan}

theorem unfedInput_eq_none_iff {g : TaskGraph} {t : TaskId} : unfedInput g t = none ↔
    ∀ i < (g.task t).inputs.length, ((g.task t).inputChannel i).isSome = true := by
  unfold unfedInput Task.inputChannel
  rw [List.findIdx?_eq_none_iff]
  constructor
  · intro h i hi
    have := h _ (List.getElem_mem hi)
    rw [List.getElem?_eq_getElem hi]
    simpa using this
  · intro h o ho
    obtain ⟨i, hi, rfl⟩ := List.getElem_of_mem ho
    have := h i hi
    rw [List.getElem?_eq_getElem hi] at this
    simpa using this

theorem validate_of_nil (h : p.sinks = []) : p.validate = .error .noTerminalTask := by
  unfold validate
  rw [h]
  rfl

/-- The checks behind the first one, given that there are sinks. -/
theorem validate_of_ne_nil (h : p.sinks ≠ []) : p.validate = (do
    p.sinks.forM p.graph.requireTask
    p.dependencies.forM fun t =>
      match unfedInput p.graph t with
      | some i => throw (.noProducer i (p.graph.taskLabel t))
      | none => .ok ()
    p.graph.channelIds.forM fun c =>
      if (p.graph.channel c).consumers.isEmpty then throw (.noConsumer (p.graph.channelLabel c))
      else .ok ()) := by
  unfold validate
  have hne : p.sinks.isEmpty = false := by simpa using h
  rw [hne]
  rfl

theorem validate_of_unknown (h : p.sinks ≠ []) {s : TaskId} (hs : s ∈ p.sinks)
    (hlt : ¬ s < p.graph.tasks.length) : ∃ t, p.validate = .error (.unknownTask t) := by
  rw [validate_of_ne_nil h]
  cases hx : p.sinks.forM p.graph.requireTask with
  | error e =>
    obtain ⟨t, -, ht⟩ := forM_eq_error hx
    by_cases hlt : t < p.graph.tasks.length
    · rw [TaskGraph.requireTask_eq_ok.mpr hlt] at ht
      exact absurd ht (by simp)
    · rw [TaskGraph.requireTask_eq_error hlt] at ht
      exact ⟨t, by rw [← Except.error.inj ht]; rfl⟩
  | ok u => exact absurd (TaskGraph.requireTask_eq_ok.mp (forM_eq_ok_iff.mp hx s hs)) hlt

theorem validate_of_known (h : p.SinksKnown) (hc : p.graph.Consumed) : p.validate =
    p.dependencies.forM fun t =>
      match unfedInput p.graph t with
      | some i => throw (.noProducer i (p.graph.taskLabel t))
      | none => .ok () := by
  have hsinks : p.sinks.forM p.graph.requireTask = .ok () :=
    forM_eq_ok_iff.mpr fun s hs => TaskGraph.requireTask_eq_ok.mpr (h.2 s hs)
  have hchannels : (p.graph.channelIds.forM fun c => if (p.graph.channel c).consumers.isEmpty then
      throw (.noConsumer (p.graph.channelLabel c)) else Except.ok ()) =
        (.ok () : Except PlanningError Unit) := by
    refine forM_eq_ok_iff.mpr fun c hcm => if_neg ?_
    simpa using hc c (List.mem_range.mp hcm)
  rw [validate_of_ne_nil h.1, hsinks, hchannels]
  generalize (p.dependencies.forM _ : Except PlanningError Unit) = x
  cases x <;> rfl

theorem validate_eq_ok (hg : p.graph.Built) (h : p.SinksKnown) (hf : p.InputsFed) :
    p.validate = .ok () := by
  rw [validate_of_known h hg.consumed, forM_eq_ok_iff]
  intro t ht
  rw [unfedInput_eq_none_iff.mpr (hf t ((mem_dependencies hg.wired h).mp ht))]

/-- An unfed input is reported for a needed task. -/
theorem validate_of_unfed (hg : p.graph.Built) (h : p.SinksKnown) (hf : ¬ p.InputsFed) :
    ∃ i t, p.validate = .error (.noProducer i t) := by
  cases hx : p.validate with
  | error e =>
    rw [validate_of_known h hg.consumed] at hx
    obtain ⟨t, -, ht⟩ := forM_eq_error hx
    split at ht
    · exact ⟨_, _, congrArg Except.error (Except.error.inj ht).symm⟩
    · exact absurd ht (by simp)
  | ok u =>
    rw [validate_of_known h hg.consumed] at hx
    refine absurd (fun t ht => unfedInput_eq_none_iff.mp ?_) hf
    have hok := forM_eq_ok_iff.mp hx t ((mem_dependencies hg.wired h).mpr ht)
    split at hok
    · exact absurd hok (by simp [throw, throwThe, MonadExceptOf.throw])
    · assumption

end PreliminaryPlan

end Dataflow
