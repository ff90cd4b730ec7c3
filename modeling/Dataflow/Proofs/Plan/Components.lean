import Dataflow.Proofs.Plan.Quotient
import Dataflow.Proofs.Plan.StageEnds
import Mathlib.Data.Set.Card
import Mathlib.Order.Interval.Finset.Nat

/-!
# Stages and local components

Needed tasks that channels connect and nothing keeps apart form a local component. The first runs
are these components, and each split makes one run more, so there are as many stages as components
and splits together. No split is needed iff the components, with all other edges between them, form no
cycle; then the stages are the components.

That there is one run more after each split is why the program counts its splits and why the count can
be compared with the graph. A single split adds one stage, never more: it takes a proper part off one
run, and neither joins runs nor drops one. In the other direction, if the components form no cycle the
search for a cycle of runs finds none in the first place.

* `run_firstRuns_eq_iff`: the first runs are the local components.
* `ncard_classes`: how many classes a numbering has.
* `count_of_splits`: a split makes one run more.
* `findCycle_firstRuns_eq_none_iff`: when no split is needed.
* **`assign_splits`**: components, splits and stages of every plan.
* `asideReader_joined`: a loop head that is not needed keeps no tasks apart.

On one platform and without loop heads and barriers, everything that a channel connects is joined, so
the stages are the connected components of the needed tasks and nothing is ever split.

A channel that feeds a body input is a barrier for all its readers, but only if the loop head is
needed: of other loop heads planning sees nothing, and the readers of such a channel stay with its
producer (`asideReader_joined`). Local edges are therefore stated for a set of loop heads
(`KeepsTogether`), and the theorem takes the needed ones.
-/

namespace Dataflow

/-! ## Runs -/

namespace Runs

variable {r r' : Runs}

/-- The runs form no cycle iff none can be found. -/
theorem findCycle_eq_none_iff :
    r.findCycle = none ↔ ∀ x, ¬ Relation.TransGen (Digraph.Leads r.next) x x := by
  rw [findCycle_eq]
  constructor
  · intro h x hx
    obtain ⟨y, hy, -⟩ := Relation.TransGen.head'_iff.mp hx
    have hlt := List.mem_range.mpr (mem_next.mp hy).1
    exact (Digraph.findCycle_none r.isClosed_next h x hlt).not_trans hx
  · intro h
    cases hcycle : Digraph.findCycle r.next (List.range r.count) with
    | none => rfl
    | some cycle =>
      obtain ⟨x, -, hx⟩ := (Digraph.findCycle_some r.isClosed_next hcycle).trans
      exact absurd hx (h x)

/-- Each split makes one run more. -/
theorem count_of_splits (h : Relation.ReflTransGen SplitsTo r r') :
    r'.count + r.splits = r.count + r'.splits ∧ (r' = r ∨ r.splits < r'.splits) := by
  induction h with
  | refl => exact ⟨rfl, Or.inl rfl⟩
  | tail _ hstep ih =>
    obtain ⟨cycle, run, part, -, -, rfl⟩ := hstep
    obtain ⟨hcount, hor⟩ := ih
    refine ⟨?_, Or.inr ?_⟩
    · change _ + 1 + _ = _ + (_ + 1)
      omega
    · change _ < _ + 1
      rcases hor with rfl | hlt
      · exact Nat.lt_succ_self _
      · exact Nat.lt_succ_of_lt hlt

theorem eq_of_splits_eq_zero (h : Relation.ReflTransGen SplitsTo r r') (h0 : r'.splits = 0) :
    r' = r := by
  rcases (count_of_splits h).2 with heq | hlt
  · exact heq
  · rw [h0] at hlt
    exact absurd hlt (Nat.not_lt_zero _)

theorem mem_givenBarriers {g : TaskGraph} {tasks : List TaskId} {c : ChannelId} :
    c ∈ givenBarriers g (Edge.among g tasks) ↔ ∃ t ∈ tasks, ∃ i,
      (g.task t).inputChannel i = some c ∧
        (i ∈ (g.task t).operator.bodyInputs ∨ (g.channel c).barrier = true) := by
  unfold givenBarriers
  simp only [List.mem_map, List.mem_filter, Bool.or_eq_true]
  constructor
  · rintro ⟨e, ⟨he, hor⟩, rfl⟩
    obtain ⟨t, ht, i, c, hc, rfl⟩ := mem_among_iff.mp he
    exact ⟨t, ht, i, hc, hor.imp_left List.contains_iff_mem.mp⟩
  · rintro ⟨t, ht, i, hc, hor⟩
    exact ⟨_, ⟨mem_among_iff.mpr ⟨t, ht, i, c, hc, rfl⟩,
      hor.imp_left List.contains_iff_mem.mpr⟩, rfl⟩

end Runs

/-- A numbering that uses all numbers below `n` has `n` classes. -/
theorem ncard_classes {P : Nat → Prop} {f : Nat → Nat} {n : Nat} (hlt : ∀ t, P t → f t < n)
    (hused : ∀ k < n, ∃ t, P t ∧ f t = k) :
    {C : Set Nat | ∃ t, P t ∧ C = {u | P u ∧ f u = f t}}.Finite ∧
      {C : Set Nat | ∃ t, P t ∧ C = {u | P u ∧ f u = f t}}.ncard = n := by
  have himage : {C : Set Nat | ∃ t, P t ∧ C = {u | P u ∧ f u = f t}} =
      (fun k => {u | P u ∧ f u = k}) '' Set.Iio n := by
    ext C
    constructor
    · rintro ⟨t, ht, rfl⟩
      exact ⟨f t, hlt t ht, rfl⟩
    · rintro ⟨k, hk, rfl⟩
      obtain ⟨t, ht, rfl⟩ := hused k hk
      exact ⟨t, ht, rfl⟩
  have hinj : Set.InjOn (fun k => {u | P u ∧ f u = k}) (Set.Iio n) := by
    intro k hk k' _ heq
    obtain ⟨t, ht, hft⟩ := hused k hk
    have hmem : t ∈ {u | P u ∧ f u = k} := ⟨ht, hft⟩
    rw [show {u | P u ∧ f u = k} = {u | P u ∧ f u = k'} from heq] at hmem
    exact hft.symm.trans hmem.2
  rw [himage]
  refine ⟨(Set.finite_Iio n).image _, ?_⟩
  rw [hinj.ncard_image, Set.ncard_eq_toFinset_card', Set.toFinset_Iio, Nat.card_Iio]

namespace PreliminaryPlan

/-! ## Local components -/

/-- A channel feeds a body input of one of some loop heads. -/
def FeedsBodyOf (p : PreliminaryPlan) (heads : TaskId → Prop) (c : ChannelId) : Prop :=
  ∃ t i, heads t ∧ (p.graph.task t).inputChannel i = some c ∧
    i ∈ (p.graph.task t).operator.bodyInputs

/-- Nothing keeps a task apart from the producer of a channel: they run on one platform, neither is
a loop head, and the channel is not marked as a barrier and feeds no body input. -/
def KeepsTogether (p : PreliminaryPlan) (heads : TaskId → Prop) (c : ChannelId) (t : TaskId) :
    Prop :=
  (p.graph.task (p.graph.channel c).producer).operator.platform =
      (p.graph.task t).operator.platform ∧
    (p.graph.task (p.graph.channel c).producer).isLoopHead = false ∧
    (p.graph.task t).isLoopHead = false ∧ (p.graph.channel c).barrier = false ∧
    ¬ p.FeedsBodyOf heads c

/-- A needed task reads what `u` makes, not as feedback, and nothing keeps the two apart. -/
def LocalEdge (p : PreliminaryPlan) (heads : TaskId → Prop) (u v : TaskId) : Prop :=
  p.Needs v ∧ ∃ i c, (p.graph.task v).inputChannel i = some c ∧ (p.graph.channel c).producer = u ∧
    i ∉ (p.graph.task v).operator.bodyInputs ∧ p.KeepsTogether heads c v

/-- A needed task reads what `u` makes, not as feedback, and something keeps the two apart. -/
def CrossEdge (p : PreliminaryPlan) (heads : TaskId → Prop) (u v : TaskId) : Prop :=
  p.Needs v ∧ ∃ i c, (p.graph.task v).inputChannel i = some c ∧ (p.graph.channel c).producer = u ∧
    i ∉ (p.graph.task v).operator.bodyInputs ∧ ¬ p.KeepsTogether heads c v

/-- The connected components of the needed tasks. -/
def components (p : PreliminaryPlan) (edge : TaskId → TaskId → Prop) : Set (Set TaskId) :=
  {C | ∃ t, p.Needs t ∧ C = {u | Relation.EqvGen edge t u}}

/-- An edge that is not local leads from one local component to another, or to the same one. -/
def LeadsBetween (p : PreliminaryPlan) (heads : TaskId → Prop) (C D : Set TaskId) : Prop :=
  ∃ u v, p.CrossEdge heads u v ∧ C = {t | Relation.EqvGen (p.LocalEdge heads) u t} ∧
    D = {t | Relation.EqvGen (p.LocalEdge heads) v t}

/-- All needed tasks run on one platform, and there is neither a loop head nor a barrier. -/
def IsUniform (p : PreliminaryPlan) : Prop :=
  (∀ t u, p.Needs t → p.Needs u →
    (p.graph.task t).operator.platform = (p.graph.task u).operator.platform) ∧
  (∀ t, p.Needs t → (p.graph.task t).isLoopHead = false) ∧
  ∀ t i c, p.Needs t → (p.graph.task t).inputChannel i = some c →
    (p.graph.channel c).barrier = false

/-- The stages of a plan as sets of tasks. -/
def stageSets (plan : Plan) : Set (Set TaskId) :=
  {C | ∃ s < plan.stages.length, C = {t | t ∈ (plan.stage s).tasks}}

/-- How the stages of a plan come from the local components, given the loop heads whose body inputs
keep tasks apart. -/
structure SplitsComponents (p : PreliminaryPlan) (heads : TaskId → Prop) (plan : Plan) : Prop where
  within : ∀ s < plan.stages.length, ∃ C ∈ p.components (p.LocalEdge heads),
    ∀ t ∈ (plan.stage s).tasks, t ∈ C
  count : (p.components (p.LocalEdge heads)).Finite ∧
    plan.stages.length = (p.components (p.LocalEdge heads)).ncard + plan.splits
  splits_eq_zero_iff : plan.splits = 0 ↔ ∀ C, ¬ Relation.TransGen (p.LeadsBetween heads) C C
  /-- Without a split the stages are the components, and no channel has become a barrier besides
  those that feed body inputs. -/
  unsplit : plan.splits = 0 → stageSets plan = p.components (p.LocalEdge heads) ∧
    ∀ c < p.graph.channels.length, ((plan.graph.channel c).barrier = true ↔
      (p.graph.channel c).barrier = true ∨ p.FeedsBodyOf heads c)
  /-- On one platform, without loop heads and barriers, the stages are the weakly connected
  components. -/
  uniform : p.IsUniform →
    stageSets plan = p.components (fun u v => p.Needs v ∧ p.graph.Feeds u v) ∧
      plan.stages.length = (p.components fun u v => p.Needs v ∧ p.graph.Feeds u v).ncard

variable {p : PreliminaryPlan} {plan : Plan} {r : Runs} {t u v : TaskId}

section Components

/-- The edges along which the first runs are joined. -/
theorem isLocal_firstRuns (hw : p.graph.Wired) (hs : p.SinksKnown) {i : Nat} {c : ChannelId}
    (ht : p.Needs t) (hc : (p.graph.task t).inputChannel i = some c) :
    p.firstRuns.isLocal (Edge.ofInput p.graph t i c) = true ↔
      i ∉ (p.graph.task t).operator.bodyInputs ∧ p.KeepsTogether p.Needs c t := by
  have hgiven : c ∉ Runs.givenBarriers p.graph (Edge.among p.graph p.plannedTasks) ↔
      (p.graph.channel c).barrier = false ∧ ¬ p.FeedsBodyOf p.Needs c := by
    rw [Runs.mem_givenBarriers, ← Bool.not_eq_true, ← not_or, not_iff_not]
    constructor
    · rintro ⟨v, hv, j, hcv, hj | hb⟩
      · exact Or.inr ⟨v, j, (mem_plannedTasks hw hs).mp hv, hcv, hj⟩
      · exact Or.inl hb
    · rintro (hb | ⟨v, j, hv, hcv, hj⟩)
      · exact ⟨t, (mem_plannedTasks hw hs).mpr ht, i, hc, Or.inr hb⟩
      · exact ⟨v, (mem_plannedTasks hw hs).mpr hv, j, hcv, Or.inl hj⟩
  unfold firstRuns KeepsTogether
  rw [Runs.isLocal_initial, isJoinable_ofInput]
  change _ ∧ c ∉ Runs.givenBarriers p.graph (Edge.among p.graph p.plannedTasks) ↔ _
  rw [hgiven]
  tauto

theorem localEdge_iff (hw : p.graph.Wired) (hs : p.SinksKnown) : p.LocalEdge p.Needs u v ↔
    ∃ e ∈ Edge.among p.graph p.plannedTasks, p.firstRuns.isLocal e = true ∧ e.producer = u ∧
      e.consumer = v := by
  constructor
  · rintro ⟨hv, i, c, hc, hp, hi, hkeep⟩
    exact ⟨_, Finished.edge_mem ((mem_plannedTasks hw hs).mpr hv) hc,
      (isLocal_firstRuns hw hs hv hc).mpr ⟨hi, hkeep⟩, hp, rfl⟩
  · rintro ⟨e, he, hl, rfl, rfl⟩
    obtain ⟨t, ht, i, c, hc, rfl⟩ := mem_among_iff.mp he
    have hn := (mem_plannedTasks hw hs).mp ht
    exact ⟨hn, i, c, hc, rfl, (isLocal_firstRuns hw hs hn hc).mp hl⟩

theorem joined_iff (hw : p.graph.Wired) (hs : p.SinksKnown) :
    Runs.Joined p.graph p.plannedTasks t u ↔ Relation.EqvGen (p.LocalEdge p.Needs) t u := by
  have hedges : (fun x y => (x, y) ∈ (Runs.innerEdges p.graph p.plannedTasks).map fun e =>
      (e.producer, e.consumer)) = p.LocalEdge p.Needs := by
    funext x y
    refine propext (Iff.trans ?_ (localEdge_iff hw hs).symm)
    simp only [List.mem_map, Runs.mem_innerEdges, Prod.mk.injEq, firstRuns, Runs.isLocal_initial,
      and_assoc]
  unfold Runs.Joined Digraph.Connected
  rw [hedges]

/-- **The first runs are the local components.** -/
theorem run_firstRuns_eq_iff (hw : p.graph.Wired) (hs : p.SinksKnown) (ht : p.Needs t)
    (hu : p.Needs u) : p.firstRuns.run t = p.firstRuns.run u ↔
      Relation.EqvGen (p.LocalEdge p.Needs) t u := by
  rw [← joined_iff hw hs]
  exact Runs.run_initial_eq_iff (isScope_plannedTasks hw hs) ((mem_plannedTasks hw hs).mpr ht)
    ((mem_plannedTasks hw hs).mpr hu)

/-- A local component as the tasks of a run. -/
theorem component_eq (hw : p.graph.Wired) (hs : p.SinksKnown) (ht : p.Needs t) :
    {u | Relation.EqvGen (p.LocalEdge p.Needs) t u} =
      {u | p.Needs u ∧ p.firstRuns.run u = p.firstRuns.run t} := by
  ext u
  constructor
  · intro hu
    have hmem := ((joined_iff hw hs).mpr hu).mem (isScope_plannedTasks hw hs)
    rw [mem_plannedTasks hw hs, mem_plannedTasks hw hs] at hmem
    exact ⟨hmem.mp ht, ((run_firstRuns_eq_iff hw hs ht (hmem.mp ht)).mpr hu).symm⟩
  · rintro ⟨hu, heq⟩
    exact (run_firstRuns_eq_iff hw hs ht hu).mp heq.symm

theorem components_eq (hw : p.graph.Wired) (hs : p.SinksKnown) :
    p.components (p.LocalEdge p.Needs) =
      {C | ∃ t, p.Needs t ∧ C = {u | p.Needs u ∧ p.firstRuns.run u = p.firstRuns.run t}} := by
  ext C
  refine exists_congr fun t => and_congr_right fun ht => ?_
  rw [component_eq hw hs ht]

/-- There are as many local components as first runs. -/
theorem ncard_components (hw : p.graph.Wired) (hs : p.SinksKnown) :
    (p.components (p.LocalEdge p.Needs)).Finite ∧
      (p.components (p.LocalEdge p.Needs)).ncard = p.firstRuns.count := by
  have hvalid : p.firstRuns.Valid p.graph p.plannedTasks :=
    Runs.valid_initial (isScope_plannedTasks hw hs)
  rw [components_eq hw hs]
  refine ncard_classes (fun t ht => hvalid.run_lt t ((mem_plannedTasks hw hs).mpr ht))
    fun k hk => ?_
  obtain ⟨t, ht, hrun⟩ := hvalid.occupied k hk
  exact ⟨t, (mem_plannedTasks hw hs).mp ht, hrun⟩

end Components

/-! ## Cycles of components -/

section Cycles

/-- The edges that are not local are those between the first runs. -/
theorem crossEdge_iff (hw : p.graph.Wired) (hs : p.SinksKnown) : p.CrossEdge p.Needs u v ↔
    ∃ e ∈ p.firstRuns.edges, p.firstRuns.separates e = true ∧ e.producer = u ∧ e.consumer = v := by
  have hvalid : p.firstRuns.Valid p.graph p.plannedTasks :=
    Runs.valid_initial (isScope_plannedTasks hw hs)
  have hsep : ∀ e ∈ Edge.among p.graph p.plannedTasks, (p.firstRuns.separates e = true ↔
      e.feedback = false ∧ ¬ p.firstRuns.isLocal e = true) := fun e he => by
    unfold Runs.separates
    rw [Bool.and_eq_true, Bool.not_eq_true', Bool.or_eq_true, bne_iff_ne, Bool.not_eq_true',
      Bool.not_eq_true]
    refine and_congr_right fun _ => or_iff_right_of_imp fun hne => ?_
    exact Bool.eq_false_iff.mpr fun hl => hne (hvalid.run_eq e he hl)
  constructor
  · rintro ⟨hv, i, c, hc, hp, hi, hapart⟩
    have he := Finished.edge_mem ((mem_plannedTasks hw hs).mpr hv) hc
    refine ⟨_, he, (hsep _ he).mpr ⟨Finished.feedback_ofInput.mpr hi, fun hl => ?_⟩, hp, rfl⟩
    exact hapart ((isLocal_firstRuns hw hs hv hc).mp hl).2
  · rintro ⟨e, he, hsepe, rfl, rfl⟩
    obtain ⟨hf, hl⟩ := (hsep e he).mp hsepe
    obtain ⟨t, ht, i, c, hc, rfl⟩ := mem_among_iff.mp he
    have hn := (mem_plannedTasks hw hs).mp ht
    have hi := Finished.feedback_ofInput.mp hf
    exact ⟨hn, i, c, hc, rfl, hi, fun hkeep =>
      hl ((isLocal_firstRuns hw hs hn hc).mpr ⟨hi, hkeep⟩)⟩

theorem CrossEdge.needs (h : p.CrossEdge p.Needs u v) : p.Needs u ∧ p.Needs v := by
  obtain ⟨hv, i, c, hc, rfl, -⟩ := h
  exact ⟨hv.producer hc, hv⟩

/-- Components that lead to each other are runs that do. -/
theorem exists_runs_of_leadsBetween (hw : p.graph.Wired) (hs : p.SinksKnown) {C D : Set TaskId}
    (h : Relation.TransGen (p.LeadsBetween p.Needs) C D) : ∃ u v, p.Needs u ∧ p.Needs v ∧
      C = {t | Relation.EqvGen (p.LocalEdge p.Needs) u t} ∧
      D = {t | Relation.EqvGen (p.LocalEdge p.Needs) v t} ∧
      Relation.TransGen (Digraph.Leads p.firstRuns.next) (p.firstRuns.run u)
        (p.firstRuns.run v) := by
  have hvalid : p.firstRuns.Valid p.graph p.plannedTasks :=
    Runs.valid_initial (isScope_plannedTasks hw hs)
  have hstep : ∀ u v, p.CrossEdge p.Needs u v →
      Digraph.Leads p.firstRuns.next (p.firstRuns.run u) (p.firstRuns.run v) := fun u v hcross => by
    obtain ⟨hu, hv⟩ := hcross.needs
    obtain ⟨e, he, hsep, hp, hc⟩ := (crossEdge_iff hw hs).mp hcross
    exact Runs.mem_next.mpr ⟨hvalid.run_lt u ((mem_plannedTasks hw hs).mpr hu),
      hvalid.run_lt v ((mem_plannedTasks hw hs).mpr hv), e, he, hsep, by rw [hp], by rw [hc]⟩
  induction h with
  | single hone =>
    obtain ⟨u, v, hcross, hC, hD⟩ := hone
    exact ⟨u, v, hcross.needs.1, hcross.needs.2, hC, hD, .single (hstep u v hcross)⟩
  | tail _ hone ih =>
    obtain ⟨u, w, hu, hwn, hC, hE, hpath⟩ := ih
    obtain ⟨w', v, hcross, hE', hD⟩ := hone
    -- the path arrives at the component that it leaves
    have hmem : w' ∈ {t | Relation.EqvGen (p.LocalEdge p.Needs) w t} := by
      rw [← hE, hE']
      exact Relation.EqvGen.refl w'
    have hrun := (run_firstRuns_eq_iff hw hs hwn hcross.needs.1).mpr hmem
    exact ⟨u, v, hu, hcross.needs.2, hC, hD, hpath.tail (hrun ▸ hstep w' v hcross)⟩

/-- **No split is needed iff the local components form no cycle.** -/
theorem findCycle_firstRuns_eq_none_iff (hw : p.graph.Wired) (hs : p.SinksKnown) :
    p.firstRuns.findCycle = none ↔ ∀ C, ¬ Relation.TransGen (p.LeadsBetween p.Needs) C C := by
  rw [Runs.findCycle_eq_none_iff]
  constructor
  · intro hno C hC
    obtain ⟨u, v, hu, hv, rfl, heq, hpath⟩ := exists_runs_of_leadsBetween hw hs hC
    have hmem : v ∈ {t | Relation.EqvGen (p.LocalEdge p.Needs) u t} := by
      rw [heq]
      exact Relation.EqvGen.refl v
    rw [← (run_firstRuns_eq_iff hw hs hu hv).mpr hmem] at hpath
    exact hno _ hpath
  · intro hno x hx
    refine hno {u | p.Needs u ∧ p.firstRuns.run u = x}
      (hx.lift (fun k => {u | p.Needs u ∧ p.firstRuns.run u = k}) fun a b hab => ?_)
    obtain ⟨-, -, e, he, hsep, rfl, rfl⟩ := Runs.mem_next.mp hab
    have hcross := (crossEdge_iff hw hs).mpr ⟨e, he, hsep, rfl, rfl⟩
    exact ⟨_, _, hcross, (component_eq hw hs hcross.needs.1).symm,
      (component_eq hw hs hcross.needs.2).symm⟩

end Cycles

/-! ## Stages -/

namespace Finished

/-- Where no run was split the stages are the local components. -/
theorem stageSets_eq (hw : p.graph.Wired) (hs : p.SinksKnown)
    (h : Finished p.graph p.plannedTasks p.firstRuns plan) :
    stageSets plan = p.components (p.LocalEdge p.Needs) := by
  have hscope := isScope_plannedTasks hw hs
  have htasks : ∀ t, p.Needs t → {u | u ∈ (plan.stage (p.firstRuns.place t)).tasks} =
      {u | p.Needs u ∧ p.firstRuns.run u = p.firstRuns.run t} := fun t ht => by
    ext u
    rw [Set.mem_ofPred_eq, h.mem_stage hscope, mem_plannedTasks hw hs]
    refine and_congr_right fun hu => ?_
    exact h.resolved.place_eq_iff hscope ((mem_plannedTasks hw hs).mpr hu)
      ((mem_plannedTasks hw hs).mpr ht)
  rw [components_eq hw hs]
  ext C
  constructor
  · rintro ⟨s, hlt, rfl⟩
    rw [h.length_stages] at hlt
    obtain ⟨t, ht, rfl⟩ := h.resolved.exists_place_eq hscope hlt
    have hn := (mem_plannedTasks hw hs).mp ht
    exact ⟨t, hn, htasks t hn⟩
  · rintro ⟨t, ht, rfl⟩
    refine ⟨p.firstRuns.place t, ?_, (htasks t ht).symm⟩
    rw [h.length_stages]
    exact h.resolved.place_lt_count hscope ((mem_plannedTasks hw hs).mpr ht)

/-- Where no run was split only feedback has become a barrier. -/
theorem barrier_eq_true_iff (hw : p.graph.Wired) (hs : p.SinksKnown)
    (h : Finished p.graph p.plannedTasks p.firstRuns plan) {c : ChannelId}
    (hc : c < p.graph.channels.length) : (plan.graph.channel c).barrier = true ↔
      (p.graph.channel c).barrier = true ∨ p.FeedsBodyOf p.Needs c := by
  rw [h.channel c hc]
  change ((p.graph.channel c).barrier || (Runs.givenBarriers p.graph
    (Edge.among p.graph p.plannedTasks)).contains c) = true ↔ _
  rw [Bool.or_eq_true, List.contains_iff_mem, Runs.mem_givenBarriers]
  constructor
  · rintro (hb | ⟨t, ht, i, hct, hi | hb⟩)
    · exact Or.inl hb
    · exact Or.inr ⟨t, i, (mem_plannedTasks hw hs).mp ht, hct, hi⟩
    · exact Or.inl hb
  · rintro (hb | ⟨t, i, ht, hct, hi⟩)
    · exact Or.inl hb
    · exact Or.inr ⟨t, (mem_plannedTasks hw hs).mpr ht, i, hct, Or.inl hi⟩

end Finished

/-- On one platform, without loop heads and barriers, every edge is local. -/
theorem IsUniform.keepsTogether (h : p.IsUniform) {i : Nat} {c : ChannelId} (ht : p.Needs t)
    (hc : (p.graph.task t).inputChannel i = some c) : p.KeepsTogether p.Needs c t := by
  obtain ⟨hplatform, hhead, hbarrier⟩ := h
  have hp := ht.producer hc
  refine ⟨hplatform _ _ hp ht, hhead _ hp, hhead t ht, hbarrier t i c ht hc, ?_⟩
  rintro ⟨u, j, hu, -, hj⟩
  exact Task.not_mem_bodyInputs (hhead u hu) j hj

theorem IsUniform.localEdge_eq (h : p.IsUniform) :
    p.LocalEdge p.Needs = fun u v => p.Needs v ∧ p.graph.Feeds u v := by
  funext u v
  refine propext (and_congr_right fun hv => ?_)
  constructor
  · rintro ⟨i, c, hc, hp, -⟩
    exact ⟨i, c, hc, hp⟩
  · rintro ⟨i, c, hc, hp⟩
    exact ⟨i, c, hc, hp, Task.not_mem_bodyInputs (h.2.1 v hv) i, h.keepsTogether hv hc⟩

theorem IsUniform.acyclic (h : p.IsUniform) (C : Set TaskId) :
    ¬ Relation.TransGen (p.LeadsBetween p.Needs) C C := by
  intro hC
  obtain ⟨D, ⟨u, v, ⟨hv, i, c, hc, -, -, hapart⟩, -⟩, -⟩ := Relation.TransGen.head'_iff.mp hC
  exact hapart (h.keepsTogether hv hc)

/-- No run was split iff the first runs form no cycle, and then they are the last. -/
theorem splits_eq_zero_iff (hr : p.firstRuns.resolve = .ok r)
    (hsteps : Relation.ReflTransGen Runs.SplitsTo p.firstRuns r) (hnone : r.findCycle = none) :
    r.splits = 0 ↔ p.firstRuns.findCycle = none := by
  constructor
  · intro h0
    rw [← Runs.eq_of_splits_eq_zero hsteps h0]
    exact hnone
  · intro hc
    rw [← Except.ok.inj ((Runs.resolve_of_findCycle_none hc).symm.trans hr)]
    rfl

/-- **Components, splits and stages**: a stage lies inside of a local component, and there are as
many stages as components and splits together. There is no split iff the components form no cycle,
and then the stages are the components. What counts are the body inputs of needed loop heads. -/
theorem assign_splits (hg : p.graph.Built) (h : p.assign = .ok plan) :
    p.SplitsComponents p.Needs plan := by
  obtain ⟨hs, -, ha, r, hr, hres, hm⟩ := assign_eq_ok hg h
  have hw := hg.wired
  have hscope := isScope_plannedTasks hw hs
  have hfin := finished_of_materialize hscope hres hm
  obtain ⟨r', hr', hsteps, hnone⟩ := (splittingEnds hw hs ha).ends
  obtain rfl : r = r' := Except.ok.inj (hr.symm.trans hr')
  have hsplits : plan.splits = r.splits := by
    obtain ⟨cs, rfl, -⟩ := materialize_eq_ok (hres.length_executionOrder hscope) hm
    rfl
  obtain ⟨hfinite, hncard⟩ := ncard_components hw hs
  have hlen : plan.stages.length = (p.components (p.LocalEdge p.Needs)).ncard + plan.splits := by
    rw [hfin.length_stages, hncard, hsplits]
    exact (Runs.count_of_splits hsteps).1
  have hiff : plan.splits = 0 ↔ ∀ C, ¬ Relation.TransGen (p.LeadsBetween p.Needs) C C := by
    rw [hsplits, splits_eq_zero_iff hr hsteps hnone, findCycle_firstRuns_eq_none_iff hw hs]
  have hunsplit : plan.splits = 0 → stageSets plan = p.components (p.LocalEdge p.Needs) ∧
      ∀ c < p.graph.channels.length, ((plan.graph.channel c).barrier = true ↔
        (p.graph.channel c).barrier = true ∨ p.FeedsBodyOf p.Needs c) := fun h0 => by
    obtain rfl := Runs.eq_of_splits_eq_zero hsteps (hsplits ▸ h0)
    exact ⟨hfin.stageSets_eq hw hs, fun c hc => hfin.barrier_eq_true_iff hw hs hc⟩
  refine ⟨fun s hlt => ?_, ⟨hfinite, hlen⟩, hiff, hunsplit, fun huniform => ?_⟩
  · rw [hfin.length_stages] at hlt
    obtain ⟨t, ht⟩ := List.exists_mem_of_ne_nil _ (hfin.tasks_ne_nil hscope hlt)
    have hn := (mem_plannedTasks hw hs).mp ((hfin.mem_stage hscope).mp ht).1
    exact ⟨_, ⟨t, hn, rfl⟩, fun u hu => (joined_iff hw hs).mp (hfin.joined hscope hlt ht hu)⟩
  · -- nothing keeps tasks apart, so the components are those of all edges
    have h0 := hiff.mpr huniform.acyclic
    have hsets := (hunsplit h0).1
    rw [h0, Nat.add_zero] at hlen
    rw [huniform.localEdge_eq] at hsets hlen
    exact ⟨hsets, hlen⟩

/-- Two components and one split make three stages. -/
theorem detour_splits : detour.graph.Built ∧ ∃ plan, detour.assign = .ok plan ∧
    plan.splits = 1 ∧ plan.stages.length = 3 ∧ detour.SplitsComponents detour.Needs plan ∧
    (detour.components (detour.LocalEdge detour.Needs)).ncard = 2 := by
  obtain ⟨plan, h, hsplits, hlen⟩ : ∃ plan, detour.assign = .ok plan ∧ plan.splits = 1 ∧
      plan.stages.length = 3 := exists_assign_of_decide (by decide +kernel)
  have hcomponents := assign_splits built_detour h
  have hcount := hcomponents.count.2
  exact ⟨built_detour, plan, h, hsplits, hlen, hcomponents, by omega⟩

/-- Two operators, and a loop that repeats what the first one makes but is not asked for. -/
def asideReader : PreliminaryPlan where
  graph := ((((TaskGraph.empty.addTask
    { object := 0, name := "read", platform := ⟨"a"⟩, inputs := [], outputs := [.any] }).addTask
    { object := 1, name := "show", platform := ⟨"a"⟩, inputs := [.any], outputs := [] }).addTask
    { object := 2, name := "loop", platform := ⟨"a"⟩, inputs := [.any, .any, .any, .any],
      outputs := [.any, .any, .any], loopRoles := some {} }).wire 0 0 1 0 .collection).wire
      0 0 2 2 .collection
  sinks := [1]

theorem built_asideReader : asideReader.graph.Built :=
  .wire (.wire (.addTask _ (.addTask _ (.addTask _ .empty))) rfl) rfl

/-- Were the body inputs of all loop heads to keep tasks apart, the two operators would be in
different stages; they share one, for the loop is not needed. -/
theorem asideReader_joined : asideReader.graph.Built ∧ ∃ plan, asideReader.assign = .ok plan ∧
    ¬ asideReader.SplitsComponents (fun _ => True) plan := by
  obtain ⟨plan, h, hlen, htasks⟩ : ∃ plan, asideReader.assign = .ok plan ∧
      0 < plan.stages.length ∧ (plan.stage 0).tasks = [0, 1] :=
    exists_assign_of_decide (by decide +kernel)
  have hfeeds : asideReader.FeedsBodyOf (fun _ => True) 0 := ⟨2, 2, trivial, by decide, by decide⟩
  have hnone : ∀ u v, ¬ asideReader.LocalEdge (fun _ => True) u v := by
    rintro u v ⟨-, i, c, hc, -, -, -, -, -, -, hapart⟩
    have hlt : c < 1 := ((built_asideReader.wired.input_iff v i c).mp hc).1
    obtain rfl : c = 0 := Nat.lt_one_iff.mp hlt
    exact hapart hfeeds
  -- no edge is local, so each task is a component of its own
  have hsame : ∀ {t u}, Relation.EqvGen (asideReader.LocalEdge fun _ => True) t u → t = u := by
    intro t u htu
    induction htu with
    | rel u v huv => exact absurd huv (hnone u v)
    | refl => rfl
    | symm _ _ _ ih => exact ih.symm
    | trans _ _ _ _ _ ih ih' => exact ih.trans ih'
  refine ⟨built_asideReader, plan, h, fun hsplit => ?_⟩
  obtain ⟨C, ⟨t, -, rfl⟩, hin⟩ := hsplit.within 0 hlen
  have h0 : t = 0 := hsame (hin 0 (by rw [htasks]; decide))
  have h1 : t = 1 := hsame (hin 1 (by rw [htasks]; decide))
  exact absurd (h0.symm.trans h1) (by decide)

end PreliminaryPlan

end Dataflow
