import Dataflow.Proofs.Loop.Stages
import Dataflow.Proofs.Plan.Bodies

/-!
# The body of a while loop

The stages that the loop head leads to without passing through the head or the reader of its result
are those of the body tasks, so planning records the loop for exactly these.

* `filterMap_eq_singleton`: what the body is computed from.
* `mem_body_iff`: the stages of the body.
* **`loopHeadStage_eq`**: what is recorded.
-/

namespace Dataflow

/-- A list with one element that counts. -/
theorem filterMap_eq_singleton {α β : Type} {l : List α} {f : α → Option β} {a : α} {y : β}
    (hn : l.Nodup) (ha : a ∈ l) (hf : f a = some y) (hother : ∀ x ∈ l, x ≠ a → f x = none) :
    l.filterMap f = [y] := by
  obtain ⟨before, after, rfl⟩ := List.append_of_mem ha
  obtain ⟨-, hafter, hdisj⟩ := List.nodup_append.mp hn
  have hbefore : before.filterMap f = [] := by
    refine List.filterMap_eq_nil_iff.mpr fun x hx => hother x (List.mem_append_left _ hx) ?_
    exact hdisj x hx a List.mem_cons_self
  have hrest : after.filterMap f = [] := by
    refine List.filterMap_eq_nil_iff.mpr fun x hx => hother x (by simp [hx]) ?_
    rintro rfl
    exact (List.nodup_cons.mp hafter).1 hx
  rw [List.filterMap_append, hbefore, List.filterMap_cons_some hf, hrest]
  rfl

namespace Loops

theorem innermost_singleton (s x : StageId) (body : List StageId) :
    innermost [(s, body)] x = if x ∈ body then some s else none := by
  unfold innermost
  by_cases h : x ∈ body <;> simp [h]

end Loops

namespace PreliminaryPlan.PlansWhile

variable {p : PreliminaryPlan} {w : WhileLoop} {plan : Plan}

/-- The stages before loops are looked for. -/
def builtStages (p : PreliminaryPlan) : List Stage :=
  (List.range p.firstRuns.count).map
    (buildStage p.graph p.firstRuns p.firstRuns.place p.firstRuns.count)

theorem getD_builtStages {s : StageId} (hs : s < p.firstRuns.count) :
    (builtStages p).getD s default =
      buildStage p.graph p.firstRuns p.firstRuns.place p.firstRuns.count s :=
  Finished.getD_built hs

theorem loopHead_builtStages (hfin : Finished p.graph p.plannedTasks p.firstRuns plan) {s : StageId}
    (hs : s < p.firstRuns.count) :
    ((builtStages p).getD s default).loopHead = (plan.stage s).loopHead := by
  obtain ⟨_, hst⟩ := hfin.stage hs
  rw [getD_builtStages hs, hst]

/-- A graph in which tasks have their stages and channels are as they were. -/
structure Placed (p : PreliminaryPlan) (plan : Plan) (g : TaskGraph) : Prop where
  task : ∀ t, g.task t = plan.graph.task t
  channel : ∀ c, g.channel c = p.graph.channel c

/-- Planning records the innermost loop of each stage. -/
theorem exists_innermost (hfin : Finished p.graph p.plannedTasks p.firstRuns plan) :
    ∃ g, Placed p plan g ∧ ∀ s < p.firstRuns.count, (plan.stage s).loopHeadStage =
      Loops.innermost (Loops.bodies g (builtStages p)) s := by
  obtain ⟨g, htask, hchannel, hinner⟩ := hfin.exists_innermost
  exact ⟨g, ⟨htask, hchannel⟩, hinner⟩

section Body

variable {g : TaskGraph}

theorem stage_placed (h : p.PlansWhile w)
    (hfin : Finished p.graph p.plannedTasks p.firstRuns plan) (hg : Placed p plan g) {t : TaskId}
    (ht : t ∈ w.tasks) : (g.task t).stage = some (place p t) := by
  rw [hg.task]
  exact hfin.stage_of_mem (h.mem_planned.mpr ht)

theorem mem_readerStages_head (h : p.PlansWhile w)
    (hfin : Finished p.graph p.plannedTasks p.firstRuns plan) (hg : Placed p plan g)
    {outputs : List Nat} {x : StageId} : x ∈ Loops.readerStages g w.head outputs ↔
      ∃ o ∈ outputs, ∃ t i, w.Links w.head o t i ∧ x = place p t := by
  have hout : ∀ t, (g.task t).outputs = (p.graph.task t).outputs := fun t => by
    rw [hg.task, hfin.outputs]
  rw [Loops.mem_readerStages h.graph.built.wired hout hg.channel]
  constructor
  · rintro ⟨t, i, c, hc, hp, ho, hx⟩
    have hlinks := h.graph.links_of_input hc
    have hmem := (WhileLoop.mem_of_links hlinks).2
    rw [h.stage_placed hfin hg hmem] at hx
    exact ⟨_, ho, t, i, hp ▸ hlinks, (Option.some.inj hx).symm⟩
  · rintro ⟨o, ho, t, i, hlinks, rfl⟩
    obtain ⟨c, hc, -, -, hp, rfl⟩ := h.graph.exists_input hlinks
    exact ⟨t, i, c, hc, hp, ho, h.stage_placed hfin hg (WhileLoop.mem_of_links hlinks).2⟩

/-- The result is read by the sink. -/
theorem mem_resultReaders (h : p.PlansWhile w)
    (hfin : Finished p.graph p.plannedTasks p.firstRuns plan) (hg : Placed p plan g)
    {x : StageId} : x ∈ Loops.readerStages g w.head [2] ↔ x = place p w.sink := by
  rw [h.mem_readerStages_head hfin hg]
  constructor
  · rintro ⟨o, ho, t, i, hl, rfl⟩
    obtain rfl := List.mem_singleton.mp ho
    rw [h.graph.reader_unique hl .result]
  · rintro rfl
    exact ⟨2, List.mem_singleton_self 2, _, _, .result, rfl⟩

/-- The data of an iteration are read by the first task of the body. -/
theorem mem_iterationReaders (h : p.PlansWhile w)
    (hfin : Finished p.graph p.plannedTasks p.firstRuns plan) (hg : Placed p plan g) {t : TaskId}
    {rest : List TaskId} (hb : w.body = t :: rest) {x : StageId} :
    x ∈ Loops.readerStages g w.head [0, 1] ↔ x = place p t := by
  rw [h.mem_readerStages_head hfin hg]
  constructor
  · rintro ⟨o, ho, u, i, hl, rfl⟩
    have ho' : o = 0 := by
      rcases hl.cases with ⟨he, -⟩ | ⟨-, ho, -⟩ | ⟨before, after, hb⟩ | ⟨⟨before, hb⟩, -⟩ |
        ⟨-, ho', -⟩
      · exact absurd he.symm h.graph.distinct.source_ne_head
      · exact ho
      · exact absurd (by simp [hb]) h.graph.distinct.head_notMem
      · exact absurd (by simp [hb]) h.graph.distinct.head_notMem
      · simp [ho'] at ho
    subst ho'
    rw [h.graph.reader_unique hl (.enter hb)]
  · rintro rfl
    exact ⟨0, by simp, _, _, .enter hb, rfl⟩

/-- Whether a stage belongs neither to the head nor to the sink. -/
theorem passable_iff (h : p.PlansWhile w)
    (hfin : Finished p.graph p.plannedTasks p.firstRuns plan) (hg : Placed p plan g)
    {x : StageId} : (!(place p w.head :: Loops.readerStages g w.head [2]).contains x) = true ↔
      x ≠ place p w.head ∧ x ≠ place p w.sink := by
  rw [Bool.not_eq_true', Bool.eq_false_iff, Ne, List.contains_iff_mem, List.mem_cons, not_or,
    h.mem_resultReaders hfin hg]

/-- The stages of the body are neither that of the head nor that of the sink. -/
theorem place_body_ne (h : p.PlansWhile w) {t : TaskId} (ht : t ∈ w.body) :
    place p t ≠ place p w.head ∧ place p t ≠ place p w.sink := by
  have hmem : t ∈ w.tasks := by simp [WhileLoop.tasks, ht]
  have hbounds := h.graph.rank_bounds ht
  rw [Ne, h.place_eq_iff hmem (by simp [WhileLoop.tasks]), h.graph.rank_head, Ne,
    h.place_eq_iff hmem (by simp [WhileLoop.tasks]), h.graph.rank_sink]
  omega

/-- Neighbours in the body are in one stage, or the stage of the second one follows. -/
theorem place_eq_or_mem_successors (h : p.PlansWhile w) {u v : TaskId} {before after : List TaskId}
    (hb : w.body = before ++ u :: v :: after) : place p u = place p v ∨
      place p v ∈ ((builtStages p).getD (place p u) default).successors := by
  have hl : w.Links u 0 v 0 := .step hb
  obtain ⟨hu, hv⟩ := WhileLoop.mem_of_links hl
  obtain ⟨c, hc, -, -, rfl, -⟩ := h.graph.exists_input hl
  refine or_iff_not_imp_left.mpr ?_
  intro hne
  rw [getD_builtStages (h.place_lt_count hu), Finished.mem_successors h.valid_firstRuns]
  have hi : 0 ∉ (p.graph.task v).operator.bodyInputs := by
    rw [h.graph.mem_bodyInputs hv]
    simp
  exact ⟨h.place_lt_count hv, _, Finished.edge_mem (h.mem_planned.mpr hv) hc,
    Finished.feedback_ofInput.mpr hi, rfl, rfl, hne⟩

/-- The stages after a stage of the body are of the body, of the head or of the sink. -/
theorem exists_body_of_successor (h : p.PlansWhile w) {t : TaskId} (ht : t ∈ w.body) {x : StageId}
    (hx : x ∈ ((builtStages p).getD (place p t) default).successors) :
    x = place p w.head ∨ ∃ v ∈ w.body, place p v = x := by
  have hmem : t ∈ w.tasks := by simp [WhileLoop.tasks, ht]
  rw [getD_builtStages (h.place_lt_count hmem), Finished.mem_successors h.valid_firstRuns] at hx
  obtain ⟨-, e, he, -, hprod, rfl, -⟩ := hx
  obtain ⟨v, -, i, c, hc, rfl⟩ := mem_among_iff.mp he
  have hl := h.graph.links_of_input hc
  obtain ⟨hu, hv⟩ := WhileLoop.mem_of_links hl
  have hub : (p.graph.channel c).producer ∈ w.body := by
    rcases h.graph.eq_or_mem_body hu hmem ((h.place_eq_iff hu hmem).mp hprod) with heq | ⟨hub, -⟩
    · rwa [heq]
    · exact hub
  obtain ⟨-, -, hsb, -, hhb, -, -⟩ := h.graph.distinct
  rcases hl.cases with ⟨he, -⟩ | ⟨he, -⟩ | ⟨before, after, hb⟩ | ⟨-, he⟩ | ⟨he, -⟩
  · exact absurd (he ▸ hub) hsb
  · exact absurd (he ▸ hub) hhb
  · exact Or.inr ⟨v, (WhileLoop.mem_of_step hb).2, rfl⟩
  · exact Or.inl (congrArg (place p) he)
  · exact absurd (he ▸ hub) hhb

/-- **The body of the loop are the stages of the body tasks.** -/
theorem mem_body_iff (h : p.PlansWhile w)
    (hfin : Finished p.graph p.plannedTasks p.firstRuns plan) (hg : Placed p plan g)
    {x : StageId} : x ∈ Loops.body g (builtStages p) (place p w.head) w.head {} ↔
      ∃ t ∈ w.body, place p t = x := by
  obtain ⟨first, rest, hfirst⟩ := List.exists_cons_of_ne_nil h.graph.nonempty
  have hmemfirst : first ∈ w.body := by simp [hfirst]
  let next (x : StageId) : List StageId :=
    ((builtStages p).getD x default).successors.filter fun y =>
      !(place p w.head :: Loops.readerStages g w.head [2]).contains y
  let entries : List StageId := (Loops.readerStages g w.head [0, 1]).filter fun y =>
    !(place p w.head :: Loops.readerStages g w.head [2]).contains y
  have hlen : (builtStages p).length = p.firstRuns.count := by simp [builtStages]
  have hnext : ∀ x y, y ∈ next x ↔ y ∈ ((builtStages p).getD x default).successors ∧
      y ≠ place p w.head ∧ y ≠ place p w.sink := fun x y => by
    rw [List.mem_filter, h.passable_iff hfin hg]
  have hentries : ∀ y, y ∈ entries ↔ y = place p first := fun y => by
    rw [List.mem_filter, h.passable_iff hfin hg, h.mem_iterationReaders hfin hg hfirst]
    exact ⟨And.left, fun he => ⟨he, he ▸ h.place_body_ne hmemfirst⟩⟩
  have hclosed : Digraph.IsClosed next (List.range p.firstRuns.count) := by
    intro x hx y hy
    have hsucc := ((hnext x y).mp hy).1
    rw [getD_builtStages (List.mem_range.mp hx), Finished.mem_successors h.valid_firstRuns] at hsucc
    exact List.mem_range.mpr hsucc.1
  have hstarts : ∀ y ∈ entries, y ∈ List.range p.firstRuns.count := fun y hy => by
    rw [(hentries y).mp hy]
    exact List.mem_range.mpr (h.place_lt_count (by simp [WhileLoop.tasks, hmemfirst]))
  have hbody : Loops.body g (builtStages p) (place p w.head) w.head {} =
      Digraph.closure next (builtStages p).length entries := rfl
  rw [hbody, Digraph.mem_closure_iff hclosed hstarts (by rw [List.length_range, hlen])]
  constructor
  · rintro ⟨y, hy, hr⟩
    obtain rfl := (hentries y).mp hy
    induction hr with
    | refl => exact ⟨first, hmemfirst, rfl⟩
    | tail _ hs ih =>
      obtain ⟨t, ht, rfl⟩ := ih
      obtain ⟨hsucc, hne, -⟩ := (hnext _ _).mp hs
      exact (h.exists_body_of_successor ht hsucc).resolve_left hne
  · rintro ⟨t, ht, rfl⟩
    refine ⟨place p first, (hentries _).mpr rfl, ?_⟩
    -- along the body each stage is left for the next one
    have hwalk : ∀ {after before : List TaskId} {u v : TaskId}, w.body = before ++ u :: after →
        v ∈ after → Digraph.Reaches next (place p u) (place p v) := by
      intro after
      induction after with
      | nil => exact fun _ hv => absurd hv List.not_mem_nil
      | cons u' after ih =>
        intro before u v hb hv
        have hb' : w.body = (before ++ [u]) ++ u' :: after := by simpa using hb
        have hstep : Digraph.Reaches next (place p u) (place p u') := by
          rcases h.place_eq_or_mem_successors hb with heq | hsucc
          · exact heq ▸ Relation.ReflTransGen.refl
          · exact .single ((hnext _ _).mpr ⟨hsucc, h.place_body_ne (WhileLoop.mem_of_step hb).2⟩)
        rcases List.mem_cons.mp hv with rfl | hv
        · exact hstep
        · exact hstep.trans (ih hb' hv)
    have hb : w.body = [] ++ first :: rest := hfirst
    rcases List.mem_cons.mp (hfirst ▸ ht) with rfl | ht
    · exact Relation.ReflTransGen.refl
    · exact hwalk hb ht

/-- There is one loop. -/
theorem bodies_eq (h : p.PlansWhile w)
    (hfin : Finished p.graph p.plannedTasks p.firstRuns plan) (hg : Placed p plan g) :
    Loops.bodies g (builtStages p) =
      [(place p w.head, Loops.body g (builtStages p) (place p w.head) w.head {})] := by
  have hhead : w.head ∈ w.tasks := by simp [WhileLoop.tasks]
  have hlen : (builtStages p).length = p.firstRuns.count := by simp [builtStages]
  have hbuilt : ∀ {u : TaskId}, u ∈ w.tasks →
      ((builtStages p).getD (place p u) default).loopHead =
        if u = w.head then some w.head else none := fun {u} hu => by
    rw [loopHead_builtStages hfin (h.place_lt_count hu), h.loopHead_eq hfin hu]
  have hroles : (g.task w.head).operator.loopRoles = some {} := by
    rw [hg.task, hfin.operator, h.graph.roles]
  refine filterMap_eq_singleton List.nodup_range
    (List.mem_range.mpr (hlen ▸ h.place_lt_count hhead)) ?_ fun s hs hne => ?_
  · rw [hbuilt hhead, if_pos rfl]
    simp [hroles]
  · obtain ⟨u, hu, rfl⟩ := h.exists_place (hlen ▸ List.mem_range.mp hs)
    have hnot : u ≠ w.head := fun he => hne (he ▸ rfl)
    rw [hbuilt hu, if_neg hnot]
    rfl

end Body

/-- **Planning records the loop for the stages of the body tasks**, and for no others. -/
theorem loopHeadStage_eq (h : p.PlansWhile w)
    (hfin : Finished p.graph p.plannedTasks p.firstRuns plan) {u : TaskId} (hu : u ∈ w.tasks) :
    (plan.stage (place p u)).loopHeadStage = if u ∈ w.body then some (place p w.head) else none := by
  obtain ⟨g, hg, hinner⟩ := exists_innermost hfin
  rw [hinner _ (h.place_lt_count hu), h.bodies_eq hfin hg, Loops.innermost_singleton]
  refine if_congr ((h.mem_body_iff hfin hg).trans ⟨?_, fun hb => ⟨u, hb, rfl⟩⟩) rfl rfl
  rintro ⟨t, ht, heq⟩
  have hmem : t ∈ w.tasks := by simp [WhileLoop.tasks, ht]
  rcases h.graph.eq_or_mem_body hmem hu ((h.place_eq_iff hmem hu).mp heq) with rfl | ⟨-, hub⟩
  · exact ht
  · exact hub

end PreliminaryPlan.PlansWhile

end Dataflow
