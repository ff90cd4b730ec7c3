import Dataflow.Proofs.Loop.Nested.Shape

/-!
# The bodies of loops inside of loops

The body of the outer loop are the head of the inner loop, the body of that one, and what closes the
outer iteration. A stage belongs to the smallest body that contains it, so of these three only the
inner head and the closing task belong to the outer loop.

* `mem_body_iff`: the bodies of the two loops.
* **`PlansNested.loopHeadStage_eq`**: what planning records.
-/

namespace Dataflow

namespace NestedLoop

/-- The stage of a part. -/
abbrev place (p : PreliminaryPlan) (w : NestedLoop) (k : Part) : StageId := p.firstRuns.place (w k)

namespace Part

/-- The parts between a head and the reader of its result. -/
def body : Part → List Part
  | .outer => [.inner, .step, .close]
  | .inner => [.step]
  | _ => []

/-- The head of the smallest body that contains a part. -/
def home : Part → Option Part
  | .inner | .close => some .outer
  | .step => some .inner
  | _ => none

/-- A part ends the search for the body of a head: the head, or a reader of its result. -/
def Stops (k l : Part) : Prop := l = k ∨ ∃ x ∈ links, x.1 = k ∧ x.2.1 ∈ [2] ∧ x.2.2.1 = l

instance (k l : Part) : Decidable (Stops k l) := inferInstanceAs (Decidable (_ ∨ _))

/-- The search for the body of a head starts from a part. -/
def Starts (k l : Part) : Prop :=
  (∃ x ∈ links, x.1 = k ∧ x.2.1 ∈ [0, 1] ∧ x.2.2.1 = l) ∧ ¬ Stops k l

instance (k l : Part) : Decidable (Starts k l) := inferInstanceAs (Decidable (_ ∧ _))

theorem mem_body_of_starts : ∀ k l : Part, k.isHead = true → Starts k l → l ∈ k.body := by decide

theorem mem_body_of_before : ∀ k l l' : Part, k.isHead = true → l ∈ k.body → l'.before = some l →
    ¬ Stops k l' → l' ∈ k.body := by decide

theorem starts_or_before : ∀ k l : Part, k.isHead = true → l ∈ k.body →
    Starts k l ∨ ∃ l', Starts k l' ∧ l.before = some l' ∧ ¬ Stops k l := by decide

theorem nodup_body : ∀ k : Part, k.body.Nodup := by decide

theorem home_eq_some : ∀ k l : Part, l.home = some k → k.isHead = true ∧ l ∈ k.body ∧
    ∀ k' : Part, k'.isHead = true → l ∈ k'.body → k' = k ∨ k.body.length < k'.body.length := by
  decide

theorem home_eq_none : ∀ l : Part, l.home = none → ∀ k : Part, k.isHead = true → l ∉ k.body := by
  decide

end Part

end NestedLoop

namespace PreliminaryPlan.PlansNested

open NestedLoop PlansWhile

variable {p : PreliminaryPlan} {w : NestedLoop} {plan : Plan} (h : p.PlansNested w)
include h

theorem place_inj {k l : Part} : place p w k = place p w l ↔ k = l := by
  rw [h.keepsApart.place_inj (h.needs k) (h.needs l)]
  exact h.graph.injective.eq_iff

theorem place_lt (k : Part) : place p w k < p.firstRuns.count := h.keepsApart.place_lt (h.needs k)

theorem exists_place {s : StageId} (hs : s < p.firstRuns.count) : ∃ k, place p w k = s := by
  obtain ⟨t, ht, rfl⟩ := h.keepsApart.exists_place hs
  obtain ⟨k, rfl⟩ := h.needs_iff.mp ht
  exact ⟨k, rfl⟩

theorem mem_successors {k : Part} {y : StageId} :
    y ∈ ((builtStages p).getD (place p w k) default).successors ↔
      ∃ l : Part, l.before = some k ∧ y = place p w l := by
  rw [h.keepsApart.mem_successors (h.needs k)]
  constructor
  · rintro ⟨u, hf, rfl⟩
    obtain ⟨l, rfl⟩ := h.needs_iff.mp hf.1
    obtain ⟨k', hk', heq⟩ := h.forward_iff.mp hf
    obtain rfl := h.graph.injective heq
    exact ⟨l, hk', rfl⟩
  · rintro ⟨l, hl, rfl⟩
    exact ⟨w l, h.forward_iff.mpr ⟨k, hl, rfl⟩, rfl⟩

section Body

variable {g : TaskGraph} (hfin : Finished p.graph p.plannedTasks p.firstRuns plan)
  (hg : Placed p plan g)
include hfin hg

theorem mem_readerStages {k : Part} {outputs : List Nat} {y : StageId} :
    y ∈ Loops.readerStages g (w k) outputs ↔
      ∃ x ∈ Part.links, x.1 = k ∧ x.2.1 ∈ outputs ∧ y = place p w x.2.2.1 := by
  have hout : ∀ t, (g.task t).outputs = (p.graph.task t).outputs := fun t => by
    rw [hg.task, hfin.outputs]
  have hstage : ∀ l, (g.task (w l)).stage = some (place p w l) := fun l => by
    rw [hg.task]
    exact hfin.stage_of_mem (h.keepsApart.mem_planned.mpr (h.needs l))
  rw [Loops.mem_readerStages h.graph.built.wired hout hg.channel]
  constructor
  · rintro ⟨t, i, c, hc, hp, ho, hy⟩
    obtain ⟨l, rfl⟩ := h.graph.exists_part.mpr (TaskGraph.inputChannel_lt hc)
    obtain ⟨k', hlink, hk'⟩ := h.graph.links_of_input hc
    obtain rfl := h.graph.injective (hk'.trans hp)
    rw [hstage] at hy
    exact ⟨_, hlink, rfl, ho, (Option.some.inj hy).symm⟩
  · rintro ⟨⟨k', o, l, i⟩, hlink, rfl, ho, rfl⟩
    obtain ⟨c, hc, -, -, hp, rfl⟩ := h.graph.exists_input hlink
    exact ⟨w l, i, c, hc, hp, ho, hstage l⟩

/-- Where the search for a body goes on. -/
theorem passable_iff {k l : Part} :
    (!(place p w k :: Loops.readerStages g (w k) [2]).contains (place p w l)) = true ↔
      ¬ Part.Stops k l := by
  rw [Bool.not_eq_true', Bool.eq_false_iff, Ne, List.contains_iff_mem, List.mem_cons,
    h.mem_readerStages hfin hg, h.place_inj]
  refine not_congr (or_congr_right ?_)
  constructor
  · rintro ⟨x, hx, hk, ho, hl⟩
    exact ⟨x, hx, hk, ho, (h.place_inj.mp hl).symm⟩
  · rintro ⟨x, hx, hk, ho, rfl⟩
    exact ⟨x, hx, hk, ho, rfl⟩

/-- **The body of each loop.** -/
theorem mem_body_iff {k : Part} (hk : k.isHead = true) :
    (∀ y, y ∈ Loops.body g (builtStages p) (place p w k) (w k) {} ↔
      y ∈ k.body.map (place p w)) ∧
    (Loops.body g (builtStages p) (place p w k) (w k) {}).Nodup := by
  let next (y : StageId) : List StageId :=
    ((builtStages p).getD y default).successors.filter fun z =>
      !(place p w k :: Loops.readerStages g (w k) [2]).contains z
  let entries : List StageId := (Loops.readerStages g (w k) [0, 1]).filter fun z =>
    !(place p w k :: Loops.readerStages g (w k) [2]).contains z
  have hlen : (builtStages p).length = p.firstRuns.count := by simp [builtStages]
  have hnext : ∀ l y, y ∈ next (place p w l) ↔
      ∃ l' : Part, l'.before = some l ∧ ¬ Part.Stops k l' ∧ y = place p w l' := fun l y => by
    rw [List.mem_filter, h.mem_successors]
    constructor
    · rintro ⟨⟨l', hl', rfl⟩, hpass⟩
      exact ⟨l', hl', (h.passable_iff hfin hg).mp hpass, rfl⟩
    · rintro ⟨l', hl', hpass, rfl⟩
      exact ⟨⟨l', hl', rfl⟩, (h.passable_iff hfin hg).mpr hpass⟩
  have hentries : ∀ y, y ∈ entries ↔ ∃ l, Part.Starts k l ∧ y = place p w l := fun y => by
    rw [List.mem_filter, h.mem_readerStages hfin hg]
    constructor
    · rintro ⟨⟨x, hx, hxk, ho, rfl⟩, hpass⟩
      exact ⟨_, ⟨⟨x, hx, hxk, ho, rfl⟩, (h.passable_iff hfin hg).mp hpass⟩, rfl⟩
    · rintro ⟨l, ⟨⟨x, hx, hxk, ho, rfl⟩, hpass⟩, rfl⟩
      exact ⟨⟨x, hx, hxk, ho, rfl⟩, (h.passable_iff hfin hg).mpr hpass⟩
  have hclosed : Digraph.IsClosed next (List.range p.firstRuns.count) := by
    intro y hy z hz
    obtain ⟨l, rfl⟩ := h.exists_place (List.mem_range.mp hy)
    obtain ⟨l', -, -, rfl⟩ := (hnext _ _).mp hz
    exact List.mem_range.mpr (h.place_lt l')
  have hstarts : ∀ y ∈ entries, y ∈ List.range p.firstRuns.count := fun y hy => by
    obtain ⟨l, -, rfl⟩ := (hentries y).mp hy
    exact List.mem_range.mpr (h.place_lt l)
  have hbound : (List.range p.firstRuns.count).length ≤ (builtStages p).length := by
    rw [List.length_range, hlen]
  have hbody : Loops.body g (builtStages p) (place p w k) (w k) {} =
      Digraph.closure next (builtStages p).length entries := rfl
  refine ⟨fun y => ?_, hbody ▸ Digraph.nodup_closure hclosed hstarts hbound⟩
  rw [hbody, Digraph.mem_closure_iff hclosed hstarts hbound, List.mem_map]
  constructor
  · rintro ⟨y, hy, hr⟩
    obtain ⟨l, hl, rfl⟩ := (hentries y).mp hy
    induction hr with
    | refl => exact ⟨l, Part.mem_body_of_starts k l hk hl, rfl⟩
    | tail _ hs ih =>
      obtain ⟨l', hl', rfl⟩ := ih
      obtain ⟨l'', hbefore, hstop, rfl⟩ := (hnext _ _).mp hs
      exact ⟨l'', Part.mem_body_of_before k l' l'' hk hl' hbefore hstop, rfl⟩
  · rintro ⟨l, hl, rfl⟩
    rcases Part.starts_or_before k l hk hl with hs | ⟨l', hs, hbefore, hstop⟩
    · exact ⟨_, (hentries _).mpr ⟨l, hs, rfl⟩, .refl⟩
    · exact ⟨_, (hentries _).mpr ⟨l', hs, rfl⟩, .single ((hnext _ _).mpr ⟨l, hbefore, hstop, rfl⟩)⟩

theorem length_body {k : Part} (hk : k.isHead = true) :
    (Loops.body g (builtStages p) (place p w k) (w k) {}).length = k.body.length := by
  obtain ⟨hmem, hnodup⟩ := h.mem_body_iff hfin hg hk
  have hmap : (k.body.map (place p w)).Nodup :=
    k.nodup_body.map fun _ _ heq => h.place_inj.mp heq
  rw [((List.perm_ext_iff_of_nodup hnodup hmap).mpr hmem).length_eq, List.length_map]

/-- The two loops. -/
theorem mem_bodies {s : StageId} {body : List StageId} :
    (s, body) ∈ Loops.bodies g (builtStages p) ↔ ∃ k : Part, k.isHead = true ∧
      s = place p w k ∧ body = Loops.body g (builtStages p) (place p w k) (w k) {} := by
  have hlen : (builtStages p).length = p.firstRuns.count := by simp [builtStages]
  have hbuilt : ∀ k, ((builtStages p).getD (place p w k) default).loopHead =
      if k.isHead = true then some (w k) else none := fun k => by
    rw [loopHead_builtStages hfin (h.place_lt k), h.keepsApart.loopHead_place hfin (h.needs k),
      h.graph.isLoopHead_eq]
  have hroles : ∀ k, (g.task (w k)).operator.loopRoles =
      if k.isHead = true then some {} else none := fun k => by
    rw [hg.task, hfin.operator, h.graph.roles]
  rw [Loops.mem_bodies, hlen]
  constructor
  · rintro ⟨hs, t, roles, ht, hr, rfl⟩
    obtain ⟨k, rfl⟩ := h.exists_place hs
    rw [hbuilt] at ht
    by_cases hk : k.isHead = true
    · rw [if_pos hk] at ht
      obtain rfl := Option.some.inj ht
      rw [hroles, if_pos hk] at hr
      obtain rfl := Option.some.inj hr
      exact ⟨k, hk, rfl, rfl⟩
    · rw [if_neg hk] at ht
      exact absurd ht (by simp)
  · rintro ⟨k, hk, rfl, rfl⟩
    exact ⟨h.place_lt k, w k, {}, by rw [hbuilt, if_pos hk], by rw [hroles, if_pos hk], rfl⟩

end Body

/-- **Planning records the innermost loop** of each part. -/
theorem loopHeadStage_eq (hfin : Finished p.graph p.plannedTasks p.firstRuns plan) (l : Part) :
    (plan.stage (place p w l)).loopHeadStage = l.home.map (place p w) := by
  obtain ⟨g, hg, hinner⟩ := exists_innermost hfin
  have hin : ∀ {k : Part}, k.isHead = true →
      (place p w l ∈ Loops.body g (builtStages p) (place p w k) (w k) {} ↔ l ∈ k.body) :=
    fun {k} hk => by
      rw [(h.mem_body_iff hfin hg hk).1, List.mem_map]
      constructor
      · rintro ⟨l', hl', heq⟩
        exact h.place_inj.mp heq ▸ hl'
      · exact fun hl => ⟨l, hl, rfl⟩
  rw [hinner _ (h.place_lt l)]
  cases hhome : l.home with
  | none =>
    refine Loops.innermost_eq_none_iff.mpr fun y hy => ?_
    obtain ⟨k, hk, -, hbody⟩ := (h.mem_bodies hfin hg).mp hy
    rw [hbody, hin hk]
    exact Part.home_eq_none l hhome k hk
  | some k =>
    obtain ⟨hk, hl, hleast⟩ := Part.home_eq_some k l hhome
    refine Loops.innermost_eq_some ((h.mem_bodies hfin hg).mpr ⟨k, hk, rfl, rfl⟩)
      ((hin hk).mpr hl) fun y hy hly => ?_
    obtain ⟨k', hk', hs, hbody⟩ := (h.mem_bodies hfin hg).mp hy
    rw [hbody] at hly ⊢
    rw [h.length_body hfin hg hk, h.length_body hfin hg hk']
    exact (hleast k' hk' ((hin hk').mp hly)).imp_left fun heq => by rw [hs, heq]

end PreliminaryPlan.PlansNested

end Dataflow
