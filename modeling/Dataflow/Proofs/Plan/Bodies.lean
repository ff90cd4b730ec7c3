import Dataflow.Proofs.Plan.Quotient
import Mathlib.Data.List.ReduceOption
import Mathlib.Data.Set.Card

/-!
# The bodies of loops

The body of a loop are the stages that the readers of its head's iteration outputs lead to, without
passing through the head or a reader of the loop's result. Bodies need not be nested: a stage that
two loops lead to is in both. What a plan records for a stage is one loop head stage at most, that of
the smallest body that contains it, and of the last one of equally small ones. The driver goes by
what is recorded alone, so that a stage belongs to the body of a loop in two senses, and this module
connects them.

* `InBody` is the first sense. It is stated by paths of stages, and `Finished.body_spec` and
  `Finished.spec_of_mem_bodies` show that the search of the planner finds exactly these stages.
* `Plan.isInBodyOf` is the second one: `IsInnermost` singles out one of the loops whose bodies contain
  a stage, by the number of stages in the bodies and the numbers of the head stages.

Results:
* `Loops.exists_of_innermost`, `Loops.innermost_eq_none_iff`: what is chosen from a list of bodies. It
  is the last one of the smallest ones among those that contain the stage, by an induction on the
  bodies met (`Loops.Found.step`).
* `Loops.mem_readerStages`, `Loops.mem_bodies`, `Loops.pairwise_bodies`: what the bodies are computed
  from, and their order.
* **`Finished.loopHeadStage_eq_some_iff`**, `Finished.loopHeadStage_eq_none_iff`: what is recorded for a
  stage.

A loop can have a body of several stages and be recorded for none of them, when all of them are in
smaller bodies too, or in equally large ones of later heads. What that means for an execution is a
matter of `Dataflow.Proofs.Execution.Rearm`.
-/

namespace Dataflow

namespace Loops

/-! ## The smallest body -/

section Innermost

variable {bodies : List (StageId × List StageId)} {s x : StageId} {n : Nat}
  {best : Option (StageId × Nat)} {y : StageId × List StageId}

/-- The smaller one of the best body so far, with its size, and one more body, if that contains the
stage. -/
def better (x : StageId) (best : Option (StageId × Nat)) (y : StageId × List StageId) :
    Option (StageId × Nat) :=
  if y.2.contains x then
    match best with
    | some (_, size) => if y.2.length ≤ size then some (y.1, y.2.length) else best
    | none => some (y.1, y.2.length)
  else best

theorem innermost_eq_foldl : innermost bodies x = (bodies.foldl (better x) none).map (·.1) := rfl

theorem better_of_notMem (h : x ∉ y.2) : better x best y = best := by simp [better, h]

/-- A body that contains the stage is taken, unless a smaller one has been met. -/
theorem better_of_mem (best : Option (StageId × Nat)) (h : x ∈ y.2) :
    better x best y = some (y.1, y.2.length) ∧
      (∀ z size, best = some (z, size) → y.2.length ≤ size) ∨
    better x best y = best ∧ ∃ z size, best = some (z, size) ∧ size < y.2.length := by
  unfold better
  rw [if_pos (List.contains_iff_mem.mpr h)]
  cases best with
  | none => exact .inl ⟨rfl, nofun⟩
  | some b =>
    obtain ⟨z, size⟩ := b
    by_cases hle : y.2.length ≤ size
    · exact .inl ⟨if_pos hle, by rintro _ _ ⟨⟩; exact hle⟩
    · exact .inr ⟨if_neg hle, z, size, rfl, Nat.lt_of_not_le hle⟩

/-- Some body stands among others that contain the stage so that none of them is smaller, and none
behind it is as small. -/
def IsLastSmallest (bodies : List (StageId × List StageId)) (x s : StageId) (body : List StageId) :
    Prop :=
  x ∈ body ∧ ∃ before after, bodies = before ++ (s, body) :: after ∧
    (∀ y ∈ before, x ∈ y.2 → body.length ≤ y.2.length) ∧
    ∀ y ∈ after, x ∈ y.2 → body.length < y.2.length

/-- What has been found once all bodies were met: nothing, if none contains the stage, and the last
one of the smallest ones otherwise. -/
def Found (bodies : List (StageId × List StageId)) (x : StageId) :
    Option (StageId × Nat) → Prop
  | none => ∀ y ∈ bodies, x ∉ y.2
  | some (s, n) => ∃ body, n = body.length ∧ IsLastSmallest bodies x s body

theorem IsLastSmallest.le {body : List StageId} (h : IsLastSmallest bodies x s body)
    (hy : y ∈ bodies) (hx : x ∈ y.2) : body.length ≤ y.2.length := by
  obtain ⟨-, before, after, rfl, hbefore, hafter⟩ := h
  rcases List.mem_append.mp hy with hy | hy
  · exact hbefore y hy hx
  · rcases List.mem_cons.mp hy with rfl | hy
    · exact Nat.le_refl _
    · exact Nat.le_of_lt (hafter y hy hx)

/-- A body that is not smaller than the one found, or does not contain the stage, changes nothing. -/
theorem IsLastSmallest.append {body : List StageId} (h : IsLastSmallest bodies x s body)
    (hy : x ∈ y.2 → body.length < y.2.length) : IsLastSmallest (bodies ++ [y]) x s body := by
  obtain ⟨hx, before, after, rfl, hbefore, hafter⟩ := h
  refine ⟨hx, before, after ++ [y], by simp, hbefore, fun z hz => ?_⟩
  rcases List.mem_append.mp hz with hz | hz
  · exact hafter z hz
  · exact List.mem_singleton.mp hz ▸ hy

/-- One more body. -/
theorem Found.step (h : Found bodies x best) : Found (bodies ++ [y]) x (better x best y) := by
  by_cases hx : x ∈ y.2
  · rcases better_of_mem best hx with ⟨heq, hleast⟩ | ⟨heq, z, size, rfl, hlt⟩
    · -- the body is taken: whatever contains the stage before it is at least as large
      rw [heq]
      refine ⟨y.2, rfl, hx, bodies, [], rfl, fun z hz hxz => ?_, List.forall_mem_nil _⟩
      cases best with
      | none => exact absurd hxz (h z hz)
      | some b =>
        obtain ⟨body, hsize, hlast⟩ := h
        exact (hleast b.1 b.2 rfl).trans (hsize.trans_le (hlast.le hz hxz))
    · rw [heq]
      obtain ⟨body, rfl, hlast⟩ := h
      exact ⟨body, rfl, hlast.append fun _ => hlt⟩
  · rw [better_of_notMem hx]
    cases best with
    | none =>
      intro z hz
      rcases List.mem_append.mp hz with hz | hz
      · exact h z hz
      · exact List.mem_singleton.mp hz ▸ hx
    | some b =>
      obtain ⟨body, hsize, hlast⟩ := h
      exact ⟨body, hsize, hlast.append fun hmem => absurd hmem hx⟩

theorem found_foldl (bodies : List (StageId × List StageId)) (x : StageId) :
    Found bodies x (bodies.foldl (better x) none) := by
  induction bodies using List.reverseRecOn with
  | nil => exact List.forall_mem_nil _
  | append_singleton bodies y ih =>
    rw [List.foldl_append]
    exact ih.step

/-- No body is chosen iff none contains the stage. -/
theorem innermost_eq_none_iff : innermost bodies x = none ↔ ∀ y ∈ bodies, x ∉ y.2 := by
  have hfound := found_foldl bodies x
  rw [innermost_eq_foldl, Option.map_eq_none_iff]
  cases hbest : bodies.foldl (better x) none with
  | none =>
    rw [hbest] at hfound
    exact iff_of_true rfl hfound
  | some b =>
    rw [hbest] at hfound
    obtain ⟨body, -, hx, before, after, rfl, -⟩ := hfound
    exact iff_of_false (Option.some_ne_none b) fun hno => hno (b.1, body) (by simp) hx

/-- The body that is chosen is the last one of the smallest ones. -/
theorem exists_of_innermost (h : innermost bodies x = some s) :
    ∃ body, IsLastSmallest bodies x s body := by
  have hfound := found_foldl bodies x
  rw [innermost_eq_foldl, Option.map_eq_some_iff] at h
  obtain ⟨b, hbest, rfl⟩ := h
  rw [hbest] at hfound
  obtain ⟨body, -, hlast⟩ := hfound
  exact ⟨body, hlast⟩

/-- A body that is smaller than all others that contain a stage is the one that is chosen. -/
theorem innermost_eq_some {body : List StageId} (hmem : (s, body) ∈ bodies) (hx : x ∈ body)
    (hleast : ∀ y ∈ bodies, x ∈ y.2 → y.1 = s ∨ body.length < y.2.length) :
    innermost bodies x = some s := by
  cases hchosen : innermost bodies x with
  | none => exact absurd hx (innermost_eq_none_iff.mp hchosen (s, body) hmem)
  | some z =>
    obtain ⟨body', hlast⟩ := exists_of_innermost hchosen
    have hle : body'.length ≤ body.length := hlast.le hmem hx
    obtain ⟨hx', before, after, rfl, -⟩ := hlast
    exact congrArg some ((hleast (z, body') (by simp) hx').resolve_right (Nat.not_lt_of_le hle))

end Innermost

/-! ## The bodies -/

/-- The stages that read some outputs of a task. -/
theorem mem_readerStages {g g' : TaskGraph} (hw : g.Wired)
    (hout : ∀ t, (g'.task t).outputs = (g.task t).outputs) (hch : ∀ c, g'.channel c = g.channel c)
    {t : TaskId} {outputs : List Nat} {x : StageId} : x ∈ readerStages g' t outputs ↔
      ∃ u i c, (g.task u).inputChannel i = some c ∧ (g.channel c).producer = t ∧
        (g.channel c).output ∈ outputs ∧ (g'.task u).stage = some x := by
  unfold readerStages TaskGraph.consumersOf
  simp only [List.mem_filterMap, List.mem_flatMap, List.mem_map, List.reduceOption_mem_iff, hout,
    hch]
  constructor
  · rintro ⟨_, ⟨c, hc, k, hk, rfl⟩, hx⟩
    split at hx
    · rename_i ho
      obtain ⟨o, ho'⟩ := List.mem_iff_getElem?.mp hc
      have hoc : (g.task t).outputChannel o = some c := by
        unfold Task.outputChannel
        rw [ho']
        rfl
      obtain ⟨hlt, hp, -⟩ := (hw.output_iff t o c).mp hoc
      exact ⟨k.task, k.input, c, (hw.input_iff _ _ c).mpr ⟨hlt, hk⟩, hp,
        List.contains_iff_mem.mp ho, hx⟩
    · exact absurd hx (by simp)
  · rintro ⟨u, i, c, hc, rfl, ho, hx⟩
    obtain ⟨hlt, hk⟩ := (hw.input_iff u i c).mp hc
    have hoc := (hw.output_iff _ _ c).mpr ⟨hlt, rfl, rfl⟩
    have ho' : some c ∈ (g.task (g.channel c).producer).outputs := by
      unfold Task.outputChannel at hoc
      exact List.mem_of_getElem? (Option.join_eq_some_iff.mp hoc)
    refine ⟨(c, ⟨u, i⟩), ⟨c, ho', ⟨u, i⟩, hk, rfl⟩, ?_⟩
    rw [if_pos (List.contains_iff_mem.mpr ho)]
    exact hx

/-- The bodies are those of the stages of loop heads. -/
theorem mem_bodies {g : TaskGraph} {stages : List Stage} {s : StageId} {body : List StageId} :
    (s, body) ∈ bodies g stages ↔ s < stages.length ∧ ∃ t roles,
      (stages.getD s default).loopHead = some t ∧ (g.task t).operator.loopRoles = some roles ∧
        body = Loops.body g stages s t roles := by
  unfold bodies
  simp only [List.mem_filterMap, List.mem_range, Option.bind_eq_bind, Option.bind_eq_some_iff,
    Option.some.injEq, Prod.mk.injEq]
  constructor
  · rintro ⟨s, hs, t, ht, roles, hroles, rfl, rfl⟩
    exact ⟨hs, t, roles, ht, hroles, rfl⟩
  · rintro ⟨hs, t, roles, ht, hroles, rfl⟩
    exact ⟨s, hs, t, ht, roles, hroles, rfl, rfl⟩

/-- They are listed in the order of these stages. -/
theorem pairwise_bodies {g : TaskGraph} {stages : List Stage} :
    (bodies g stages).Pairwise fun a b => a.1 < b.1 := by
  refine List.Pairwise.filterMap _ (fun s s' hlt a ha b hb => ?_) List.pairwise_lt_range
  simp only [Option.bind_eq_bind, Option.bind_eq_some_iff, Option.some.injEq] at ha hb
  obtain ⟨_, -, _, -, rfl⟩ := ha
  obtain ⟨_, -, _, -, rfl⟩ := hb
  exact hlt

end Loops

/-- The outputs that carry the result of a loop and nothing of an iteration. -/
def LoopRoles.exitOutputs (roles : LoopRoles) : List Nat :=
  roles.finalOutputs.filter fun o => !roles.bodyOutputs.contains o

/-- Task `u` reads output `o` of task `t`. -/
def TaskGraph.Reads (g : TaskGraph) (u t : TaskId) (o : Nat) : Prop :=
  ∃ i c, (g.task u).inputChannel i = some c ∧ (g.channel c).producer = t ∧ (g.channel c).output = o

namespace PreliminaryPlan

/-- A task of stage `x` reads one of some outputs of task `t`. -/
def ReadsIn (p : PreliminaryPlan) (plan : Plan) (t : TaskId) (outputs : List Nat) (x : StageId) :
    Prop :=
  ∃ u ∈ (plan.stage x).tasks, ∃ o ∈ outputs, p.graph.Reads u t o

/-- Stage `x` is neither that of the head `t` nor one that reads the result of the loop. -/
def Passable (p : PreliminaryPlan) (plan : Plan) (s : StageId) (t : TaskId) (roles : LoopRoles)
    (x : StageId) : Prop :=
  x ≠ s ∧ ¬ p.ReadsIn plan t roles.exitOutputs x

/-- Stage `x` is in the body of the loop whose head makes up stage `s`. -/
def InBody (p : PreliminaryPlan) (plan : Plan) (s x : StageId) : Prop :=
  ∃ t roles, (plan.stage s).loopHead = some t ∧ (p.graph.task t).operator.loopRoles = some roles ∧
    ∃ y, p.ReadsIn plan t roles.bodyOutputs y ∧ p.Passable plan s t roles y ∧
      Relation.ReflTransGen (fun a b => p.Precedes plan a b ∧ p.Passable plan s t roles b) y x

/-- How many stages the body of the loop has whose head makes up stage `s`. -/
noncomputable def bodySize (p : PreliminaryPlan) (plan : Plan) (s : StageId) : Nat :=
  {x | p.InBody plan s x}.ncard

/-- Of the loops whose bodies contain stage `x` that of stage `s` has the smallest body, and of the
equally small ones it is the last one. -/
structure IsInnermost (p : PreliminaryPlan) (plan : Plan) (s x : StageId) : Prop where
  inBody : p.InBody plan s x
  smallest : ∀ z, z ≠ s → p.InBody plan z x → p.bodySize plan s < p.bodySize plan z ∨
    p.bodySize plan s = p.bodySize plan z ∧ z < s

theorem IsInnermost.unique {p : PreliminaryPlan} {plan : Plan} {s z x : StageId}
    (h : p.IsInnermost plan s x) (h' : p.IsInnermost plan z x) : s = z := by
  by_contra hne
  rcases h.smallest z (Ne.symm hne) h'.inBody with hlt | ⟨heq, hzs⟩
  · rcases h'.smallest s hne h.inBody with hgt | ⟨heq, -⟩
    · exact Nat.lt_asymm hlt hgt
    · exact Nat.ne_of_lt hlt heq.symm
  · rcases h'.smallest s hne h.inBody with hgt | ⟨-, hsz⟩
    · exact Nat.ne_of_lt hgt heq.symm
    · exact Nat.lt_asymm hzs hsz

theorem InBody.passable {p : PreliminaryPlan} {plan : Plan} {s x : StageId}
    (h : p.InBody plan s x) : ∃ t roles, (plan.stage s).loopHead = some t ∧
      (p.graph.task t).operator.loopRoles = some roles ∧ p.Passable plan s t roles x := by
  obtain ⟨t, roles, ht, hroles, y, -, hy, hpath⟩ := h
  refine ⟨t, roles, ht, hroles, ?_⟩
  rcases Relation.ReflTransGen.cases_tail hpath with rfl | ⟨_, -, -, hx⟩
  · exact hy
  · exact hx

namespace Finished

variable {p : PreliminaryPlan} {r : Runs} {plan : Plan} {g : TaskGraph} {s x : StageId} {t : TaskId}

/-- The stages before loops are looked for. -/
def built (p : PreliminaryPlan) (r : Runs) : List Stage :=
  (List.range r.count).map (buildStage p.graph r r.place r.count)

theorem getD_built (hlt : s < r.count) :
    (built p r).getD s default = buildStage p.graph r r.place r.count s := by
  unfold built
  rw [List.getD_eq_getElem?_getD, List.getElem?_map, List.getElem?_range hlt]
  rfl

theorem length_built : (built p r).length = r.count := by simp [built]

/-- Before loops are looked for everything else is recorded. -/
theorem exists_getD_built (h : Finished p.graph p.plannedTasks r plan) (s : StageId) :
    ∃ head, plan.stage s = { (built p r).getD s default with loopHeadStage := head } := by
  by_cases hlt : s < r.count
  · rw [getD_built hlt]
    exact h.stage hlt
  · rw [h.stage_of_le (Nat.le_of_not_lt hlt), List.getD_eq_getElem?_getD,
      List.getElem?_eq_none (length_built ▸ Nat.le_of_not_lt hlt)]
    exact ⟨none, rfl⟩

/-- The stages that read some outputs of a task, in a graph that has the stages of the plan. -/
theorem mem_readerStages (hg : p.graph.Built) (hs : p.SinksKnown)
    (h : Finished p.graph p.plannedTasks r plan) (htask : ∀ t, g.task t = plan.graph.task t)
    (hchannel : ∀ c, g.channel c = p.graph.channel c) {outputs : List Nat} :
    x ∈ Loops.readerStages g t outputs ↔ p.ReadsIn plan t outputs x := by
  have hout : ∀ t, (g.task t).outputs = (p.graph.task t).outputs := fun t => by
    rw [htask, h.outputs]
  have hstage : ∀ u, (g.task u).stage = some x ↔ u ∈ (plan.stage x).tasks := fun u => by
    rw [htask, h.mem_stage (isScope_plannedTasks hg.wired hs)]
    by_cases hu : u ∈ p.plannedTasks
    · rw [h.stage_of_mem hu, Option.some.injEq]
      exact (and_iff_right hu).symm
    · rw [h.task, if_neg hu, hg.unplaced u]
      exact iff_of_false nofun fun hu' => hu hu'.1
  rw [Loops.mem_readerStages hg.wired hout hchannel]
  unfold ReadsIn
  constructor
  · rintro ⟨u, i, c, hc, hp, ho, hx⟩
    exact ⟨u, (hstage u).mp hx, _, ho, i, c, hc, hp, rfl⟩
  · rintro ⟨u, hu, _, ho, i, c, hc, hp, rfl⟩
    exact ⟨u, i, c, hc, hp, ho, (hstage u).mpr hu⟩

theorem lt_of_readsIn (hg : p.graph.Built) (hs : p.SinksKnown)
    (h : Finished p.graph p.plannedTasks r plan) {outputs : List Nat}
    (hx : p.ReadsIn plan t outputs x) : x < r.count := by
  obtain ⟨u, hu, -⟩ := hx
  have hscope := isScope_plannedTasks hg.wired hs
  obtain ⟨hplanned, rfl⟩ := (h.mem_stage hscope).mp hu
  exact h.resolved.place_lt_count hscope hplanned

/-- **The body of a loop head**, in which no stage is listed twice. -/
theorem body_spec (hg : p.graph.Built) (hs : p.SinksKnown)
    (h : Finished p.graph p.plannedTasks r plan) (htask : ∀ t, g.task t = plan.graph.task t)
    (hchannel : ∀ c, g.channel c = p.graph.channel c) {roles : LoopRoles} :
    (∀ x, x ∈ Loops.body g (built p r) s t roles ↔
      ∃ y, p.ReadsIn plan t roles.bodyOutputs y ∧ p.Passable plan s t roles y ∧
        Relation.ReflTransGen (fun a b => p.Precedes plan a b ∧ p.Passable plan s t roles b) y x) ∧
      (Loops.body g (built p r) s t roles).Nodup := by
  have hreaders : ∀ {outputs x}, x ∈ Loops.readerStages g t outputs ↔ p.ReadsIn plan t outputs x :=
    h.mem_readerStages hg hs htask hchannel
  have hpass : ∀ x, (!(s :: Loops.readerStages g t roles.exitOutputs).contains x) = true ↔
      p.Passable plan s t roles x := fun x => by
    rw [Bool.not_eq_true', Bool.eq_false_iff, Ne, List.contains_iff_mem, List.mem_cons, hreaders,
      not_or]
    exact Iff.rfl
  let next (y : StageId) : List StageId := ((built p r).getD y default).successors.filter fun z =>
    !(s :: Loops.readerStages g t roles.exitOutputs).contains z
  let entries : List StageId := (Loops.readerStages g t roles.bodyOutputs).filter fun z =>
    !(s :: Loops.readerStages g t roles.exitOutputs).contains z
  have hnext : ∀ y z, z ∈ next y ↔ p.Precedes plan y z ∧ p.Passable plan s t roles z := by
    intro y z
    obtain ⟨head, hst⟩ := h.exists_getD_built y
    have hsucc := h.mem_successors_iff hg.wired hs (s := y) (t := z)
    rw [hst] at hsucc
    rw [List.mem_filter, hpass]
    exact and_congr_left' hsucc
  have hentries : ∀ y, y ∈ entries ↔
      p.ReadsIn plan t roles.bodyOutputs y ∧ p.Passable plan s t roles y := fun y => by
    rw [List.mem_filter, hpass, hreaders]
  have hclosed : Digraph.IsClosed next (List.range r.count) := fun y _ z hz =>
    List.mem_range.mpr (h.lt_of_precedes hg.wired hs ((hnext y z).mp hz).1).2
  have hstarts : ∀ y ∈ entries, y ∈ List.range r.count := fun y hy =>
    List.mem_range.mpr (h.lt_of_readsIn hg hs ((hentries y).mp hy).1)
  have hbound : (List.range r.count).length ≤ (built p r).length := by
    rw [List.length_range, length_built]
  have hbody : Loops.body g (built p r) s t roles =
      Digraph.closure next (built p r).length entries := rfl
  have hleads : Digraph.Leads next = fun a b => p.Precedes plan a b ∧ p.Passable plan s t roles b := by
    funext a b
    exact propext (hnext a b)
  rw [hbody]
  refine ⟨fun x => ?_, Digraph.nodup_closure hclosed hstarts hbound⟩
  rw [Digraph.mem_closure_iff hclosed hstarts hbound]
  unfold Digraph.Reaches
  rw [hleads]
  simp only [hentries, and_assoc]

/-- What is recorded for a stage is the smallest body that contains it. -/
theorem exists_innermost (h : Finished p.graph p.plannedTasks r plan) :
    ∃ g, (∀ t, g.task t = plan.graph.task t) ∧ (∀ c, g.channel c = p.graph.channel c) ∧
      ∀ x < r.count, (plan.stage x).loopHeadStage =
        Loops.innermost (Loops.bodies g (built p r)) x := by
  obtain ⟨g, htask, hchannel, hst⟩ := h.stages
  refine ⟨g, htask, hchannel, fun x hx => ?_⟩
  unfold Plan.stage
  rw [hst, List.getD_eq_getElem?_getD]
  unfold Loops.assign
  simp only [List.getElem?_mapIdx, List.getElem?_map, List.getElem?_range hx, Option.map_some,
    Option.getD_some]
  rfl

/-- The bodies from which the recorded one is chosen. -/
theorem spec_of_mem_bodies (hg : p.graph.Built) (hs : p.SinksKnown)
    (h : Finished p.graph p.plannedTasks r plan) (htask : ∀ t, g.task t = plan.graph.task t)
    (hchannel : ∀ c, g.channel c = p.graph.channel c) {body : List StageId}
    (hmem : (s, body) ∈ Loops.bodies g (built p r)) :
    (∀ x, x ∈ body ↔ p.InBody plan s x) ∧ body.length = p.bodySize plan s := by
  obtain ⟨-, t, roles, ht, hroles, rfl⟩ := Loops.mem_bodies.mp hmem
  obtain ⟨head, hst⟩ := h.exists_getD_built (s := s)
  have ht' : (plan.stage s).loopHead = some t := by rw [hst]; exact ht
  rw [htask, h.operator] at hroles
  have hnodup : (Loops.body g (built p r) s t roles).Nodup := (h.body_spec hg hs htask hchannel).2
  have hiff : ∀ x, x ∈ Loops.body g (built p r) s t roles ↔ p.InBody plan s x := fun x => by
    rw [(h.body_spec hg hs htask hchannel).1]
    constructor
    · exact fun hpath => ⟨t, roles, ht', hroles, hpath⟩
    · rintro ⟨u, roles', hu, hroles', hpath⟩
      obtain rfl := Option.some.inj (ht'.symm.trans hu)
      obtain rfl := Option.some.inj (hroles.symm.trans hroles')
      exact hpath
  refine ⟨hiff, ?_⟩
  have hset : {x | p.InBody plan s x} =
      ((Loops.body g (built p r) s t roles).toFinset : Set StageId) := by
    ext x
    rw [List.coe_toFinset]
    exact (hiff x).symm
  unfold bodySize
  rw [hset, Set.ncard_coe_finset, List.toFinset_card_of_nodup hnodup]

theorem lt_of_inBody (hg : p.graph.Built) (hs : p.SinksKnown)
    (h : Finished p.graph p.plannedTasks r plan) (hin : p.InBody plan s x) : x < r.count := by
  obtain ⟨t, roles, -, -, y, hreads, -, hpath⟩ := hin
  rcases Relation.ReflTransGen.cases_tail hpath with rfl | ⟨_, -, hprecedes, -⟩
  · exact h.lt_of_readsIn hg hs hreads
  · exact (h.lt_of_precedes hg.wired hs hprecedes).2

theorem exists_mem_bodies (hg : p.graph.Built) (hs : p.SinksKnown)
    (h : Finished p.graph p.plannedTasks r plan) (htask : ∀ t, g.task t = plan.graph.task t)
    (hin : p.InBody plan s x) : ∃ body, (s, body) ∈ Loops.bodies g (built p r) := by
  obtain ⟨t, roles, ht, hroles, -⟩ := hin
  have hscope := isScope_plannedTasks hg.wired hs
  obtain ⟨htp, hplace⟩ := (h.mem_stage hscope).mp ((h.loopHead_eq_some hscope).mp ht).1
  obtain ⟨head, hst⟩ := h.exists_getD_built (s := s)
  rw [hst] at ht
  refine ⟨_, Loops.mem_bodies.mpr ⟨?_, t, roles, ht, ?_, rfl⟩⟩
  · rw [length_built, ← hplace]
    exact h.resolved.place_lt_count hscope htp
  · rw [htask, h.operator]
    exact hroles

theorem isInnermost_of_loopHeadStage (hg : p.graph.Built) (hs : p.SinksKnown)
    (h : Finished p.graph p.plannedTasks r plan) (hx : (plan.stage x).loopHeadStage = some s) :
    p.IsInnermost plan s x := by
  obtain ⟨g, htask, hchannel, hinner⟩ := h.exists_innermost
  have hspec : ∀ {s body}, (s, body) ∈ Loops.bodies g (built p r) →
      (∀ x, x ∈ body ↔ p.InBody plan s x) ∧ body.length = p.bodySize plan s :=
    fun hmem => h.spec_of_mem_bodies hg hs htask hchannel hmem
  by_cases hlt : x < r.count
  · rw [hinner x hlt] at hx
    obtain ⟨body, hxb, before, after, hsplit, hbefore, hafter⟩ := Loops.exists_of_innermost hx
    have hlisted : (s, body) ∈ Loops.bodies g (built p r) := by
      rw [hsplit]
      exact List.mem_append_right before List.mem_cons_self
    obtain ⟨hbody, hsize⟩ := hspec hlisted
    refine ⟨(hbody x).mp hxb, fun z hne hz => ?_⟩
    obtain ⟨other, hother⟩ := h.exists_mem_bodies hg hs htask hz
    obtain ⟨hmem, hsize'⟩ := hspec hother
    -- the loops are met in the order of their stages: one before `s` is not smaller, and one behind
    -- it is larger
    have hascending : (Loops.bodies g (built p r)).Pairwise fun a b => a.1 < b.1 :=
      Loops.pairwise_bodies
    rw [hsplit] at hother hascending
    rcases List.mem_append.mp hother with hother | hother
    · have hbehind := (List.pairwise_append.mp hascending).2.2 _ hother (s, body) (by simp)
      have hle := hbefore _ hother ((hmem x).mpr hz)
      rw [hsize, hsize'] at hle
      exact (Nat.lt_or_eq_of_le hle).imp_right fun heq => ⟨heq, hbehind⟩
    · rcases List.mem_cons.mp hother with heq | hother
      · exact absurd (congrArg Prod.fst heq) hne
      · have hless := hafter _ hother ((hmem x).mpr hz)
        rw [hsize, hsize'] at hless
        exact Or.inl hless
  · rw [h.stage_of_le (Nat.le_of_not_lt hlt)] at hx
    exact absurd hx (Option.some_ne_none s).symm

/-- **What is recorded for a stage** is the innermost loop whose body contains it. -/
theorem loopHeadStage_eq_some_iff (hg : p.graph.Built) (hs : p.SinksKnown)
    (h : Finished p.graph p.plannedTasks r plan) :
    (plan.stage x).loopHeadStage = some s ↔ p.IsInnermost plan s x := by
  refine ⟨h.isInnermost_of_loopHeadStage hg hs, fun hinnermost => ?_⟩
  cases hx : (plan.stage x).loopHeadStage with
  | none =>
    obtain ⟨g, htask, hchannel, hinner⟩ := h.exists_innermost
    obtain ⟨body, hmem⟩ := h.exists_mem_bodies hg hs htask hinnermost.inBody
    rw [hinner x (h.lt_of_inBody hg hs hinnermost.inBody), Loops.innermost_eq_none_iff] at hx
    exact absurd (((h.spec_of_mem_bodies hg hs htask hchannel hmem).1 x).mpr hinnermost.inBody)
      (hx _ hmem)
  | some z => exact congrArg some ((h.isInnermost_of_loopHeadStage hg hs hx).unique hinnermost)

/-- No loop is recorded for a stage iff it is in the body of none. -/
theorem loopHeadStage_eq_none_iff (hg : p.graph.Built) (hs : p.SinksKnown)
    (h : Finished p.graph p.plannedTasks r plan) (hlt : x < r.count) :
    (plan.stage x).loopHeadStage = none ↔ ∀ s, ¬ p.InBody plan s x := by
  obtain ⟨g, htask, hchannel, hinner⟩ := h.exists_innermost
  rw [hinner x hlt, Loops.innermost_eq_none_iff]
  constructor
  · intro hno s hin
    obtain ⟨body, hbody⟩ := h.exists_mem_bodies hg hs htask hin
    exact hno _ hbody (((h.spec_of_mem_bodies hg hs htask hchannel hbody).1 x).mpr hin)
  · rintro hno ⟨s, body⟩ hbody hx
    exact hno s (((h.spec_of_mem_bodies hg hs htask hchannel hbody).1 x).mp hx)

end Finished

end PreliminaryPlan

end Dataflow
