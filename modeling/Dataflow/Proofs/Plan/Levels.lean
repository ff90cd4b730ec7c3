import Dataflow.Proofs.Plan.Quotient
import Mathlib.Order.Lattice.Nat

/-!
# The order of stages and their levels

The stages are put in order first come first served: each has a count of the predecessors it waits
for, and joins the queue when the count comes to zero. A count is never taken below zero, for the stage
that is taken up is one that its successors still wait for, and to come to zero is to have no
predecessor left that was not taken up (`Counts.step`).

The level of a stage is the length of the longest chain of predecessors that ends in it. Stages leave
the queue level by level, for what a stage sets free is one level above it and whatever still waits is
no higher. So the levels, one behind the other, are the order itself.

* `IsLinked.isGreatest_depth`: the longest chain that ends in a stage.
* `Counts.pos`, **`Counts.step`**: the counts of what stages wait for.
* **`Queued.step`**, `Queued.orderFrom`: the stages taken up and those that wait, sorted by depth.
* `mem_topologicalOrder`, `levels_eq`: the order is complete, and each stage has its depth as level.
* `IsLinked.mem_getD_parallelStages`, `IsLinked.flatten_parallelStages`: the levels.
* **`PreliminaryPlan.assign_layered`**: the order and the levels of every plan.

The number of a stage is no help here, although the numbers rise along the edges as well: a stage
joins the queue when its last predecessor is taken up, whatever its number, so that it can come before
stages with smaller numbers. What the invariant `Queued` carries from step to step is that all stages
so far, taken up or waiting in the queue, are sorted by depth.

The lists of predecessors and successors agree with each other in a plan that stage assignment made
(`IsLinked`), and of such plans alone this is stated. In any other plan a count could reach zero too
early or not at all.
-/

namespace Dataflow

/-! ## Lists -/

/-- The largest one of some numbers. -/
theorem foldl_max_le_iff {n : Nat} : ∀ {xs : List Nat} {a : Nat},
    xs.foldl max a ≤ n ↔ a ≤ n ∧ ∀ x ∈ xs, x ≤ n
  | [], a => by simp
  | x :: xs, a => by
    rw [List.foldl_cons, foldl_max_le_iff, Nat.max_le, List.forall_mem_cons, and_assoc]

section Keys

variable {key : Nat → Nat} {xs : List Nat}

/-- In a sorted list what has a key comes behind what has a smaller one. -/
theorem filter_key_append (h : xs.Pairwise fun x y => key x ≤ key y) (n : Nat) :
    xs.filter (key · < n) ++ xs.filter (key · == n) = xs.filter (key · < n + 1) := by
  induction h with
  | nil => rfl
  | @cons x xs hx _ ih =>
    rcases Nat.lt_trichotomy (key x) n with hlt | heq | hgt
    · have hbelow : decide (key x < n) = true := decide_eq_true hlt
      have hat : (key x == n) = false := beq_eq_false_iff_ne.mpr (Nat.ne_of_lt hlt)
      have hnext : decide (key x < n + 1) = true := decide_eq_true (Nat.lt_succ_of_lt hlt)
      simp only [List.filter_cons, hbelow, hat, hnext, if_true, Bool.false_eq_true, if_false,
        List.cons_append, ih]
    · -- behind `x` there is nothing below
      have hnone : xs.filter (key · < n) = [] := List.filter_eq_nil_iff.mpr fun y hy hlt =>
        Nat.not_le_of_lt (of_decide_eq_true hlt) (heq ▸ hx y hy)
      have hbelow : decide (key x < n) = false := decide_eq_false (Nat.not_lt_of_le heq.ge)
      have hat : (key x == n) = true := beq_iff_eq.mpr heq
      have hnext : decide (key x < n + 1) = true := decide_eq_true (Nat.lt_succ_of_le heq.le)
      rw [hnone, List.nil_append] at ih
      simp only [List.filter_cons, hbelow, hat, hnext, if_true, Bool.false_eq_true, if_false, hnone,
        List.nil_append, ih]
    · have hbelow : decide (key x < n) = false := decide_eq_false (Nat.lt_asymm hgt)
      have hat : (key x == n) = false := beq_eq_false_iff_ne.mpr (Nat.ne_of_gt hgt)
      have hnext : decide (key x < n + 1) = false := decide_eq_false (Nat.not_lt_of_le hgt)
      simp only [List.filter_cons, hbelow, hat, hnext, Bool.false_eq_true, if_false, ih]

/-- The parts of a sorted list that have the same key, one behind the other. -/
theorem flatten_filter_key (h : xs.Pairwise fun x y => key x ≤ key y) : ∀ n : Nat,
    ((List.range n).map fun l => xs.filter (key · == l)).flatten = xs.filter (key · < n)
  | 0 => by simp
  | n + 1 => by
    rw [List.range_succ, List.map_append, List.flatten_append, flatten_filter_key h n]
    simpa using filter_key_append h n

end Keys

namespace Plan

variable {p : Plan} {s t q : StageId} {n : Nat}

/-! ## Chains of predecessors -/

/-- A chain of `n` steps, each from a predecessor to the stage behind it, ends in a stage. -/
inductive HasChain (p : Plan) : Nat → StageId → Prop
  | nil (s : StageId) : HasChain p 0 s
  | step {n : Nat} {q s : StageId} : q ∈ (p.stage s).predecessors → HasChain p n q →
      HasChain p (n + 1) s

/-- Stages that know each other in both directions, once, with predecessors of smaller numbers. -/
structure IsLinked (p : Plan) : Prop where
  successors_iff : ∀ s t, t ∈ (p.stage s).successors ↔ s ∈ (p.stage t).predecessors
  nodup : ∀ s, (p.stage s).successors.Nodup
  nodup_predecessors : ∀ s, (p.stage s).predecessors.Nodup
  rising : ∀ s t, s ∈ (p.stage t).predecessors → s < t ∧ t < p.stages.length

/-- The length of the longest chain of predecessors that ends in a stage. -/
noncomputable def depth (p : Plan) (s : StageId) : Nat := sSup {n | p.HasChain n s}

namespace IsLinked

theorem chain_le (hp : p.IsLinked) (h : p.HasChain n s) : n ≤ s := by
  induction h with
  | nil s => exact Nat.zero_le s
  | step hq _ ih => exact Nat.succ_le_of_lt (Nat.lt_of_le_of_lt ih (hp.rising _ _ hq).1)

/-- **The longest chain that ends in a stage.** -/
theorem isGreatest_depth (hp : p.IsLinked) (s : StageId) :
    IsGreatest {n | p.HasChain n s} (p.depth s) := by
  have hbound : BddAbove {n | p.HasChain n s} := ⟨s, fun _ hn => hp.chain_le hn⟩
  exact ⟨Nat.sSup_mem ⟨0, .nil s⟩ hbound, fun _ hn => le_csSup hbound hn⟩

theorem isGreatest_iff (hp : p.IsLinked) : IsGreatest {n | p.HasChain n s} n ↔ p.depth s = n :=
  ⟨fun h => (hp.isGreatest_depth s).unique h, fun h => h ▸ hp.isGreatest_depth s⟩

theorem depth_lt (hp : p.IsLinked) (hq : q ∈ (p.stage s).predecessors) : p.depth q < p.depth s :=
  (hp.isGreatest_depth s).2 (HasChain.step hq (hp.isGreatest_depth q).1)

/-- The longest chain comes from a predecessor. -/
theorem exists_depth_succ (hp : p.IsLinked) (h : p.depth s = n + 1) :
    ∃ q ∈ (p.stage s).predecessors, p.depth q = n := by
  have hchain := (hp.isGreatest_depth s).1
  rw [h] at hchain
  cases hchain with
  | step hq hn =>
    refine ⟨_, hq, Nat.le_antisymm ?_ ((hp.isGreatest_depth _).2 hn)⟩
    have hlt := hp.depth_lt hq
    rw [h] at hlt
    exact Nat.le_of_lt_succ hlt

/-- A stage is at most one above its predecessors. -/
theorem depth_le_succ (hp : p.IsLinked) (h : ∀ q ∈ (p.stage s).predecessors, p.depth q ≤ n) :
    p.depth s ≤ n + 1 := by
  cases hs : p.depth s with
  | zero => exact Nat.zero_le _
  | succ m =>
    obtain ⟨q, hq, rfl⟩ := hp.exists_depth_succ hs
    exact Nat.succ_le_succ (h q hq)

/-- Below a stage there is one of each smaller depth. -/
theorem exists_depth (hp : p.IsLinked) : ∀ {m : Nat} {s : StageId}, s < p.stages.length →
    p.depth s = n + m → ∃ q < p.stages.length, p.depth q = n
  | 0, s, hlt, h => ⟨s, hlt, h⟩
  | m + 1, s, hlt, h => by
    obtain ⟨q, hq, hdepth⟩ := hp.exists_depth_succ h
    exact hp.exists_depth ((hp.rising _ _ hq).1.trans hlt) hdepth

theorem depth_lt_of_trans (hp : p.IsLinked)
    (h : Relation.TransGen (fun x y => y ∈ (p.stage x).successors) s t) :
    p.depth s < p.depth t := by
  induction h with
  | single hy => exact hp.depth_lt ((hp.successors_iff _ _).mp hy)
  | tail _ hy ih => exact ih.trans (hp.depth_lt ((hp.successors_iff _ _).mp hy))

/-- What is computed as the level of a stage once its predecessors have theirs. -/
theorem foldl_depth (hp : p.IsLinked) (s : StageId) :
    ((p.stage s).predecessors.map fun q => p.depth q + 1).foldl max 0 = p.depth s := by
  refine eq_of_forall_ge_iff fun n => ?_
  rw [foldl_max_le_iff]
  simp only [List.forall_mem_map, Nat.zero_le, true_and]
  constructor
  · intro hall
    cases hs : p.depth s with
    | zero => exact Nat.zero_le n
    | succ m =>
      obtain ⟨q, hq, rfl⟩ := hp.exists_depth_succ hs
      exact hall q hq
  · exact fun hle q hq => (hp.depth_lt hq).trans_le hle

end IsLinked

/-! ## First come, first served -/

variable {done queue : List StageId} {waiting : List Nat}

/-- The stages that wait for nothing any more once `s`, the last one of `done`, is taken up. -/
def freed (p : Plan) (done : List StageId) (s : StageId) : List StageId :=
  (p.stage s).successors.filter fun t => (p.stage t).predecessors.all done.contains

theorem mem_freed (hp : p.IsLinked) : t ∈ p.freed done s ↔
    s ∈ (p.stage t).predecessors ∧ ∀ q ∈ (p.stage t).predecessors, q ∈ done := by
  unfold freed
  rw [List.mem_filter, hp.successors_iff, List.all_eq_true]
  simp only [List.contains_iff_mem]

/-- The counts are those of the predecessors that were not taken up yet. -/
structure Counts (p : Plan) (done : List StageId) (waiting : List Nat) : Prop where
  length : waiting.length = p.stages.length
  count : ∀ t < p.stages.length,
    waiting.getD t 0 = (p.stage t).predecessors.countP fun q => !done.contains q

theorem counts_start (p : Plan) :
    p.Counts [] (p.stages.map fun s => s.predecessors.length) := by
  refine ⟨List.length_map _, fun t ht => ?_⟩
  have hall : (p.stage t).predecessors.countP (fun q => !([] : List StageId).contains q) =
      (p.stage t).predecessors.length := List.countP_eq_length.mpr fun _ _ => rfl
  rw [hall]
  unfold stage
  rw [List.getD_eq_getElem?_getD, List.getD_eq_getElem?_getD, List.getElem?_map,
    List.getElem?_eq_getElem ht]
  rfl

/-- Counting some stages down, each once. -/
theorem countDown_spec : ∀ (ts : List StageId) (waiting : List Nat), ts.Nodup →
    (∀ t ∈ ts, t < waiting.length) →
    (countDown ts waiting).1.length = waiting.length ∧
    (∀ t, (countDown ts waiting).1.getD t 0 =
      if t ∈ ts then waiting.getD t 0 - 1 else waiting.getD t 0) ∧
    (countDown ts waiting).2 = ts.filter fun t => waiting.getD t 0 - 1 == 0
  | [], waiting, _, _ => ⟨rfl, fun _ => rfl, rfl⟩
  | t :: ts, waiting, hnodup, hlt => by
    obtain ⟨hnew, hrest⟩ := List.nodup_cons.mp hnodup
    have hother : ∀ u, u ≠ t → (waiting.set t (waiting.getD t 0 - 1)).getD u 0 =
        waiting.getD u 0 := fun u hu => by
      rw [List.getD_eq_getElem?_getD, List.getElem?_set_ne hu.symm, ← List.getD_eq_getElem?_getD]
    have hsame : (waiting.set t (waiting.getD t 0 - 1)).getD t 0 = waiting.getD t 0 - 1 := by
      rw [List.getD_eq_getElem?_getD, List.getElem?_set_self (hlt t List.mem_cons_self)]
      rfl
    obtain ⟨hlen, hcount, hfreed⟩ := countDown_spec ts
      (waiting.set t (waiting.getD t 0 - 1)) hrest fun u hu => by
        rw [List.length_set]
        exact hlt u (List.mem_cons_of_mem t hu)
    refine ⟨hlen.trans List.length_set, fun u => ?_, ?_⟩
    · change (countDown ts (waiting.set t (waiting.getD t 0 - 1))).1.getD u 0 = _
      rw [hcount]
      by_cases hu : u = t
      · subst hu
        rw [if_neg hnew, if_pos List.mem_cons_self, hsame]
      · rw [hother u hu]
        simp only [List.mem_cons, hu, false_or]
    · have hlast : ts.filter (fun u => (waiting.set t (waiting.getD t 0 - 1)).getD u 0 - 1 == 0) =
          ts.filter fun u => waiting.getD u 0 - 1 == 0 := by
        refine List.filter_congr fun u hu => ?_
        rw [hother u fun heq => hnew (heq ▸ hu)]
      change (if waiting.getD t 0 - 1 = 0 then t :: _ else _) = _
      rw [hfreed, hlast, List.filter_cons]
      simp only [beq_iff_eq]

/-- **No count falls below zero**: a stage still waits for the stage that is taken up. -/
theorem Counts.pos (hp : p.IsLinked) (h : p.Counts done waiting) (hnew : s ∉ done)
    (ht : t ∈ (p.stage s).successors) : 0 < waiting.getD t 0 := by
  have hs := (hp.successors_iff s t).mp ht
  rw [h.count t (hp.rising s t hs).2, List.countP_pos_iff]
  exact ⟨s, hs, by simpa using hnew⟩

/-- One more stage was taken up: whoever waits for it waits for one stage less. -/
theorem countP_append_singleton (qs : List StageId) (hnew : s ∉ done) :
    qs.countP (fun q => !done.contains q) =
      qs.countP (fun q => !(done ++ [s]).contains q) + qs.count s := by
  induction qs with
  | nil => rfl
  | cons q qs ih =>
    rw [List.countP_cons, List.countP_cons, List.count_cons, ih]
    by_cases hq : q = s
    · subst hq
      have hold : (!done.contains q) = true := by simpa using hnew
      have hlast : (!(done ++ [q]).contains q) = false := by simp
      simp only [hold, hlast, BEq.rfl, if_true, Bool.false_eq_true, if_false]
      omega
    · have hsame : (done ++ [s]).contains q = done.contains q := by
        rw [Bool.eq_iff_iff, List.contains_iff_mem, List.contains_iff_mem, List.mem_append,
          List.mem_singleton, or_iff_left hq]
      have hother : ¬ (q == s) = true := fun h => hq (beq_iff_eq.mp h)
      rw [hsame, if_neg hother]
      omega

/-- **Counting down** what the successors of a stage wait for sets free those that wait for nothing
any more. -/
theorem Counts.step (hp : p.IsLinked) (h : p.Counts done waiting) (hnew : s ∉ done) :
    p.Counts (done ++ [s]) (countDown (p.stage s).successors waiting).1 ∧
      (countDown (p.stage s).successors waiting).2 = p.freed (done ++ [s]) s := by
  have hlt : ∀ t ∈ (p.stage s).successors, t < p.stages.length := fun t ht =>
    (hp.rising s t ((hp.successors_iff s t).mp ht)).2
  obtain ⟨hlen, hcount, hfreed⟩ := countDown_spec _ waiting (hp.nodup s) fun t ht =>
    h.length.symm ▸ hlt t ht
  have hnext : ∀ t < p.stages.length, (countDown (p.stage s).successors waiting).1.getD t 0 =
      (p.stage t).predecessors.countP fun q => !(done ++ [s]).contains q := fun t ht => by
    rw [hcount, h.count t ht, countP_append_singleton _ hnew]
    by_cases hs : s ∈ (p.stage t).predecessors
    · rw [if_pos ((hp.successors_iff s t).mpr hs),
        List.count_eq_one_of_mem (hp.nodup_predecessors t) hs, Nat.add_sub_cancel]
    · rw [if_neg fun ht' => hs ((hp.successors_iff s t).mp ht'), List.count_eq_zero.mpr hs,
        Nat.add_zero]
  refine ⟨⟨hlen.trans h.length, hnext⟩, ?_⟩
  rw [hfreed]
  refine List.filter_congr fun t ht => ?_
  have hzero := hnext t (hlt t ht)
  rw [hcount, if_pos ht] at hzero
  rw [hzero, Bool.eq_iff_iff, beq_iff_eq, List.countP_eq_zero, List.all_eq_true]
  simp only [Bool.not_eq_true', Bool.not_eq_false]

/-- The stages that were taken up and those that wait: each once, a stage as soon as its
predecessors were taken up, and those with the longer chains later. -/
structure Queued (p : Plan) (done queue : List StageId) : Prop where
  nodup : (done ++ queue).Nodup
  mem_iff : ∀ s, s ∈ done ++ queue ↔
    s < p.stages.length ∧ ∀ q ∈ (p.stage s).predecessors, q ∈ done
  sorted : (done ++ queue).Pairwise fun s t => p.depth s ≤ p.depth t

theorem queued_start (hp : p.IsLinked) : p.Queued [] p.startingStages := by
  have hmem : ∀ s, s ∈ p.startingStages ↔
      s < p.stages.length ∧ ∀ q ∈ (p.stage s).predecessors, q ∈ ([] : List StageId) := fun s => by
    unfold startingStages stageIds Stage.isStarting
    rw [List.mem_filter, List.mem_range, List.isEmpty_iff, List.eq_nil_iff_forall_not_mem]
    simp only [List.not_mem_nil]
  have hzero : ∀ s ∈ p.startingStages, p.depth s = 0 := fun s hs => by
    by_contra hpos
    obtain ⟨n, hn⟩ := Nat.exists_eq_succ_of_ne_zero hpos
    obtain ⟨q, hq, -⟩ := hp.exists_depth_succ hn
    exact List.not_mem_nil (((hmem s).mp hs).2 q hq)
  refine ⟨List.nodup_range.filter _, hmem, ?_⟩
  refine List.pairwise_of_forall_mem_list fun s hs t ht => ?_
  rw [hzero s hs]
  exact Nat.zero_le _

namespace Queued

/-- Whatever was taken up, and the first one that waits, is no deeper than that one. -/
theorem depth_le (h : p.Queued done (s :: queue)) (hq : q ∈ done ++ [s]) :
    p.depth q ≤ p.depth s := by
  rcases List.mem_append.mp hq with hq | hq
  · exact (List.pairwise_append.mp h.sorted).2.2 q hq s List.mem_cons_self
  · rw [List.mem_singleton.mp hq]

/-- The stage that came first was not taken up before. -/
theorem notMem (h : p.Queued done (s :: queue)) : s ∉ done := fun hs =>
  (List.nodup_append.mp h.nodup).2.2 s hs s List.mem_cons_self rfl

/-- **Taking up the stage that came first keeps the order**: what it sets free is one deeper than
it, and what is there already is no deeper than that. -/
theorem step (hp : p.IsLinked) (h : p.Queued done (s :: queue)) :
    p.Queued (done ++ [s]) (queue ++ p.freed (done ++ [s]) s) := by
  have hassoc : done ++ [s] ++ (queue ++ p.freed (done ++ [s]) s) =
      (done ++ s :: queue) ++ p.freed (done ++ [s]) s := by simp
  have hfresh := h.notMem
  refine ⟨?_, fun x => ?_, ?_⟩
  · rw [hassoc, List.nodup_append]
    refine ⟨h.nodup, (hp.nodup s).filter _, fun x hx y hy => ?_⟩
    rintro rfl
    exact hfresh (((h.mem_iff x).mp hx).2 s ((mem_freed hp).mp hy).1)
  · rw [hassoc, List.mem_append, h.mem_iff, mem_freed hp]
    constructor
    · rintro (⟨hlt, hall⟩ | ⟨hs, hall⟩)
      · exact ⟨hlt, fun q hq => List.mem_append_left _ (hall q hq)⟩
      · exact ⟨(hp.rising _ _ hs).2, hall⟩
    · rintro ⟨hlt, hall⟩
      by_cases hs : s ∈ (p.stage x).predecessors
      · exact Or.inr ⟨hs, hall⟩
      · refine Or.inl ⟨hlt, fun q hq => ?_⟩
        rcases List.mem_append.mp (hall q hq) with hdone | hlast
        · exact hdone
        · exact absurd (List.mem_singleton.mp hlast ▸ hq) hs
  · have hold : ∀ x ∈ done ++ s :: queue, p.depth x ≤ p.depth s + 1 := fun x hx =>
      hp.depth_le_succ fun q hq =>
        h.depth_le (List.mem_append_left _ (((h.mem_iff x).mp hx).2 q hq))
    have hnew : ∀ x ∈ p.freed (done ++ [s]) s, p.depth x = p.depth s + 1 := fun x hx => by
      obtain ⟨hs, hall⟩ := (mem_freed hp).mp hx
      exact Nat.le_antisymm (hp.depth_le_succ fun q hq => h.depth_le (hall q hq)) (hp.depth_lt hs)
    rw [hassoc, List.pairwise_append]
    refine ⟨h.sorted, ?_, fun x hx y hy => hnew y hy ▸ hold x hx⟩
    exact List.pairwise_of_forall_mem_list fun x hx y hy =>
      Nat.le_of_eq ((hnew x hx).trans (hnew y hy).symm)

/-- Once as many stages were taken up as there are, none waits. -/
theorem eq_nil (h : p.Queued done queue) (hlen : p.stages.length ≤ done.length) : queue = [] := by
  have hsub : (done ++ queue).length ≤ (List.range p.stages.length).length :=
    Digraph.length_le_of_subset h.nodup fun s hs => List.mem_range.mpr ((h.mem_iff s).mp hs).1
  rw [List.length_append, List.length_range] at hsub
  exact List.eq_nil_of_length_eq_zero (by omega)

/-- With fuel for all stages none waits in the end. -/
theorem orderFrom (hp : p.IsLinked) : ∀ (fuel : Nat) {done queue : List StageId}
    {waiting : List Nat}, p.Queued done queue → p.Counts done waiting →
      p.stages.length ≤ done.length + fuel →
      p.Queued (done ++ p.orderFrom fuel waiting queue) []
  | 0, done, queue, _, h, _, hf => by
    obtain rfl := h.eq_nil hf
    exact (List.append_nil done).symm ▸ h
  | _ + 1, done, [], _, h, _, _ => (List.append_nil done).symm ▸ h
  | fuel + 1, done, s :: queue, waiting, h, hc, hf => by
    obtain ⟨hc', hfreed⟩ := hc.step hp h.notMem
    change p.Queued (done ++ s :: p.orderFrom fuel _ _) []
    rw [hfreed, List.append_cons]
    refine Queued.orderFrom hp fuel (h.step hp) hc' ?_
    rw [List.length_append, List.length_singleton]
    omega

end Queued

theorem queued_topologicalOrder (hp : p.IsLinked) : p.Queued p.topologicalOrder [] :=
  (queued_start hp).orderFrom hp _ p.counts_start (by simp)

/-- The order lists all stages. -/
theorem mem_topologicalOrder (hp : p.IsLinked) :
    s ∈ p.topologicalOrder ↔ s < p.stages.length := by
  have hmem := (queued_topologicalOrder hp).mem_iff
  simp only [List.append_nil] at hmem
  refine ⟨fun hs => ((hmem s).mp hs).1, fun hlt => ?_⟩
  induction s using Nat.strong_induction_on with
  | _ s ih =>
    refine (hmem s).mpr ⟨hlt, fun q hq => ?_⟩
    have hq' := (hp.rising q s hq).1
    exact ih q hq' (hq'.trans hlt)

theorem nodup_topologicalOrder (hp : p.IsLinked) : p.topologicalOrder.Nodup := by
  simpa using (queued_topologicalOrder hp).nodup

theorem sorted_topologicalOrder (hp : p.IsLinked) :
    p.topologicalOrder.Pairwise fun s t => p.depth s ≤ p.depth t := by
  simpa using (queued_topologicalOrder hp).sorted

/-! ## Levels -/

/-- The stages get their depths as levels, as long as each comes after its predecessors. -/
theorem levelsFrom_eq (hp : p.IsLinked) : ∀ {order done : List StageId},
    (done ++ order).Pairwise (fun s t => p.depth s ≤ p.depth t) →
    (∀ s ∈ order, ∀ q ∈ (p.stage s).predecessors, q ∈ done ++ order) →
    p.levelsFrom order (done.map fun s => (s, p.depth s)) =
      (done ++ order).map fun s => (s, p.depth s)
  | [], done, _, _ => by simp [levelsFrom]
  | s :: order, done, hsorted, hbefore => by
    -- a predecessor is less deep, so it does not come behind
    have hdone : ∀ q ∈ (p.stage s).predecessors, q ∈ done := fun q hq => by
      have hlt := hp.depth_lt hq
      rcases List.mem_append.mp (hbefore s List.mem_cons_self q hq) with hmem | hmem
      · exact hmem
      · rcases List.mem_cons.mp hmem with rfl | hmem
        · exact absurd hlt (Nat.lt_irrefl _)
        · have hrest := (List.pairwise_append.mp hsorted).2.1
          exact absurd ((List.pairwise_cons.mp hrest).1 q hmem) (Nat.not_le_of_lt hlt)
    have hbelow : ((p.stage s).predecessors.filterMap fun q =>
        (done.map fun s => (s, p.depth s)).lookup q) = (p.stage s).predecessors.map p.depth := by
      rw [List.filterMap_congr fun q hq => List.lookup_graph p.depth (hdone q hq)]
      exact congrFun List.filterMap_eq_map _
    have hstep : p.levelsFrom (s :: order) (done.map fun s => (s, p.depth s)) =
        p.levelsFrom order ((done ++ [s]).map fun s => (s, p.depth s)) := by
      rw [levelsFrom, hbelow, List.map_map, List.map_append]
      have hlevel : ((p.stage s).predecessors.map ((· + 1) ∘ p.depth)).foldl max 0 = p.depth s :=
        hp.foldl_depth s
      simp only [hlevel, List.map_cons, List.map_nil]
    have hassoc : done ++ [s] ++ order = done ++ s :: order := by simp
    rw [hstep, levelsFrom_eq hp (hassoc ▸ hsorted), hassoc]
    rw [hassoc]
    exact fun t ht => hbefore t (List.mem_cons_of_mem _ ht)

theorem levels_eq (hp : p.IsLinked) :
    p.levels = p.topologicalOrder.map fun s => (s, p.depth s) := by
  have hsorted : ([] ++ p.topologicalOrder).Pairwise fun s t => p.depth s ≤ p.depth t :=
    sorted_topologicalOrder hp
  have hbefore : ∀ s ∈ p.topologicalOrder, ∀ q ∈ (p.stage s).predecessors,
      q ∈ [] ++ p.topologicalOrder := fun s _ q hq => by
    have hlt := hp.rising q s hq
    exact (mem_topologicalOrder hp).mpr (hlt.1.trans hlt.2)
  exact levelsFrom_eq hp hsorted hbefore

/-- One more than the greatest depth. -/
noncomputable def height (p : Plan) : Nat :=
  (p.topologicalOrder.map fun s => p.depth s + 1).foldl max 0

theorem parallelStages_eq (hp : p.IsLinked) : p.parallelStages =
    (List.range p.height).map fun l => p.topologicalOrder.filter (p.depth · == l) := by
  unfold parallelStages height
  simp only [levels_eq hp, List.map_map, List.filter_map]
  refine List.map_congr_left fun l _ => ?_
  exact List.map_id _

theorem lt_height_iff (hp : p.IsLinked) :
    n < p.height ↔ ∃ s < p.stages.length, p.depth s = n := by
  rw [← not_iff_not, Nat.not_lt, height, foldl_max_le_iff]
  simp only [List.forall_mem_map, mem_topologicalOrder hp, Nat.zero_le, true_and, not_exists,
    not_and]
  constructor
  · rintro hall s hlt rfl
    exact absurd (hall s hlt) (Nat.not_succ_le_self _)
  · intro hno s hlt
    by_contra hle
    obtain ⟨m, hm⟩ := Nat.exists_eq_add_of_le (Nat.le_of_lt_succ (Nat.lt_of_not_le hle))
    obtain ⟨q, hq, hdepth⟩ := hp.exists_depth hlt hm
    exact hno q hq hdepth

/-- What the order and the levels of the stages are. -/
structure IsLayered (p : Plan) : Prop where
  /-- The order lists each stage once. -/
  perm : p.topologicalOrder.Perm p.stageIds
  ordered : ∀ s, ∀ q ∈ (p.stage s).predecessors,
    p.topologicalOrder.idxOf q < p.topologicalOrder.idxOf s
  /-- The level of a stage is the length of the longest chain that ends in it. -/
  mem_level_iff : ∀ l s, s ∈ p.parallelStages.getD l [] ↔
    s < p.stages.length ∧ IsGreatest {n | p.HasChain n s} l
  ne_nil : ∀ level ∈ p.parallelStages, level ≠ []
  apart : ∀ level ∈ p.parallelStages, ∀ s ∈ level, ∀ t ∈ level,
    ¬ Relation.TransGen (fun x y => y ∈ (p.stage x).successors) s t
  flatten : p.parallelStages.flatten = p.topologicalOrder

/-- In a sorted list what is less deep comes before. -/
theorem idxOf_lt_of_depth {order : List StageId}
    (h : order.Pairwise fun s t => p.depth s ≤ p.depth t) (hs : s ∈ order) (ht : t ∈ order)
    (hlt : p.depth s < p.depth t) : order.idxOf s < order.idxOf t := by
  by_contra hle
  have hne : order.idxOf t ≠ order.idxOf s := fun heq => by
    rw [(List.idxOf_inj ht).mp heq] at hlt
    exact Nat.lt_irrefl _ hlt
  have hback : order.idxOf t < order.idxOf s := by omega
  have hsl := List.idxOf_lt_length_of_mem hs
  have := List.pairwise_iff_getElem.mp h _ _ (hback.trans hsl) hsl hback
  rw [List.getElem_idxOf, List.getElem_idxOf] at this
  exact absurd this (Nat.not_le_of_lt hlt)

namespace IsLinked

theorem perm_topologicalOrder (hp : p.IsLinked) : p.topologicalOrder.Perm p.stageIds := by
  refine (List.perm_ext_iff_of_nodup (nodup_topologicalOrder hp) List.nodup_range).mpr fun s => ?_
  rw [mem_topologicalOrder hp]
  exact List.mem_range.symm

/-- A predecessor comes before the stages behind it. -/
theorem idxOf_topologicalOrder_lt (hp : p.IsLinked) (hq : q ∈ (p.stage s).predecessors) :
    p.topologicalOrder.idxOf q < p.topologicalOrder.idxOf s := by
  have hlt := hp.rising q s hq
  exact idxOf_lt_of_depth (sorted_topologicalOrder hp)
    ((mem_topologicalOrder hp).mpr (hlt.1.trans hlt.2)) ((mem_topologicalOrder hp).mpr hlt.2)
    (hp.depth_lt hq)

/-- On a level are the stages of that depth. -/
theorem mem_getD_parallelStages (hp : p.IsLinked) {l : Nat} :
    s ∈ p.parallelStages.getD l [] ↔ s < p.stages.length ∧ p.depth s = l := by
  rw [parallelStages_eq hp, List.getD_eq_getElem?_getD, List.getElem?_map]
  by_cases hl : l < p.height
  · rw [List.getElem?_range hl]
    simp [mem_topologicalOrder hp]
  · rw [List.getElem?_eq_none (by simpa using hl)]
    refine iff_of_false (by simp) fun ⟨hlt, hdepth⟩ => hl ?_
    exact (lt_height_iff hp).mpr ⟨s, hlt, hdepth⟩

/-- A level has a depth, and some stage has it. -/
theorem exists_of_mem_parallelStages (hp : p.IsLinked) {level : List StageId}
    (h : level ∈ p.parallelStages) : ∃ l, (∀ s ∈ level, p.depth s = l) ∧ ∃ s, s ∈ level := by
  rw [parallelStages_eq hp] at h
  obtain ⟨l, hl, rfl⟩ := List.mem_map.mp h
  obtain ⟨s, hlt, hdepth⟩ := (lt_height_iff hp).mp (List.mem_range.mp hl)
  refine ⟨l, fun t ht => beq_iff_eq.mp (List.mem_filter.mp ht).2, s, ?_⟩
  exact List.mem_filter.mpr ⟨(mem_topologicalOrder hp).mpr hlt, beq_iff_eq.mpr hdepth⟩

/-- The levels one behind the other are the order. -/
theorem flatten_parallelStages (hp : p.IsLinked) :
    p.parallelStages.flatten = p.topologicalOrder := by
  rw [parallelStages_eq hp, flatten_filter_key (sorted_topologicalOrder hp), List.filter_eq_self]
  intro s hs
  exact decide_eq_true ((lt_height_iff hp).mpr ⟨s, (mem_topologicalOrder hp).mp hs, rfl⟩)

end IsLinked

end Plan

namespace PreliminaryPlan

theorem isLinked_of_assign {p : PreliminaryPlan} {plan : Plan} (hg : p.graph.Built)
    (h : p.assign = .ok plan) : plan.IsLinked := by
  obtain ⟨hs, -⟩ := assign_eq_ok hg h
  obtain ⟨r, -, hfin⟩ := finished_of_assign hg h
  refine ⟨fun s t => ?_, fun s => ?_, fun s => ?_, fun s t hst => lt_of_mem_predecessors hg h hst⟩
  · rw [hfin.mem_successors_iff hg.wired hs, hfin.mem_predecessors_iff hg.wired hs]
  · exact hfin.sorted.2.1.imp Nat.ne_of_lt
  · exact hfin.sorted.1.imp Nat.ne_of_lt

/-- **The order of the stages and their levels**: every stage is listed once and after its
predecessors; its level is the length of the longest chain of predecessors that ends in it, so that
no level is empty and no path connects two stages of one; and the levels one behind the other are
the order. -/
theorem assign_layered {p : PreliminaryPlan} {plan : Plan} (hg : p.graph.Built)
    (h : p.assign = .ok plan) : plan.IsLayered := by
  have hp := isLinked_of_assign hg h
  refine ⟨hp.perm_topologicalOrder, fun s q hq => hp.idxOf_topologicalOrder_lt hq, fun l s => ?_,
    fun level hlevel => ?_, fun level hlevel s hs t ht hpath => ?_, hp.flatten_parallelStages⟩
  · rw [hp.mem_getD_parallelStages, hp.isGreatest_iff]
  · obtain ⟨l, -, s, hs⟩ := hp.exists_of_mem_parallelStages hlevel
    exact List.ne_nil_of_mem hs
  · -- along a path the depth rises, and on a level it is the same
    obtain ⟨l, hdepth, -⟩ := hp.exists_of_mem_parallelStages hlevel
    have hlt := hp.depth_lt_of_trans hpath
    rw [hdepth s hs, hdepth t ht] at hlt
    exact Nat.lt_irrefl _ hlt

/-- Two sources, the first of which is read through one operator more than the second. -/
def lateSource : PreliminaryPlan where
  graph := ((((((TaskGraph.empty.addTask
    { object := 0, name := "read", platform := ⟨"a"⟩, inputs := [], outputs := [.any] }).addTask
    { object := 1, name := "count", platform := ⟨"b"⟩, inputs := [.any], outputs := [.any] }).addTask
    { object := 2, name := "join", platform := ⟨"a"⟩, inputs := [.any, .any], outputs := [] }).addTask
    { object := 3, name := "load", platform := ⟨"b"⟩, inputs := [], outputs := [.any] }).wire
      0 0 1 0 .collection).wire 1 0 2 0 .collection).wire 3 0 2 1 .collection
  sinks := [2]

theorem built_lateSource : lateSource.graph.Built :=
  .wire (.wire (.wire (.addTask _ (.addTask _ (.addTask _ (.addTask _ .empty)))) rfl) rfl) rfl

/-- Loading waits for nothing and comes before counting, although its number is larger. -/
theorem lateSource_layered : lateSource.graph.Built ∧ ∃ plan, lateSource.assign = .ok plan ∧
    plan.IsLayered ∧ plan.topologicalOrder = [0, 2, 1, 3] ∧
    plan.parallelStages = [[0, 2], [1], [3]] := by
  obtain ⟨plan, h, horder⟩ : ∃ plan, lateSource.assign = .ok plan ∧
      plan.topologicalOrder = [0, 2, 1, 3] ∧ plan.parallelStages = [[0, 2], [1], [3]] :=
    exists_assign_of_decide (by decide +kernel)
  exact ⟨built_lateSource, plan, h, assign_layered built_lateSource h, horder⟩

end PreliminaryPlan

end Dataflow
