import Dataflow.Digraph.Cycle
import Dataflow.Digraph.Numbering
import Dataflow.Proofs.Digraph.Reach
import Mathlib.Data.Fintype.EquivFin
import Mathlib.Data.List.Chain
import Mathlib.Data.List.GetD

/-!
# Graphs without cycles

A node is grounded when no infinite walk starts from it. In a finite graph the depth-first search
either finds a cycle or shows every node grounded, and a graph whose nodes are grounded backwards
can be numbered along its edges.

* `findCycle_some`, **`findCycle_none`**: what the search finds is a cycle; when it finds none,
  every node is grounded.
* `exists_cycle_of_endless`: a walk without end runs into a cycle.
* `Grounded.not_trans`: a grounded node leads to no cycle, in particular it is on none.
* `grounded_reverse`: in a finite graph walks may be read against the edges.
* **`numbering_spec`**: when every node is grounded against the edges, the numbering lists every
  node once and after its predecessors.
-/

namespace Dataflow.Digraph

/-- No infinite walk starts from a node. -/
def Grounded (next : Nat → List Nat) (x : Nat) : Prop := Acc (fun b a => b ∈ next a) x

/-- A closed walk. -/
structure IsCycle (next : Nat → List Nat) (cycle : List Nat) : Prop where
  ne_nil : cycle ≠ []
  closed : (cycle ++ cycle.take 1).IsChain (Leads next)

/-- Induction along walks of one step or more. -/
theorem Grounded.induction {next : Nat → List Nat} {C : Nat → Prop}
    (hC : ∀ x, (∀ y, Relation.TransGen (Leads next) x y → C y) → C x) {x : Nat}
    (h : Grounded next x) : C x := by
  have hacc := h.transGen
  clear h
  induction hacc with
  | intro x _ ih => exact hC x fun y hy => ih y (Relation.transGen_swap.mp hy)

theorem Grounded.not_trans {next : Nat → List Nat} {x : Nat} (h : Grounded next x) :
    ¬ Relation.TransGen (Leads next) x x := by
  refine h.induction (C := fun x => ¬ Relation.TransGen (Leads next) x x) ?_
  intro x ih hx
  exact ih x hx hx

/-- Each node of a closed walk leads to the next one, and the last to the first. -/
theorem IsCycle.step {next : Nat → List Nat} {cycle : List Nat} (h : IsCycle next cycle) {j : Nat}
    (hj : j < cycle.length) :
    cycle.getD ((j + 1) % cycle.length) 0 ∈ next (cycle.getD j 0) := by
  have hlen : (cycle ++ cycle.take 1).length = cycle.length + 1 := by
    rw [List.length_append, List.length_take]
    omega
  have hstep := h.closed.getElem j (by omega)
  rw [List.getElem_append_left hj] at hstep
  rw [List.getD_eq_getElem _ _ hj]
  by_cases hlast : j + 1 < cycle.length
  · rw [Nat.mod_eq_of_lt hlast, List.getD_eq_getElem _ _ hlast]
    rwa [List.getElem_append_left hlast] at hstep
  · have heq : j + 1 = cycle.length := by omega
    rw [heq, Nat.mod_self, List.getD_eq_getElem _ _ (by omega)]
    rw [List.getElem_append_right (by omega)] at hstep
    simpa [heq, Leads] using hstep

/-- A closed walk leads from its first node back to it. -/
theorem IsCycle.trans {next : Nat → List Nat} {cycle : List Nat} (h : IsCycle next cycle) :
    ∃ x ∈ cycle, Relation.TransGen (Leads next) x x := by
  obtain ⟨x, rest, rfl⟩ := List.exists_cons_of_ne_nil h.ne_nil
  refine ⟨x, List.mem_cons_self, ?_⟩
  have hwalk : ∀ (ys : List Nat) (y : Nat), (y :: (ys ++ [x])).IsChain (Leads next) →
      Relation.TransGen (Leads next) y x := by
    intro ys
    induction ys with
    | nil => exact fun y hc => Relation.TransGen.single (List.isChain_cons_cons.mp hc).1
    | cons z ys ih =>
      intro y hc
      obtain ⟨hyz, hc⟩ := List.isChain_cons_cons.mp hc
      exact Relation.TransGen.head hyz (ih z hc)
  exact hwalk rest x (by simpa using h.closed)

/-- In a finite graph, a node from which every walk can go on leads into a cycle. -/
theorem exists_cycle_of_endless {r : Nat → Nat → Prop} {x n : Nat}
    (hlt : ∀ y, Relation.ReflTransGen r x y → y < n)
    (hnext : ∀ y, Relation.ReflTransGen r x y → ∃ z, r y z) :
    ∃ y, Relation.ReflTransGen r x y ∧ Relation.TransGen r y y := by
  by_contra hno
  -- without a cycle, walking on is a strict order of the finitely many nodes that `x` leads to
  let after (a b : { y : Fin n // Relation.ReflTransGen r x y }) : Prop :=
    Relation.TransGen r b.1.1 a.1.1
  have : IsTrans _ after := ⟨fun a b c hab hbc => hbc.trans hab⟩
  have : Std.Irrefl after := ⟨fun a ha => hno ⟨a.1.1, a.2, ha⟩⟩
  have hend : ∀ a, Acc after a → False := by
    intro a hacc
    induction hacc with
    | intro a _ ih =>
      obtain ⟨z, hz⟩ := hnext a.1.1 a.2
      have hreach := a.2.tail hz
      exact ih ⟨⟨z, hlt z hreach⟩, hreach⟩ (.single hz)
  exact hend ⟨⟨x, hlt x .refl⟩, .refl⟩ ((Finite.wellFounded_of_trans_of_irrefl after).apply _)

/-! ## The depth-first search -/

/-- The way back from `node` to the first visit of `succ`, read forwards, is a cycle. -/
theorem isCycle_of_path {next : Nat → List Nat} {path : List Nat} {node succ : Nat}
    (hc : (node :: path).IsChain fun a b => a ∈ next b) (hs : succ ∈ next node)
    (hm : succ ∈ node :: path) :
    IsCycle next (succ :: ((node :: path).takeWhile (· != succ)).reverse) := by
  obtain ⟨before, after, hpath, hnot⟩ := List.eq_append_cons_of_mem hm
  have htake : (node :: path).takeWhile (· != succ) = before := by
    have hne : ∀ x ∈ before, (x != succ) = true := by
      intro x hx
      rw [bne_iff_ne]
      rintro rfl
      exact hnot hx
    rw [hpath, List.takeWhile_append_of_pos hne]
    simp
  have hpre : (before ++ [succ]).IsChain fun a b => a ∈ next b := by
    rw [hpath] at hc
    exact hc.prefix ⟨after, by simp⟩
  have hback : (succ :: (before ++ [succ])).IsChain fun a b => a ∈ next b := by
    cases before with
    | nil =>
      obtain rfl : node = succ := by simpa using congrArg List.head? hpath
      simpa using hs
    | cons x xs =>
      obtain rfl : node = x := by simpa using congrArg List.head? hpath
      exact List.isChain_cons_cons.mpr ⟨hs, hpre⟩
  have hrev := List.isChain_reverse.mpr hback
  rw [htake]
  refine ⟨by simp, ?_⟩
  change List.IsChain (fun a b => b ∈ next a) _
  simpa using hrev

/-- Every visited node that is not on the way is grounded. -/
def Settled (next : Nat → List Nat) (path visited : List Nat) : Prop :=
  ∀ x ∈ visited, x ∉ path → Grounded next x

/-- What the exploration of `ys` promises: a cycle, or that the visited nodes are still settled
and that `ys` are grounded. -/
def Explored (next : Nat → List Nat) (path ys : List Nat) :
    Except (List Nat) (List Nat) → Prop
  | .error cycle => IsCycle next cycle
  | .ok visited => Settled next path visited ∧ ∀ y ∈ ys, Grounded next y

/-- Exploring one node after the other explores them all. -/
theorem foldlM_explored {next : Nat → List Nat} {path : List Nat}
    {step : List Nat → Nat → Except (List Nat) (List Nat)} :
    ∀ (ys visited : List Nat), (∀ y ∈ ys, ∀ visited, Settled next path visited →
        Explored next path [y] (step visited y)) →
      Settled next path visited → Explored next path ys (ys.foldlM step visited)
  | [], _, _, hset => ⟨hset, by simp⟩
  | y :: ys, visited, hstep, hset => by
    have hy := hstep y List.mem_cons_self visited hset
    rw [List.foldlM_cons]
    cases hx : step visited y with
    | error cycle => rw [hx] at hy; exact hy
    | ok visited' =>
      rw [hx] at hy
      have hrest := foldlM_explored ys visited'
        (fun z hz => hstep z (List.mem_cons_of_mem _ hz)) hy.1
      change Explored next path (y :: ys) (ys.foldlM step visited')
      cases hr : ys.foldlM step visited' with
      | error cycle => rw [hr] at hrest; exact hrest
      | ok visited'' =>
        rw [hr] at hrest
        exact ⟨hrest.1, List.forall_mem_cons.mpr ⟨hy.2 y List.mem_cons_self, hrest.2⟩⟩

theorem explore_spec {next : Nat → List Nat} {nodes : List Nat} (hcl : IsClosed next nodes) :
    ∀ (fuel : Nat) (path visited : List Nat) (node : Nat), (node :: path).Nodup →
      (∀ x ∈ node :: path, x ∈ nodes) → (node :: path).IsChain (fun a b => a ∈ next b) →
      Settled next path visited → nodes.length ≤ path.length + fuel →
      Explored next path [node] (explore next fuel path visited node)
  | 0, path, _, node, hn, hin, _, _, hf => by
    have := length_le_of_subset hn hin
    rw [List.length_cons] at this
    omega
  | fuel + 1, path, visited, node, hn, hin, hc, hset, hf => by
    have hstart : Settled next (node :: path) (node :: visited) := by
      intro x hx hxp
      rw [List.mem_cons, not_or] at hxp
      rcases List.mem_cons.mp hx with rfl | hx
      · exact absurd rfl hxp.1
      · exact hset x hx hxp.2
    have hall : Explored next (node :: path) (next node)
        (explore next (fuel + 1) path visited node) := by
      rw [explore]
      refine foldlM_explored (next node) (node :: visited) (fun y hy visited hset => ?_) hstart
      by_cases hp : y ∈ node :: path
      · rw [if_pos hp]
        exact isCycle_of_path hc hy hp
      · rw [if_neg hp]
        by_cases hv : y ∈ visited
        · rw [if_pos hv]
          exact ⟨hset, by simpa using hset y hv hp⟩
        · rw [if_neg hv]
          have hyn := hcl node (hin node List.mem_cons_self) y hy
          exact explore_spec hcl fuel (node :: path) visited y (List.nodup_cons.mpr ⟨hp, hn⟩)
            (List.forall_mem_cons.mpr ⟨hyn, hin⟩) (List.isChain_cons_cons.mpr ⟨hy, hc⟩) hset
            (by rw [List.length_cons]; omega)
    cases hx : explore next (fuel + 1) path visited node with
    | error cycle => rw [hx] at hall; exact hall
    | ok visited' =>
      rw [hx] at hall
      have hnode : Grounded next node := Acc.intro node hall.2
      refine ⟨fun x hx hxp => ?_, by simpa using hnode⟩
      by_cases hxn : x = node
      · rw [hxn]
        exact hnode
      · exact hall.1 x hx (by simp [hxn, hxp])

theorem exploreAll_spec {next : Nat → List Nat} {nodes : List Nat} (hcl : IsClosed next nodes) :
    ∀ (xs visited : List Nat), (∀ x ∈ xs, x ∈ nodes) → Settled next [] visited →
      Explored next [] xs (exploreAll next nodes.length xs visited)
  | [], visited, _, hset => ⟨hset, by simp⟩
  | x :: xs, visited, hxs, hset => by
    have hxs' : ∀ y ∈ xs, y ∈ nodes := fun y hy => hxs y (List.mem_cons_of_mem _ hy)
    -- the rest is explored from settled nodes, with `x` grounded
    have hgo : ∀ visited', Settled next [] visited' → Grounded next x →
        Explored next [] (x :: xs) (exploreAll next nodes.length xs visited') := by
      intro visited' hset' hgx
      have hrest := exploreAll_spec hcl xs visited' hxs' hset'
      cases hr : exploreAll next nodes.length xs visited' with
      | error cycle => rw [hr] at hrest; exact hrest
      | ok visited'' =>
        rw [hr] at hrest
        exact ⟨hrest.1, List.forall_mem_cons.mpr ⟨hgx, hrest.2⟩⟩
    unfold exploreAll
    by_cases hv : x ∈ visited
    · rw [if_pos hv]
      exact hgo visited hset (hset x hv List.not_mem_nil)
    · rw [if_neg hv]
      have hx := explore_spec hcl nodes.length [] visited x (by simp)
        (by simpa using hxs x List.mem_cons_self) (by simp) hset (by simp)
      cases he : explore next nodes.length [] visited x with
      | error cycle => rw [he] at hx; exact hx
      | ok visited' =>
        rw [he] at hx
        exact hgo visited' hx.1 (hx.2 x List.mem_cons_self)

theorem findCycle_spec {next : Nat → List Nat} {nodes : List Nat} (hcl : IsClosed next nodes) :
    match findCycle next nodes with
    | some cycle => IsCycle next cycle
    | none => ∀ x ∈ nodes, Grounded next x := by
  have h := exploreAll_spec hcl nodes [] (fun _ h => h) (by simp [Settled])
  unfold findCycle
  cases hx : exploreAll next nodes.length nodes [] with
  | error cycle => rw [hx] at h; exact h
  | ok visited => rw [hx] at h; exact h.2

/-- What the search finds is a cycle. -/
theorem findCycle_some {next : Nat → List Nat} {nodes cycle : List Nat}
    (hcl : IsClosed next nodes) (h : findCycle next nodes = some cycle) : IsCycle next cycle := by
  have := findCycle_spec hcl
  rwa [h] at this

/-- **When the search finds no cycle, no infinite walk starts from any of the nodes.** -/
theorem findCycle_none {next : Nat → List Nat} {nodes : List Nat} (hcl : IsClosed next nodes)
    (h : findCycle next nodes = none) : ∀ x ∈ nodes, Grounded next x := by
  have := findCycle_spec hcl
  rwa [h] at this

/-- In a finite graph without infinite walks there are none against the edges either. -/
theorem grounded_reverse {next preds : Nat → List Nat} {nodes : List Nat}
    (hcl : IsClosed preds nodes) (hrev : ∀ x ∈ nodes, ∀ y ∈ preds x, x ∈ next y)
    (hg : ∀ x ∈ nodes, Grounded next x) : ∀ x ∈ nodes, Grounded preds x := by
  -- a cycle against the edges is sought in the graph that ends at the given nodes
  let inside (x : Nat) : List Nat := if x ∈ nodes then preds x else []
  have hinside : ∀ x y, y ∈ inside x ↔ x ∈ nodes ∧ y ∈ preds x := fun x y => by
    by_cases hx : x ∈ nodes <;> simp [inside, hx]
  have hground : ∀ x ∈ nodes, Grounded inside x := by
    have hcl' : IsClosed inside nodes := fun x hx y hy => hcl x hx y ((hinside x y).mp hy).2
    cases hc : findCycle inside nodes with
    | none => exact findCycle_none hcl' hc
    | some cycle =>
      exfalso
      obtain ⟨x, -, hx⟩ := (findCycle_some hcl' hc).trans
      have hnode : x ∈ nodes := by
        obtain ⟨y, hy, -⟩ := Relation.TransGen.head'_iff.mp hx
        exact ((hinside x y).mp hy).1
      refine (hg x hnode).not_trans (Relation.transGen_swap.mp ?_)
      exact Relation.TransGen.mono (fun a b hab =>
        hrev a ((hinside a b).mp hab).1 b ((hinside a b).mp hab).2) _ _ hx
  intro x hx
  refine (hground x hx).induction (C := fun x => x ∈ nodes → Grounded preds x) ?_ hx
  intro x ih hx
  exact Acc.intro x fun y hy =>
    ih y (Relation.TransGen.single ((hinside x y).mpr ⟨hx, hy⟩)) (hcl x hx y hy)

/-! ## The numbering -/

/-- Distinct nodes below `n`, each after its predecessors. -/
structure Numbered (preds : Nat → List Nat) (n : Nat) (placed : List Nat) : Prop where
  nodup : placed.Nodup
  lt : ∀ x ∈ placed, x < n
  ordered : ∀ before x after, placed = before ++ x :: after → ∀ y ∈ preds x, y ∈ before

theorem Numbered.append {preds : Nat → List Nat} {n : Nat} {placed : List Nat}
    (h : Numbered preds n placed) {x : Nat} (hx : x < n) (he : eligible preds placed x = true) :
    Numbered preds n (placed ++ [x]) := by
  unfold eligible at he
  simp only [Bool.and_eq_true, Bool.not_eq_true', List.all_eq_true, List.contains_iff_mem] at he
  have hnot : x ∉ placed := by simpa using he.1
  refine ⟨?_, fun y hy => ?_, fun before y after heq z hz => ?_⟩
  · rw [List.nodup_append]
    refine ⟨h.nodup, by simp, fun a ha b hb => ?_⟩
    rw [List.mem_singleton] at hb
    rintro rfl
    exact hnot (hb ▸ ha)
  · rcases List.mem_append.mp hy with hy | hy
    · exact h.lt y hy
    · rw [List.mem_singleton.mp hy]
      exact hx
  · rcases List.eq_nil_or_concat after with rfl | ⟨rest, last, rfl⟩
    · obtain ⟨rfl, hlast⟩ := List.append_inj' heq rfl
      obtain rfl : x = y := by simpa using hlast
      exact he.2 z hz
    · have heq' : placed ++ [x] = (before ++ y :: rest) ++ [last] := by simpa using heq
      exact h.ordered before y rest (List.append_inj' heq' rfl).1 z hz

/-- Where no node is eligible, every node has been placed. -/
theorem placed_of_none {preds : Nat → List Nat} {n : Nat} {placed : List Nat}
    (hcl : ∀ x < n, ∀ y ∈ preds x, y < n) (hg : ∀ x < n, Grounded preds x)
    (h : (List.range n).find? (eligible preds placed) = none) : ∀ x < n, x ∈ placed := by
  intro x hx
  refine (hg x hx).induction (C := fun x => x < n → x ∈ placed) (fun x ih hx => ?_) hx
  have hno := List.find?_eq_none.mp h x (List.mem_range.mpr hx)
  by_contra hnot
  refine hno ?_
  unfold eligible
  simp only [Bool.and_eq_true, Bool.not_eq_true', List.all_eq_true, List.contains_iff_mem]
  exact ⟨by simpa using hnot, fun y hy => ih y (Relation.TransGen.single hy) (hcl x hx y hy)⟩

theorem place_spec {preds : Nat → List Nat} {n : Nat} (hcl : ∀ x < n, ∀ y ∈ preds x, y < n)
    (hg : ∀ x < n, Grounded preds x) :
    ∀ (fuel : Nat) (placed : List Nat), Numbered preds n placed → n ≤ placed.length + fuel →
      Numbered preds n (place preds n fuel placed) ∧ ∀ x < n, x ∈ place preds n fuel placed
  | 0, placed, h, hf => by
    refine ⟨h, fun x hx => ?_⟩
    have hsub : placed.Subperm (List.range n) :=
      h.nodup.subperm fun x hx => List.mem_range.mpr (h.lt x hx)
    have hperm := hsub.perm_of_length_le (by rw [List.length_range]; omega)
    exact hperm.mem_iff.mpr (List.mem_range.mpr hx)
  | fuel + 1, placed, h, hf => by
    unfold place
    cases hfind : (List.range n).find? (eligible preds placed) with
    | none => exact ⟨h, placed_of_none hcl hg hfind⟩
    | some x =>
      have hx : x < n := List.mem_range.mp (List.mem_of_find?_eq_some hfind)
      have he : eligible preds placed x = true := List.find?_some hfind
      refine place_spec hcl hg fuel _ (h.append hx he) ?_
      rw [List.length_append, List.length_singleton]
      omega

/-- **When every node is grounded against the edges, the numbering lists the nodes below `n`, each
once and after its predecessors.** -/
theorem numbering_spec {preds : Nat → List Nat} {n : Nat} (hcl : ∀ x < n, ∀ y ∈ preds x, y < n)
    (hg : ∀ x < n, Grounded preds x) :
    Numbered preds n (numbering preds n) ∧ (numbering preds n).Perm (List.range n) := by
  have h0 : Numbered preds n [] := ⟨by simp, by simp, by simp⟩
  obtain ⟨hnum, hall⟩ := place_spec hcl hg n [] h0 (by simp)
  refine ⟨hnum, (List.perm_ext_iff_of_nodup hnum.nodup List.nodup_range).mpr fun x => ?_⟩
  rw [List.mem_range]
  exact ⟨hnum.lt x, hall x⟩

/-- A predecessor stands before the node. -/
theorem Numbered.idxOf_lt {preds : Nat → List Nat} {n : Nat} {placed : List Nat}
    (h : Numbered preds n placed) {x y : Nat} (hx : x ∈ placed) (hy : y ∈ preds x) :
    placed.idxOf y < placed.idxOf x := by
  obtain ⟨before, after, rfl, hnot⟩ := List.eq_append_cons_of_mem hx
  have hyb : y ∈ before := h.ordered before x after rfl y hy
  rw [List.idxOf_append_of_mem hyb, List.idxOf_append_of_notMem hnot]
  have := List.idxOf_lt_length_of_mem hyb
  omega

end Dataflow.Digraph
