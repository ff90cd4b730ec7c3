import Dataflow.Digraph.Closure
import Mathlib.Data.List.Perm.Subperm
import Mathlib.Logic.Relation

/-!
# The closure is the set of reachable nodes

`Digraph.closure` against reachability along the successor function.

* **`mem_closure_iff`**: a node is in the closure iff some start leads to it, provided that the
  bound is at least the number of nodes that a search can meet.
* `nodup_closure`: the closure lists a node once.
* `closure_congr`: the closure depends on the nodes that can be reached only.

What carries the proof is an invariant of the search (`SearchInv`) and a measure: a node is met once,
so there are no more steps than nodes, and with that much fuel the search ends because the queue is
empty. Then the nodes met are closed under successors.
-/

namespace Dataflow.Digraph

/-- `b` is a successor of `a`. -/
def Leads (next : Nat → List Nat) (a b : Nat) : Prop := b ∈ next a

/-- `b` can be reached from `a`. -/
abbrev Reaches (next : Nat → List Nat) : Nat → Nat → Prop := Relation.ReflTransGen (Leads next)

/-- A set of nodes that holds the successors of its members. -/
def IsClosed (next : Nat → List Nat) (nodes : List Nat) : Prop :=
  ∀ x ∈ nodes, ∀ y ∈ next x, y ∈ nodes

theorem IsClosed.reaches {next : Nat → List Nat} {nodes : List Nat} (h : IsClosed next nodes)
    {x y : Nat} (hx : x ∈ nodes) (hr : Reaches next x y) : y ∈ nodes := by
  induction hr with
  | refl => exact hx
  | tail _ hs ih => exact h _ ih _ hs

/-- A list of distinct members is no longer than the list they are taken from. -/
theorem length_le_of_subset {xs ys : List Nat} (hn : xs.Nodup) (hs : ∀ x ∈ xs, x ∈ ys) :
    xs.length ≤ ys.length :=
  (hn.subperm fun x hx => hs x hx).length_le

/-! ## The invariant of the search -/

/-- What a search knows: it met no node twice, met reachable nodes of `nodes` only, and met the
successors of every node that it took up. -/
structure SearchInv (next : Nat → List Nat) (nodes starts done queue : List Nat) : Prop where
  nodup : (done ++ queue).Nodup
  inside : ∀ x ∈ done ++ queue, x ∈ nodes
  reached : ∀ x ∈ done ++ queue, ∃ s ∈ starts, Reaches next s x
  starts : ∀ s ∈ starts, s ∈ done ++ queue
  closed : ∀ x ∈ done, ∀ y ∈ next x, y ∈ done ++ queue

theorem mem_append_enqueue {done queue ys : List Nat} {z : Nat} :
    z ∈ done ++ enqueue done queue ys ↔ z ∈ done ++ queue ∨ z ∈ ys := by
  rw [List.mem_append, mem_enqueue, List.mem_append]
  by_cases hz : z ∈ done <;> simp [hz]

theorem searchInv_start {next : Nat → List Nat} {nodes starts : List Nat}
    (hs : ∀ s ∈ starts, s ∈ nodes) :
    SearchInv next nodes starts [] (enqueue [] [] starts) := by
  have hmem : ∀ x, x ∈ ([] : List Nat) ++ enqueue [] [] starts ↔ x ∈ starts := fun x => by
    rw [mem_append_enqueue]
    simp
  refine ⟨nodup_append_enqueue (by simp), fun x hx => hs x ((hmem x).mp hx), fun x hx => ?_,
    fun s h => (hmem s).mpr h, by simp⟩
  exact ⟨x, (hmem x).mp hx, Relation.ReflTransGen.refl⟩

/-- Taking up the first node of the queue keeps what the search knows. -/
theorem searchInv_step {next : Nat → List Nat} {nodes starts done queue : List Nat} {x : Nat}
    (hcl : IsClosed next nodes) (h : SearchInv next nodes starts done (x :: queue)) :
    SearchInv next nodes starts (done ++ [x]) (enqueue (done ++ [x]) queue (next x)) := by
  have hsplit : done ++ [x] ++ queue = done ++ (x :: queue) := by simp
  have hx : x ∈ done ++ (x :: queue) := by simp
  have hmem : ∀ z, z ∈ done ++ [x] ++ enqueue (done ++ [x]) queue (next x) ↔
      z ∈ done ++ (x :: queue) ∨ z ∈ next x := fun z => by
    rw [mem_append_enqueue, hsplit]
  refine ⟨nodup_append_enqueue (by rw [hsplit]; exact h.nodup), fun z hz => ?_, fun z hz => ?_,
    fun s hs => (hmem s).mpr (Or.inl (h.starts s hs)), fun z hz y hy => (hmem y).mpr ?_⟩
  · rcases (hmem z).mp hz with hz | hz
    · exact h.inside z hz
    · exact hcl x (h.inside x hx) z hz
  · rcases (hmem z).mp hz with hz | hz
    · exact h.reached z hz
    · obtain ⟨s, hs, hr⟩ := h.reached x hx
      exact ⟨s, hs, Relation.ReflTransGen.tail hr hz⟩
  · rcases List.mem_append.mp hz with hz | hz
    · exact Or.inl (h.closed z hz y hy)
    · rw [List.mem_singleton.mp hz] at hy
      exact Or.inr hy

/-- With fuel for all nodes a search ends with the whole reachable set. -/
theorem search_spec {next : Nat → List Nat} {nodes starts : List Nat} (hcl : IsClosed next nodes) :
    ∀ (fuel : Nat) (done queue : List Nat), SearchInv next nodes starts done queue →
      nodes.length ≤ done.length + fuel →
      SearchInv next nodes starts (search next fuel done queue) []
  | 0, done, queue, h, hf => by
    have hlen := length_le_of_subset h.nodup h.inside
    rw [List.length_append] at hlen
    have hq : queue = [] := List.eq_nil_of_length_eq_zero (by omega)
    subst hq
    simpa [search] using h
  | fuel + 1, done, [], h, _ => by simpa [search] using h
  | fuel + 1, done, x :: queue, h, hf => by
    rw [search]
    apply search_spec hcl fuel _ _ (searchInv_step hcl h)
    simp only [List.length_append, List.length_singleton]
    omega

theorem closure_spec {next : Nat → List Nat} {nodes starts : List Nat} {bound : Nat}
    (hcl : IsClosed next nodes) (hs : ∀ s ∈ starts, s ∈ nodes) (hb : nodes.length ≤ bound) :
    SearchInv next nodes starts (closure next bound starts) [] := by
  apply search_spec hcl _ _ _ (searchInv_start hs)
  simpa using hb

/-- **The closure holds exactly what can be reached from the starts.** -/
theorem mem_closure_iff {next : Nat → List Nat} {nodes starts : List Nat} {bound : Nat}
    (hcl : IsClosed next nodes) (hs : ∀ s ∈ starts, s ∈ nodes) (hb : nodes.length ≤ bound)
    {x : Nat} : x ∈ closure next bound starts ↔ ∃ s ∈ starts, Reaches next s x := by
  have h := closure_spec hcl hs hb
  constructor
  · intro hx
    exact h.reached x (by simpa using hx)
  · rintro ⟨s, hs, hr⟩
    have hclosed : IsClosed next (closure next bound starts) := fun x hx y hy => by
      simpa using h.closed x hx y hy
    exact hclosed.reaches (by simpa using h.starts s hs) hr

theorem search_nil (next : Nat → List Nat) (fuel : Nat) (done : List Nat) :
    search next fuel done [] = done := by
  cases fuel with
  | zero => exact List.append_nil done
  | succ fuel => rfl

/-- A search with fuel for all nodes takes the same course with more of it, and it reads the
successors of these nodes only. -/
theorem search_congr {next next' : Nat → List Nat} {nodes starts : List Nat}
    (hcl : IsClosed next nodes) (hnext : ∀ x ∈ nodes, next' x = next x) :
    ∀ (fuel fuel' : Nat) (done queue : List Nat), SearchInv next nodes starts done queue →
      nodes.length ≤ done.length + fuel → fuel ≤ fuel' →
      search next' fuel' done queue = search next fuel done queue
  | 0, fuel', done, queue, h, hf, _ => by
    have hlen := length_le_of_subset h.nodup h.inside
    rw [List.length_append] at hlen
    have hq : queue = [] := List.eq_nil_of_length_eq_zero (by omega)
    rw [hq, search_nil, search_nil]
  | fuel + 1, fuel', done, [], _, _, _ => by rw [search_nil, search_nil]
  | fuel + 1, 0, _, _ :: _, _, _, hle => absurd hle (Nat.not_succ_le_zero fuel)
  | fuel + 1, fuel' + 1, done, x :: queue, h, hf, hle => by
    have hx : x ∈ nodes := h.inside x (by simp)
    rw [search, search, hnext x hx]
    refine search_congr hcl hnext fuel fuel' _ _ (searchInv_step hcl h) ?_ (by omega)
    simp only [List.length_append, List.length_singleton]
    omega

/-- What lies around a closed set of nodes makes no difference to a closure inside of it. -/
theorem closure_congr {next next' : Nat → List Nat} {nodes starts : List Nat} {bound bound' : Nat}
    (hcl : IsClosed next nodes) (hnext : ∀ x ∈ nodes, next' x = next x)
    (hs : ∀ s ∈ starts, s ∈ nodes) (hb : nodes.length ≤ bound) (hle : bound ≤ bound') :
    closure next' bound' starts = closure next bound starts :=
  search_congr hcl hnext bound bound' [] _ (searchInv_start hs) (by simpa using hb) hle

theorem nodup_closure {next : Nat → List Nat} {nodes starts : List Nat} {bound : Nat}
    (hcl : IsClosed next nodes) (hs : ∀ s ∈ starts, s ∈ nodes) (hb : nodes.length ≤ bound) :
    (closure next bound starts).Nodup := by
  simpa using (closure_spec hcl hs hb).nodup

end Dataflow.Digraph
