import Dataflow.Digraph.Component
import Mathlib.Data.List.Induction
import Mathlib.Logic.Relation

/-!
# Labels are components

Two nodes carry one label in `Digraph.components` iff edges connect them, and the label is a node
of the component that carries itself (`components_spec`). Nodes that no edge touches do not count
(`labelAt_components_of_le`).

The components are made by going through the edges and joining the labels of the two ends. The
invariant is that the labels are right for the edges so far (`Labelled`), and one more edge connects
two nodes iff they were connected before or each was connected to one of its ends
(`connected_append`).
-/

namespace Dataflow.Digraph

/-- Connected by edges, in whichever direction they are given. -/
abbrev Connected (edges : List (Nat × Nat)) : Nat → Nat → Prop :=
  Relation.EqvGen fun x y => (x, y) ∈ edges

/-- The label of a node. -/
def labelAt (labels : Array Nat) (x : Nat) : Nat := labels.getD x 0

/-- Labels of the nodes below `n` that tell the components apart. Nodes that no edge touches are
their own label. -/
structure Labelled (n : Nat) (edges : List (Nat × Nat)) (labels : Array Nat) : Prop where
  size : labels.size = n
  le : ∀ x < n, labelAt labels x ≤ x
  root : ∀ x < n, labelAt labels (labelAt labels x) = labelAt labels x
  connected : ∀ x < n, ∀ y < n, labelAt labels x = labelAt labels y ↔ Connected edges x y

theorem connected_mono {edges edges' : List (Nat × Nat)} (h : ∀ e ∈ edges, e ∈ edges') {x y : Nat}
    (hc : Connected edges x y) : Connected edges' x y :=
  Relation.EqvGen.mono (fun a b hab => h (a, b) hab) x y hc

/-- One edge more joins the components of its ends, and no others. -/
theorem connected_append {edges : List (Nat × Nat)} {u v x y : Nat} :
    Connected (edges ++ [(u, v)]) x y ↔ Connected edges x y ∨
      (Connected edges x u ∧ Connected edges v y) ∨ (Connected edges x v ∧ Connected edges u y) := by
  constructor
  · intro h
    induction h with
    | rel a b hab =>
      rcases List.mem_append.mp hab with hab | hab
      · exact Or.inl (Relation.EqvGen.rel a b hab)
      · obtain ⟨rfl, rfl⟩ := Prod.mk.inj (List.mem_singleton.mp hab)
        exact Or.inr (Or.inl ⟨Relation.EqvGen.refl _, Relation.EqvGen.refl _⟩)
    | refl a => exact Or.inl (Relation.EqvGen.refl a)
    | symm a b _ ih =>
      rcases ih with h | ⟨h1, h2⟩ | ⟨h1, h2⟩
      · exact Or.inl (h.symm)
      · exact Or.inr (Or.inr ⟨h2.symm, h1.symm⟩)
      · exact Or.inr (Or.inl ⟨h2.symm, h1.symm⟩)
    | trans a b c _ _ hab hbc =>
      rcases hab with h | ⟨h1, h2⟩ | ⟨h1, h2⟩ <;> rcases hbc with k | ⟨k1, k2⟩ | ⟨k1, k2⟩
      · exact Or.inl (h.trans _ _ _ k)
      · exact Or.inr (Or.inl ⟨h.trans _ _ _ k1, k2⟩)
      · exact Or.inr (Or.inr ⟨h.trans _ _ _ k1, k2⟩)
      · exact Or.inr (Or.inl ⟨h1, h2.trans _ _ _ k⟩)
      · exact Or.inr (Or.inl ⟨h1, k2⟩)
      · exact Or.inl (h1.trans _ _ _ k2)
      · exact Or.inr (Or.inr ⟨h1, h2.trans _ _ _ k⟩)
      · exact Or.inl (h1.trans _ _ _ k2)
      · exact Or.inr (Or.inr ⟨h1, k2⟩)
  · have hmono : ∀ {a b : Nat}, Connected edges a b → Connected (edges ++ [(u, v)]) a b :=
      connected_mono fun e he => List.mem_append_left _ he
    have huv : Connected (edges ++ [(u, v)]) u v := Relation.EqvGen.rel u v (by simp)
    rintro (h | ⟨h1, h2⟩ | ⟨h1, h2⟩)
    · exact hmono h
    · exact ((hmono h1).trans _ _ _ huv).trans _ _ _ (hmono h2)
    · exact ((hmono h1).trans _ _ _ huv.symm).trans _ _ _ (hmono h2)

theorem eq_of_connected_nil {x y : Nat} (h : Connected [] x y) : x = y := by
  induction h with
  | rel a b hab => exact absurd hab List.not_mem_nil
  | refl a => rfl
  | symm a b _ ih => exact ih.symm
  | trans a b c _ _ ih1 ih2 => exact ih1.trans ih2

theorem labelled_range (n : Nat) : Labelled n [] (Array.range n) := by
  have hl : ∀ x < n, labelAt (Array.range n) x = x := fun x hx => by simp [labelAt, hx]
  refine ⟨Array.size_range, fun x hx => Nat.le_of_eq (hl x hx),
    fun x hx => by rw [hl x hx, hl x hx], fun x hx y hy => ?_⟩
  rw [hl x hx, hl y hy]
  constructor
  · rintro rfl
    exact Relation.EqvGen.refl x
  · exact eq_of_connected_nil

theorem labelAt_join {labels : Array Nat} {u v x : Nat} (hx : x < labels.size) :
    labelAt (join labels (u, v)) x =
      if labelAt labels x = max (labelAt labels u) (labelAt labels v) then
        min (labelAt labels u) (labelAt labels v)
      else labelAt labels x := by
  unfold join
  change labelAt (if labelAt labels u = labelAt labels v then labels else labels.map fun l =>
    if l = max (labelAt labels u) (labelAt labels v) then
      min (labelAt labels u) (labelAt labels v) else l) x = _
  split
  · rename_i h
    rw [h, Nat.max_self, Nat.min_self]
    split
    · rename_i h'
      exact h'
    · rfl
  · simp only [labelAt, Array.getD_eq_getD_getElem?, Array.getElem?_map,
      Array.getElem?_eq_getElem hx, Option.map_some, Option.getD_some]

theorem size_join (labels : Array Nat) (e : Nat × Nat) : (join labels e).size = labels.size := by
  unfold join
  simp only
  split <;> simp

theorem Labelled.join {n u v : Nat} {edges : List (Nat × Nat)} {labels : Array Nat}
    (h : Labelled n edges labels) (hu : u < n) (hv : v < n) :
    Labelled n (edges ++ [(u, v)]) (join labels (u, v)) := by
  have hat : ∀ x < n, labelAt (Digraph.join labels (u, v)) x =
      if labelAt labels x = max (labelAt labels u) (labelAt labels v) then
        min (labelAt labels u) (labelAt labels v)
      else labelAt labels x := fun x hx => labelAt_join (by rw [h.size]; exact hx)
  have hmin : labelAt labels (min (labelAt labels u) (labelAt labels v)) =
      min (labelAt labels u) (labelAt labels v) := by
    rcases Nat.le_total (labelAt labels u) (labelAt labels v) with hle | hle
    · rw [Nat.min_eq_left hle, h.root u hu]
    · rw [Nat.min_eq_right hle, h.root v hv]
  have hle := h.le
  refine ⟨(size_join _ _).trans h.size, fun x hx => ?_, fun x hx => ?_, fun x hx y hy => ?_⟩
  · rw [hat x hx]
    have hx' := hle x hx
    split <;> omega
  · have hx' := hle x hx
    rw [hat x hx]
    split
    · rw [hat _ (by have := hle u hu; omega), hmin]
      split <;> omega
    · rename_i hne
      rw [hat _ (by omega), h.root x hx, if_neg hne]
  · rw [hat x hx, hat y hy, connected_append, ← h.connected x hx y hy, ← h.connected x hx u hu,
      ← h.connected v hv y hy, ← h.connected x hx v hv, ← h.connected u hu y hy]
    split <;> split <;> omega

theorem components_append (n : Nat) (edges : List (Nat × Nat)) (e : Nat × Nat) :
    components n (edges ++ [e]) = join (components n edges) e := by
  simp [components]

/-- **Two nodes carry one label iff edges connect them.** -/
theorem components_spec {n : Nat} {edges : List (Nat × Nat)}
    (h : ∀ e ∈ edges, e.1 < n ∧ e.2 < n) : Labelled n edges (components n edges) := by
  induction edges using List.reverseRecOn with
  | nil => exact labelled_range n
  | append_singleton edges e ih =>
    have he := h e (by simp)
    rw [components_append]
    exact (ih fun e' he' => h e' (List.mem_append_left _ he')).join he.1 he.2

/-- Nodes that no edge touches make no difference to the labels of others. -/
theorem labelAt_components_of_le {n n' : Nat} (hle : n ≤ n') {edges : List (Nat × Nat)}
    (h : ∀ e ∈ edges, e.1 < n ∧ e.2 < n) : ∀ x < n,
      labelAt (components n' edges) x = labelAt (components n edges) x := by
  induction edges using List.reverseRecOn with
  | nil =>
    intro x hx
    have hx' : x < n' := Nat.lt_of_lt_of_le hx hle
    simp [labelAt, components, hx, hx']
  | append_singleton edges e ih =>
    intro x hx
    obtain ⟨hu, hv⟩ := h e (by simp)
    have hin : ∀ e ∈ edges, e.1 < n ∧ e.2 < n := fun e he => h e (List.mem_append_left _ he)
    have ih' := ih hin
    have hsize := (components_spec hin).size
    have hsize' := (components_spec fun e he =>
      ⟨Nat.lt_of_lt_of_le (hin e he).1 hle, Nat.lt_of_lt_of_le (hin e he).2 hle⟩).size
    rw [components_append, components_append,
      labelAt_join (by rw [hsize']; exact Nat.lt_of_lt_of_le hx hle),
      labelAt_join (by rw [hsize]; exact hx), ih' x hx, ih' e.1 hu, ih' e.2 hv]

end Dataflow.Digraph
