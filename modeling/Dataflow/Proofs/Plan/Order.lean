import Dataflow.Plan.Assignment
import Dataflow.Proofs.Plan.Runs

/-!
# The order of runs

Runs that form no cycle can be put in order, and a run becomes the stage whose number is its place
in that order (`Runs.place`).

* `Resolved.place_eq_iff`: two tasks are in one stage iff they are in one run.
* `Resolved.isLocal_iff`: inside a stage are exactly the local edges.
* **`Resolved.place_lt`**: every other edge that orders something leads to a later stage.
-/

namespace Dataflow

namespace Runs

/-- Runs that need no more splitting. -/
structure Resolved (g : TaskGraph) (tasks : List TaskId) (r : Runs) : Prop where
  valid : r.Valid g tasks
  acyclic : r.findCycle = none

/-- The place of a task's run in the order of execution. -/
def place (r : Runs) (t : TaskId) : StageId :=
  (PreliminaryPlan.stageNumbers r r.executionOrder).getD t 0

variable {g : TaskGraph} {tasks : List TaskId} {r : Runs}

/-- The runs that a run waits for. -/
def preds (r : Runs) (run : Nat) : List Nat :=
  (((List.range r.count).map r.dependencies).toArray).getD run []

theorem executionOrder_eq (r : Runs) : r.executionOrder = Digraph.numbering r.preds r.count := rfl

theorem mem_preds {x y : Nat} : y ∈ r.preds x ↔ x < r.count ∧
    ∃ e ∈ r.edges, e.feedback = false ∧ r.run e.consumer = x ∧ r.run e.producer = y ∧ y ≠ x := by
  unfold preds
  by_cases hx : x < r.count
  · have hget : (((List.range r.count).map r.dependencies).toArray).getD x [] =
        r.dependencies x := by simp [hx]
    rw [hget]
    unfold dependencies
    simp only [List.mem_filter, List.mem_map, Bool.and_eq_true, Bool.not_eq_true', beq_iff_eq,
      bne_iff_ne, hx, true_and]
    constructor
    · rintro ⟨⟨e, ⟨he, hf, hr⟩, rfl⟩, hne⟩
      exact ⟨e, he, hf, hr, rfl, hne⟩
    · rintro ⟨e, he, hf, hr, rfl, hne⟩
      exact ⟨⟨e, ⟨he, hf, hr⟩, rfl⟩, hne⟩
  · simp [hx]

theorem Valid.preds_lt (hs : g.IsScope tasks) (hv : r.Valid g tasks) {x y : Nat}
    (hy : y ∈ r.preds x) : y < r.count := by
  obtain ⟨-, e, he, -, -, rfl, -⟩ := mem_preds.mp hy
  exact hv.run_lt _ (hs.ends_mem (hv.edges_eq ▸ he)).1

theorem Resolved.numbered (hs : g.IsScope tasks) (h : r.Resolved g tasks) :
    Digraph.Numbered r.preds r.count r.executionOrder ∧
      r.executionOrder.Perm (List.range r.count) := by
  rw [executionOrder_eq]
  refine Digraph.numbering_spec (fun x _ y hy => h.valid.preds_lt hs hy) ?_
  intro x hx
  have hcl : Digraph.IsClosed r.preds (List.range r.count) :=
    fun x _ y hy => List.mem_range.mpr (h.valid.preds_lt hs hy)
  have hg := Digraph.findCycle_none r.isClosed_next (findCycle_eq r ▸ h.acyclic)
  refine Digraph.grounded_reverse hcl (fun x _ y hy => ?_) hg x (List.mem_range.mpr hx)
  obtain ⟨hx, e, he, hf, hc, hp, hne⟩ := mem_preds.mp hy
  refine mem_next.mpr ⟨h.valid.preds_lt hs hy, hx, e, he, ?_, hp, hc⟩
  unfold separates
  simp [hf, hp, hc, hne]

theorem Resolved.length_executionOrder (hs : g.IsScope tasks) (h : r.Resolved g tasks) :
    r.executionOrder.length = r.count := by
  rw [(h.numbered hs).2.length_eq, List.length_range]

theorem place_of_lt {t : TaskId} (ht : t < r.labels.size) :
    r.place t = r.executionOrder.idxOf (r.run t) := by
  unfold place PreliminaryPlan.stageNumbers run
  rw [Array.getD_eq_getD_getElem?, Array.getD_eq_getD_getElem?, Array.getElem?_map,
    Array.getElem?_eq_getElem ht, Option.map_some, Option.getD_some, Option.getD_some]

theorem Valid.place_eq (hs : g.IsScope tasks) (hv : r.Valid g tasks) {t : TaskId} (ht : t ∈ tasks) :
    r.place t = r.executionOrder.idxOf (r.run t) := place_of_lt (hv.lt_size hs ht)

theorem Resolved.mem_executionOrder (hs : g.IsScope tasks) (h : r.Resolved g tasks) {k : Nat} :
    k ∈ r.executionOrder ↔ k < r.count := by
  rw [(h.numbered hs).2.mem_iff, List.mem_range]

theorem Resolved.place_lt_count (hs : g.IsScope tasks) (h : r.Resolved g tasks) {t : TaskId}
    (ht : t ∈ tasks) : r.place t < r.count := by
  rw [h.valid.place_eq hs ht, ← h.length_executionOrder hs]
  exact List.idxOf_lt_length_of_mem ((h.mem_executionOrder hs).mpr (h.valid.run_lt t ht))

/-- Two tasks are in one stage iff they are in one run. -/
theorem Resolved.place_eq_iff (hs : g.IsScope tasks) (h : r.Resolved g tasks) {t u : TaskId}
    (ht : t ∈ tasks) (hu : u ∈ tasks) : r.place t = r.place u ↔ r.run t = r.run u := by
  rw [h.valid.place_eq hs ht, h.valid.place_eq hs hu,
    List.idxOf_inj ((h.mem_executionOrder hs).mpr (h.valid.run_lt t ht))]

/-- No stage is empty. -/
theorem Resolved.exists_place_eq (hs : g.IsScope tasks) (h : r.Resolved g tasks) {s : StageId}
    (hlt : s < r.count) : ∃ t ∈ tasks, r.place t = s := by
  have hlen : s < r.executionOrder.length := by
    rw [h.length_executionOrder hs]
    exact hlt
  have hmem : r.executionOrder[s] ∈ r.executionOrder := List.getElem_mem hlen
  obtain ⟨t, ht, hr⟩ := h.valid.occupied _ ((h.mem_executionOrder hs).mp hmem)
  refine ⟨t, ht, ?_⟩
  rw [h.valid.place_eq hs ht, hr]
  exact (h.numbered hs).1.nodup.idxOf_getElem s hlen

/-- An edge that orders something lies inside a run iff it is local: no run leads to itself. -/
theorem Resolved.isLocal_iff (hs : g.IsScope tasks) (h : r.Resolved g tasks) {e : Edge}
    (he : e ∈ Edge.among g tasks) (hf : e.feedback = false) :
    r.isLocal e = true ↔ r.place e.producer = r.place e.consumer := by
  have hends := hs.ends_mem he
  rw [h.place_eq_iff hs hends.1 hends.2]
  refine ⟨h.valid.run_eq e he, fun heq => ?_⟩
  by_contra hl
  have hlt := h.valid.run_lt _ hends.1
  have hg := Digraph.findCycle_none r.isClosed_next (findCycle_eq r ▸ h.acyclic) _
    (List.mem_range.mpr hlt)
  refine hg.not_trans (Relation.TransGen.single ?_)
  refine mem_next.mpr ⟨hlt, hlt, e, h.valid.edges_eq ▸ he, ?_, rfl, heq.symm⟩
  unfold separates
  simp [hf, Bool.eq_false_iff.mpr hl]

/-- **An edge that orders something and is not inside a stage leads to a later one.** -/
theorem Resolved.place_lt (hs : g.IsScope tasks) (h : r.Resolved g tasks) {e : Edge}
    (he : e ∈ Edge.among g tasks) (hf : e.feedback = false)
    (hne : r.place e.producer ≠ r.place e.consumer) :
    r.place e.producer < r.place e.consumer := by
  have hends := hs.ends_mem he
  have hrun : r.run e.producer ≠ r.run e.consumer := fun heq =>
    hne ((h.place_eq_iff hs hends.1 hends.2).mpr heq)
  have hlt := h.valid.run_lt _ hends.2
  rw [h.valid.place_eq hs hends.1, h.valid.place_eq hs hends.2]
  refine (h.numbered hs).1.idxOf_lt ((h.mem_executionOrder hs).mpr hlt) ?_
  exact mem_preds.mpr ⟨hlt, e, h.valid.edges_eq ▸ he, hf, rfl, rfl, hrun⟩

end Runs

end Dataflow
