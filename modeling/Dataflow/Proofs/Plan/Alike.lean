import Dataflow.Proofs.Plan.Order

/-!
# Runs of the same tasks

The labels of a partition number tasks that are not planned as well. Splitting and ordering read
those of planned tasks only: on two partitions that agree on them (`Runs.Alike`) they come out the
same.

* `Alike.findCycle`, `Alike.findSplit`, `Alike.splitOff`: one step.
* **`Alike.resolve`**: all steps.
* `Alike.place`: the stages of the planned tasks.
-/

namespace Dataflow

namespace Runs

/-- Two partitions that differ at most in the labels of tasks that are not planned. -/
structure Alike (r r' : Runs) : Prop where
  tasks : r'.tasks = r.tasks
  edges : r'.edges = r.edges
  count : r'.count = r.count
  barriers : r'.barriers = r.barriers
  splits : r'.splits = r.splits
  ends : ∀ e ∈ r.edges, e.producer ∈ r.tasks ∧ e.consumer ∈ r.tasks
  labelled : ∀ t ∈ r.tasks, t < r.labels.size ∧ t < r'.labels.size
  run : ∀ t ∈ r.tasks, r'.run t = r.run t

namespace Alike

variable {r r' : Runs} (h : Alike r r')
include h

/-! ## What is read -/

theorem run_producer {e : Edge} (he : e ∈ r.edges) : r'.run e.producer = r.run e.producer :=
  h.run _ (h.ends e he).1

theorem run_consumer {e : Edge} (he : e ∈ r.edges) : r'.run e.consumer = r.run e.consumer :=
  h.run _ (h.ends e he).2

theorem isLocal (e : Edge) : r'.isLocal e = r.isLocal e := by
  unfold Runs.isLocal
  rw [h.barriers]

theorem separates {e : Edge} (he : e ∈ r.edges) : r'.separates e = r.separates e := by
  unfold Runs.separates
  rw [h.run_producer he, h.run_consumer he, h.isLocal]

theorem filter_edges {p p' : Edge → Bool} (hp : ∀ e ∈ r.edges, p' e = p e) :
    r'.edges.filter p' = r.edges.filter p := by
  rw [h.edges]
  exact List.filter_congr hp

theorem links : r'.links = r.links := by
  unfold Runs.links
  rw [h.filter_edges fun e he => h.separates he]
  refine List.map_congr_left fun e he => ?_
  have he' := List.mem_of_mem_filter he
  rw [h.run_producer he', h.run_consumer he']

theorem findCycle : r'.findCycle = r.findCycle := by
  unfold Runs.findCycle
  rw [h.links, h.count]

theorem entries (prev run : Nat) : r'.entries prev run = r.entries prev run := by
  unfold Runs.entries
  rw [h.tasks, h.filter_edges fun e he => by
    rw [h.separates he, h.run_producer he, h.run_consumer he]]

theorem exits (run next : Nat) : r'.exits run next = r.exits run next := by
  unfold Runs.exits
  rw [h.filter_edges fun e he => by
    rw [h.separates he, h.run_producer he, h.run_consumer he]]

theorem downstream (run : Nat) (entry : TaskId) :
    r'.downstream run entry = r.downstream run entry := by
  unfold Runs.downstream
  rw [h.tasks, h.filter_edges fun e he => by rw [h.isLocal, h.run_consumer he]]

theorem findSplit (cycle : List Nat) : r'.findSplit cycle = r.findSplit cycle := by
  unfold Runs.findSplit
  simp only [h.entries, h.exits, h.downstream]

theorem dependencies (run : Nat) : r'.dependencies run = r.dependencies run := by
  unfold Runs.dependencies
  rw [h.filter_edges fun e he => by rw [h.run_consumer he]]
  refine congrArg _ (List.map_congr_left fun e he => ?_)
  rw [h.run_producer (List.mem_of_mem_filter he)]

theorem executionOrder : r'.executionOrder = r.executionOrder := by
  unfold Runs.executionOrder
  rw [h.count, funext h.dependencies]

/-- Planned tasks get the same stages. -/
theorem place {t : TaskId} (ht : t ∈ r.tasks) : r'.place t = r.place t := by
  obtain ⟨hlt, hlt'⟩ := h.labelled t ht
  rw [place_of_lt hlt, place_of_lt hlt', h.executionOrder, h.run t ht]

/-! ## Splitting -/

/-- A split keeps partitions alike. -/
theorem splitOff (run : Nat) (part : List TaskId) :
    Alike (r.splitOff run part) (r'.splitOff run part) := by
  have hrun : ∀ t ∈ r.tasks, (r'.splitOff run part).run t = (r.splitOff run part).run t :=
    fun t ht => by
      obtain ⟨hlt, hlt'⟩ := h.labelled t ht
      rw [run_splitOff_of_lt hlt, run_splitOff_of_lt hlt', h.count, h.run t ht]
  have hcut : ∀ e ∈ r.edges,
      (r'.isLocal e && (r'.splitOff run part).run e.producer == run &&
        (r'.splitOff run part).run e.consumer == r'.count) =
      (r.isLocal e && (r.splitOff run part).run e.producer == run &&
        (r.splitOff run part).run e.consumer == r.count) := fun e he => by
    rw [h.isLocal, hrun _ (h.ends e he).1, hrun _ (h.ends e he).2, h.count]
  refine ⟨h.tasks, h.edges, congrArg (· + 1) h.count, ?_, congrArg (· + 1) h.splits, h.ends,
    fun t ht => ?_, hrun⟩
  · exact congrArg₂ (fun barriers cut => barriers ++ cut.map Edge.channel) h.barriers
      (h.filter_edges hcut)
  · unfold Runs.splitOff
    simpa using h.labelled t ht

end Alike

theorem Alike.resolveWith : ∀ (fuel : Nat) {r r' s : Runs}, Alike r r' →
    resolveWith fuel r = .ok s → ∃ s', Runs.resolveWith fuel r' = .ok s' ∧ Alike s s'
  | 0, r, r', s, h, hs => by
    obtain rfl : r = s := Except.ok.inj hs
    exact ⟨r', rfl, h⟩
  | fuel + 1, r, r', s, h, hs => by
    unfold Runs.resolveWith at hs ⊢
    rw [h.findCycle]
    cases hc : r.findCycle with
    | none =>
      rw [hc] at hs
      obtain rfl : r = s := Except.ok.inj hs
      exact ⟨r', rfl, h⟩
    | some cycle =>
      rw [hc] at hs
      simp only at hs ⊢
      rw [h.findSplit]
      cases hf : r.findSplit cycle with
      | none =>
        rw [hf] at hs
        exact absurd hs nofun
      | some found =>
        obtain ⟨run, part⟩ := found
        rw [hf] at hs
        exact Alike.resolveWith fuel (h.splitOff run part) hs

/-- **Partitions that are alike stay alike until no cycle is left.** -/
theorem Alike.resolve {r r' s : Runs} (h : Alike r r') (hs : r.resolve = .ok s) :
    ∃ s', r'.resolve = .ok s' ∧ Alike s s' := by
  unfold Runs.resolve at hs ⊢
  rw [h.tasks]
  exact Alike.resolveWith _ h hs

end Runs

end Dataflow
