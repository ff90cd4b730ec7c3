import Dataflow.OperatorGraph.Materialize
import Dataflow.Proofs.TaskGraph.Wiring

/-!
# The task graph of an operator graph

An operator graph becomes a task graph by wiring operations, so that all that holds of graphs that
are wired task by task holds of these as well.

* `addBroadcastInputs_built`, `addTasks_built`, `connectTasks_built`: the steps.
* **`toTaskGraph_built`**: the whole graph.
-/

namespace Dataflow.OperatorGraph

theorem addBroadcastInputs_built {t : TaskId} : ∀ {n : Nat} {g g' : TaskGraph}, g.Built →
    addBroadcastInputs t n g = .ok g' → g'.Built
  | 0, _, _, hg, h => Except.ok.inj h ▸ hg
  | n + 1, g, g', hg, h => by
    unfold addBroadcastInputs at h
    cases hadd : g.addBroadcastInput t with
    | error e =>
      rw [hadd] at h
      exact absurd h nofun
    | ok added =>
      rw [hadd] at h
      exact addBroadcastInputs_built (.addBroadcastInput hg hadd) h

theorem addTasks_built : ∀ {ns : List Node} {g g' : TaskGraph}, g.Built →
    addTasks ns g = .ok g' → g'.Built
  | [], _, _, hg, h => Except.ok.inj h ▸ hg
  | n :: ns, g, g', hg, h => by
    unfold addTasks at h
    split at h
    · exact absurd h nofun
    · simp only at h
      split at h
      · exact absurd h nofun
      · rename_i hadd
        exact addTasks_built (addBroadcastInputs_built (.addTask _ hg) hadd) h

theorem connectTasks_built : ∀ {links : List (OutputRef × InputRef)} {g g' : TaskGraph}, g.Built →
    connectTasks links g = .ok g' → g'.Built
  | [], _, _, hg, h => Except.ok.inj h ▸ hg
  | (source, target) :: links, g, g', hg, h => by
    unfold connectTasks at h
    cases hconnect : g.connect source.operator source.index target.operator target.index with
    | error e =>
      rw [hconnect] at h
      exact absurd h nofun
    | ok connected =>
      rw [hconnect] at h
      exact connectTasks_built (.connectWith hg hconnect) h

/-- **The task graph of an operator graph is built by wiring operations.** -/
theorem toTaskGraph_built {g : OperatorGraph} {tasks : TaskGraph}
    (h : g.toTaskGraph = .ok tasks) : tasks.Built := by
  unfold toTaskGraph at h
  cases hadd : addTasks g.nodes .empty with
  | error e =>
    rw [hadd] at h
    exact absurd h nofun
  | ok added =>
    rw [hadd] at h
    simp only [bind, Except.bind] at h
    split at h
    · rename_i hconnect
      exact Except.ok.inj h ▸ connectTasks_built (addTasks_built .empty hadd) hconnect
    · exact absurd h nofun

/-- The plan of all operators is the plan of their task graph. -/
theorem toPreliminaryPlan_eq_ok {g : OperatorGraph} {p : PreliminaryPlan}
    (h : g.toPreliminaryPlan = .ok p) : g.toTaskGraph = .ok p.graph ∧ p = .ofGraph p.graph := by
  unfold toPreliminaryPlan at h
  cases htasks : g.toTaskGraph with
  | error e =>
    rw [htasks] at h
    exact absurd h nofun
  | ok tasks =>
    rw [htasks] at h
    obtain rfl := Except.ok.inj h
    exact ⟨rfl, rfl⟩

end Dataflow.OperatorGraph
