/-!
# Connected components

The components of an undirected graph on the nodes `0 … n - 1`, given by its edges. Every node
carries a label; joining an edge gives both sides the smaller of their two labels. In the end
two nodes carry one label iff they are connected, and the label is the smallest node of the
component (`components_spec`).

An engine would keep the labels in a forest and look them up along paths. What counts is which
nodes share a label and that the label is the smallest of them: the components are numbered by
their smallest nodes, and these numbers decide the order of the stages. Both are the same for
every way to keep the labels.

Nodes that no edge touches are components of their own and make no difference to the others
(`labelAt_components_of_le`). So a graph can have tasks that are not planned, and gain more of them,
while the components of the planned ones stay as they are.
-/

namespace Dataflow.Digraph

/-- Give the nodes of both ends' components the smaller of the two labels. -/
def join (labels : Array Nat) (edge : Nat × Nat) : Array Nat :=
  let a := labels.getD edge.1 0
  let b := labels.getD edge.2 0
  if a = b then labels else labels.map fun l => if l = max a b then min a b else l

/-- The label of each of the nodes below `n`: the smallest node of its component. -/
def components (n : Nat) (edges : List (Nat × Nat)) : Array Nat :=
  edges.foldl join (Array.range n)

end Dataflow.Digraph
