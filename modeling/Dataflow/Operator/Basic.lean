import Dataflow.DataSetType
import Dataflow.Platform

/-!
# Operators

What planning knows of an operator: its name, the platform it runs on, its typed slots, and
whether it drives a loop. How it computes is left to a behaviour, which is looked up by
`object`; tasks whose operators have the same object share one operator, state included.

An operator is given from outside, and these are the things the engine asks it for. They are
data here, so an operator answers the same whenever it is asked, as its interface promises for
the loop roles. An index beyond the declared slots has a type too, the one that accepts anything;
broadcast inputs are read that way.

A loop head says which of its slots start the loop, which bring back the result of an iteration,
which feed an iteration and which carry the result. The defaults are those of `LoopOperator`;
another loop head may have others, and nothing keeps it from naming slots that it does not have.
Results about loops say which roles they are about (`TaskGraph.Reads`, `TaskGraph.FeedsBodyOf`).

Where a loop head stands is no part of its declaration. It is read from the behaviour's memory
each time it is needed.
-/

namespace Dataflow

/-- Identity of an operator object. -/
abbrev ObjectId := Nat

/-- Which slots of a loop head play which part. Inputs and outputs are named by position. -/
structure LoopRoles where
  /-- Inputs that start the loop. -/
  initialization : List Nat := [0, 1]
  /-- Inputs that bring back the result of an iteration. -/
  body : List Nat := [2, 3]
  /-- Outputs that feed an iteration. -/
  bodyOutputs : List Nat := [0, 1]
  /-- Outputs that carry the result of the loop. -/
  finalOutputs : List Nat := [2]
  deriving DecidableEq, Repr, Inhabited

/-- An operator bound to a platform. -/
structure Operator where
  object : ObjectId
  name : String
  platform : Platform
  /-- Declared types of the inputs, in order; broadcast inputs are not among them. -/
  inputs : List DataSetType
  /-- Declared types of the outputs, in order. -/
  outputs : List DataSetType
  supportsBroadcast : Bool := false
  /-- The loop roles of a loop head, none for any other operator. -/
  loopRoles : Option LoopRoles := none
  deriving DecidableEq, Repr, Inhabited

namespace Operator

def isLoopHead (o : Operator) : Bool := o.loopRoles.isSome

/-- The declared type of an input; whatever is not declared accepts anything. -/
def inputType (o : Operator) (i : Nat) : DataSetType := o.inputs.getD i .any

/-- The declared type of an output. -/
def outputType (o : Operator) (i : Nat) : DataSetType := o.outputs.getD i .any

/-- The inputs whose data closes an iteration; an operator that drives no loop has none. -/
def bodyInputs (o : Operator) : List Nat := (o.loopRoles.map LoopRoles.body).getD []

end Operator

end Dataflow
