import Dataflow.DataSetType
import Dataflow.Ident

/-!
# Slots

The typed connection points of the operators of an operator graph. An input is fed by at most
one output, which is its occupant; an output feeds any number of inputs.

A slot knows its own address, the operator and its position among the inputs or the outputs. The
address is what the other end of a connection remembers: an input the address of its occupant, an
output the addresses of its consumers in the order in which they were connected. An output lists
an input once, however often it is added, and takes every occurrence out when it is removed.

The labels of addresses are those that messages use.
-/

namespace Dataflow

/-- Address of an input of an operator graph. -/
structure InputRef where
  operator : OperatorId
  index : Nat
  deriving DecidableEq, Repr, Inhabited

/-- Address of an output of an operator graph. -/
structure OutputRef where
  operator : OperatorId
  index : Nat
  deriving DecidableEq, Repr, Inhabited

def InputRef.label (r : InputRef) : String := s!"{r.operator.label}.in{r.index}"

def OutputRef.label (r : OutputRef) : String := s!"{r.operator.label}.out{r.index}"

/-- Address of a slot of either direction. -/
inductive SlotRef where
  | input (address : InputRef)
  | output (address : OutputRef)
  deriving DecidableEq, Repr, Inhabited

def SlotRef.label : SlotRef → String
  | input r => r.label
  | output r => r.label

/-- An input of an operator. -/
structure InputSlot where
  name : String
  /-- Where the slot is. -/
  address : InputRef
  dataType : DataSetType
  /-- Broadcast inputs come after the regular ones. -/
  broadcast : Bool := false
  /-- The output that feeds this input. -/
  occupant : Option OutputRef := none
  deriving DecidableEq, Repr, Inhabited

def InputSlot.isConnected (s : InputSlot) : Bool := s.occupant.isSome

/-- An output of an operator. -/
structure OutputSlot where
  name : String
  /-- Where the slot is. -/
  address : OutputRef
  dataType : DataSetType
  /-- The inputs that this output feeds, in the order in which they were connected. -/
  consumers : List InputRef := []
  deriving DecidableEq, Repr, Inhabited

namespace OutputSlot

def isConnected (s : OutputSlot) : Bool := !s.consumers.isEmpty

/-- An input is listed once, however often it is added. -/
def addConsumer (s : OutputSlot) (r : InputRef) : OutputSlot :=
  if r ∈ s.consumers then s else { s with consumers := s.consumers ++ [r] }

def removeConsumer (s : OutputSlot) (r : InputRef) : OutputSlot :=
  { s with consumers := s.consumers.filter (· != r) }

end OutputSlot

end Dataflow
