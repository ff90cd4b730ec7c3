import Dataflow.Error
import Dataflow.Operator.Basic
import Dataflow.OperatorGraph.Slot

/-!
# Operator graphs

Operators wired through typed slots. An elementary operator is bound to a platform; a logical
one is a placeholder that has no platform yet. A connection is recorded at both ends: the input
remembers its occupant, the output lists every input it feeds.

A wiring operation either returns the changed graph or the reason why it is refused. A connection
is checked in a fixed order: the output, the input, whether the input is free, and then the types.
Undoing the connection of an input takes it out at both ends.

* Broadcast inputs come after the regular ones, in the order in which they were added. Their types
  are checked as those of regular inputs are, since here they are declared.
* A loop head of an operator graph keeps to the common positions of its parts. A placeholder for
  one has the slots for them; an elementary one may have fewer, in which case there is no answer
  (`roleSlots`).
* Nothing is ever removed but connections, so an operator keeps its number.

Whatever is asked of a graph, both records of a connection agree, types included, a refused
request changes nothing, and `connect` and `disconnect` undo each other
(`Dataflow.Proofs.OperatorGraph.Wiring`).
-/

namespace Dataflow

/-- What a node of an operator graph stands for. -/
inductive NodeKind where
  /-- An operator that can be executed. -/
  | elementary (operator : Operator)
  /-- A placeholder, perhaps for a loop head. -/
  | logical (loopHead : Bool)
  deriving DecidableEq, Repr, Inhabited

namespace NodeKind

def isElementary : NodeKind → Bool
  | elementary _ => true
  | logical _ => false

def isLoopHead : NodeKind → Bool
  | elementary o => o.isLoopHead
  | logical head => head

/-- Placeholders take broadcast inputs, operators say whether they do. -/
def supportsBroadcast : NodeKind → Bool
  | elementary o => o.supportsBroadcast
  | logical _ => true

end NodeKind

/-- The part that a slot of a loop head plays. -/
inductive LoopRole where
  | initialization
  | body
  | bodyOutput
  | finalOutput
  deriving DecidableEq, Repr

/-- An operator with its slots. -/
structure Node where
  name : String
  kind : NodeKind
  inputs : List InputSlot
  outputs : List OutputSlot
  deriving DecidableEq, Repr, Inhabited

namespace Node

/-- A node with regular inputs and outputs of the given types. -/
def build (id : OperatorId) (name : String) (kind : NodeKind)
    (inputs outputs : List DataSetType) : Node where
  name
  kind
  inputs := inputs.mapIdx fun i t => { name := s!"in{i}", address := ⟨id, i⟩, dataType := t }
  outputs := outputs.mapIdx fun i t => { name := s!"out{i}", address := ⟨id, i⟩, dataType := t }

def broadcastInputs (n : Node) : List InputSlot := n.inputs.filter InputSlot.broadcast

def regularInputs (n : Node) : List InputSlot := n.inputs.filter fun s => !s.broadcast

/-- The slots of a node at the positions of a part. Every loop head of an operator graph keeps
to the common positions; none means that the node has too few slots for them. -/
def roleSlots (n : Node) (role : LoopRole) : Option (List SlotRef) :=
  let roles : LoopRoles := {}
  let inputs (is : List Nat) := is.mapM fun i => n.inputs[i]?.map fun s => .input s.address
  let outputs (is : List Nat) := is.mapM fun i => n.outputs[i]?.map fun s => .output s.address
  match role with
  | .initialization => inputs roles.initialization
  | .body => inputs roles.body
  | .bodyOutput => outputs roles.bodyOutputs
  | .finalOutput => outputs roles.finalOutputs

end Node

/-- Operators, numbered by position, with their connections. -/
structure OperatorGraph where
  nodes : List Node := []
  deriving DecidableEq, Repr, Inhabited

namespace OperatorGraph

def empty : OperatorGraph := {}

/-! ## Adding operators -/

/-- The number that the next operator gets. -/
def nextId (g : OperatorGraph) : OperatorId := g.nodes.length

def addNode (g : OperatorGraph) (n : Node) : OperatorGraph := ⟨g.nodes ++ [n]⟩

/-- Add a placeholder with slots of the given types. -/
def addLogical (g : OperatorGraph) (name : String) (inputs outputs : List DataSetType) :
    OperatorGraph :=
  g.addNode (.build g.nextId name (.logical false) inputs outputs)

/-- Add a placeholder for a loop head: two inputs to start with, two that the body feeds, two
outputs for the body and one for the result. -/
def addLogicalLoop (g : OperatorGraph) (name : String) (data convergence : DataSetType) :
    OperatorGraph :=
  g.addNode (.build g.nextId name (.logical true)
    [data, convergence, data, convergence] [data, convergence, data])

/-- Add an operator that can be executed, with its declared slots. -/
def addElementary (g : OperatorGraph) (o : Operator) : OperatorGraph :=
  g.addNode (.build g.nextId o.name (.elementary o) o.inputs o.outputs)

/-! ## Looking slots up -/

def node? (g : OperatorGraph) (id : OperatorId) : Option Node := g.nodes[id]?

def requireNode (g : OperatorGraph) (id : OperatorId) : Except SlotError Node :=
  match g.nodes[id]? with
  | some n => .ok n
  | none => .error (.unknownOperator id)

/-- An input by its address. -/
def input (g : OperatorGraph) (r : InputRef) : Except SlotError InputSlot := do
  let n ← g.requireNode r.operator
  match n.inputs[r.index]? with
  | some s => .ok s
  | none => .error (.inputOutOfBounds r.operator r.index n.inputs.length)

/-- An output by its address. -/
def output (g : OperatorGraph) (r : OutputRef) : Except SlotError OutputSlot := do
  let n ← g.requireNode r.operator
  match n.outputs[r.index]? with
  | some s => .ok s
  | none => .error (.outputOutOfBounds r.operator r.index n.outputs.length)

/-! ## Wiring -/

def modifyNode (g : OperatorGraph) (id : OperatorId) (f : Node → Node) : OperatorGraph :=
  ⟨g.nodes.modify id f⟩

/-- Change the slot at an address, if there is one. -/
def modifyInput (g : OperatorGraph) (r : InputRef) (f : InputSlot → InputSlot) : OperatorGraph :=
  g.modifyNode r.operator fun n => { n with inputs := n.inputs.modify r.index f }

/-- Change the slot at an address, if there is one. -/
def modifyOutput (g : OperatorGraph) (r : OutputRef) (f : OutputSlot → OutputSlot) :
    OperatorGraph :=
  g.modifyNode r.operator fun n => { n with outputs := n.outputs.modify r.index f }

/-- Append a broadcast input to an operator; answers the address of the new input. -/
def addBroadcastInput (g : OperatorGraph) (id : OperatorId) (name : String) (t : DataSetType) :
    Except SlotError (OperatorGraph × InputRef) := do
  let n ← g.requireNode id
  if n.kind.supportsBroadcast then
    let address : InputRef := ⟨id, n.inputs.length⟩
    let slot : InputSlot := { name, address, dataType := t, broadcast := true }
    .ok (g.modifyNode id fun n => { n with inputs := n.inputs ++ [slot] }, address)
  else .error (.broadcastNotSupported id)

/-- Feed an input from an output of a compatible type. -/
def connect (g : OperatorGraph) (source : OutputRef) (target : InputRef) :
    Except SlotError OperatorGraph := do
  let out ← g.output source
  let inp ← g.input target
  if inp.isConnected then .error (.alreadyConnected target.operator target.index)
  else if out.dataType.isCompatibleWith inp.dataType then
    let g := g.modifyInput target fun s => { s with occupant := some source }
    .ok (g.modifyOutput source (·.addConsumer target))
  else .error (.typeMismatch out.dataType inp.dataType)

/-- Undo the connection that feeds an input; answers its former occupant. -/
def disconnect (g : OperatorGraph) (target : InputRef) :
    Except SlotError (OperatorGraph × OutputRef) := do
  let inp ← g.input target
  match inp.occupant with
  | none => .error (.notConnected target.operator target.index)
  | some source =>
    let g := g.modifyInput target fun s => { s with occupant := none }
    .ok (g.modifyOutput source (·.removeConsumer target), source)

/-- The slots that play a part in a loop head, none if it has too few slots. -/
def roleSlots (g : OperatorGraph) (id : OperatorId) (role : LoopRole) :
    Except MaterializationError (Option (List SlotRef)) :=
  match g.requireNode id with
  | .error e => .error (.slot e)
  | .ok n =>
    if n.kind.isLoopHead then .ok (n.roleSlots role)
    else .error (.illegalState (.notALoopHead n.name))

end OperatorGraph

end Dataflow
