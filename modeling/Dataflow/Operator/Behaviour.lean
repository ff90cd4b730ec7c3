import Dataflow.Execution.Instance
import Dataflow.Operator.Basic

/-!
# What operators do

An activation of a task hands its operator a context: which task it is, why it was activated,
and the instances bound to its inputs. The operator replies with what it emits, with what it
did to the instances on its inputs, and with whether it succeeded.

A `Behaviour ω` says this for all operator objects at once. The type `ω` is the operators' own
memory, in which each of them may keep whatever it likes, also together with others; the engine
only passes it on. So every result that holds for all behaviours holds for operators that share
state, that log, or that answer differently each time.

* An activation is two calls, `prepare` and `evaluate`; a failing `prepare` leaves out the second.
  Both may change the memory and touch instances, and what they did counts although they fail;
  emissions count only if the activation succeeds.
* A `Touch` is what an operator can do to an instance through its handle: obtain a reference,
  release one, note a cardinality. A touch that the instance refuses changes nothing.
* `loopState` and `advance` are how the engine sees a loop head. No law connects them: an operator
  may answer any state, and an advance may leave it where it was. A result that needs a cell with
  the laws of `LoopState.advance` asks for it (`Behaviour.HasCell`, `Behaviour.KeepsCell`).

A reply is computed from the context as it is when the call begins. Operators run one at a time;
what concurrent operators could do to an instance in the middle of a call is out of scope, and so
are handles that an operator keeps beyond its activation. What such holders may do to instances is
the subject of `SharedStore`, apart from any execution.
-/

namespace Dataflow

/-- Which readiness condition activated a task. -/
inductive Activation where
  /-- All inputs are bound. -/
  | plain
  /-- The initialization inputs of a loop head that has not started are bound. -/
  | loopInitialization
  /-- The body inputs of a running loop head are bound. -/
  | loopIteration
  deriving DecidableEq, Repr, Inhabited

/-- An instance bound to an input, as it is when the operator looks at it. -/
structure BoundInput where
  id : InstanceId
  content : Instance
  deriving DecidableEq, Repr, Inhabited

/-- Data put on one output. -/
structure Emission where
  payload : Payload
  cardinality : Option Nat := none
  deriving DecidableEq, Repr, Inhabited

/-- What an activation shows to its operator. -/
structure TaskContext where
  task : TaskId
  activation : Activation
  /-- The results of a terminal task have to be there before the stage ends. -/
  forced : Bool
  inputs : List (Option BoundInput)
  /-- How many outputs there are. -/
  outputCount : Nat
  deriving DecidableEq, Repr, Inhabited

namespace TaskContext

def inputCount (ctx : TaskContext) : Nat := ctx.inputs.length

/-- The instance on an input, if one is bound. -/
def input? (ctx : TaskContext) (i : Nat) : Option BoundInput := (ctx.inputs[i]?).join

def hasInput (ctx : TaskContext) (i : Nat) : Bool := (ctx.input? i).isSome

/-- The instance on an input. -/
def input (ctx : TaskContext) (i : Nat) : Except OperatorError BoundInput :=
  match ctx.input? i with
  | some b => .ok b
  | none => .error (.missingInput i)

/-- The data on an input; an instance that is disposed counts as missing. -/
def payload (ctx : TaskContext) (i : Nat) : Except OperatorError Payload :=
  match (ctx.input? i).bind fun b => b.content.payload with
  | some p => .ok p
  | none => .error (.missingInput i)

/-- The number on an input. -/
def number (ctx : TaskContext) (i : Nat) : Except OperatorError UInt64 := do
  match (← ctx.payload i).toNumber? with
  | some n => .ok n
  | none => .error (.unexpectedPayload i Payload.numberName)

/-- The text on an input. -/
def text (ctx : TaskContext) (i : Nat) : Except OperatorError String := do
  match (← ctx.payload i).toText? with
  | some s => .ok s
  | none => .error (.unexpectedPayload i Payload.textName)

end TaskContext

/-- What is emitted on each output. -/
abbrev Emissions := List (Option Emission)

namespace Emissions

/-- Nothing on any of `n` outputs. -/
def none (n : Nat) : Emissions := List.replicate n Option.none

/-- Put data on an output, in place of what is there. -/
def emit (out : Emissions) (o : Nat) (e : Emission) : Except OperatorError Emissions :=
  if o < out.length then .ok (out.set o (some e)) else .error (.noSuchOutput o)

end Emissions

/-- Something an operator does to the instance on one of its inputs. -/
inductive Touch where
  | obtain (input : Nat)
  | release (input : Nat)
  | annotate (input : Nat) (cardinality : Nat)
  deriving DecidableEq, Repr

/-- Do what an operator did to the instances on its inputs. What is refused changes nothing. -/
def Ledger.touch (l : Ledger) (inputs : List (Option InstanceId)) (t : Touch) : Ledger :=
  match t with
  | .obtain i =>
    match (inputs[i]?).join with
    | some x => match Ledger.obtain x l with | .ok _ l => l | .error _ l => l
    | none => l
  | .release i =>
    match (inputs[i]?).join with
    | some x => match Ledger.release x l with | .ok _ l => l | .error _ l => l
    | none => l
  | .annotate i n =>
    match (inputs[i]?).join with
    | some x => (l.annotate x n).2
    | none => l

/-- What an operator replies to an activation. -/
structure Reply (ω : Type) where
  result : Except OperatorError Unit
  /-- What it emits; this counts only if it succeeds. -/
  emissions : Emissions := []
  /-- What it did to the instances on its inputs, in order; this counts in any case. -/
  touches : List Touch := []
  /-- The operators' memory afterwards. -/
  memory : ω

/-- What the operator objects do, over their memory `ω`. -/
structure Behaviour (ω : Type) where
  /-- Get ready for an activation; nothing is emitted yet. -/
  prepare : ObjectId → TaskContext → ω → Reply ω
  /-- Consume the bound inputs and emit outputs. -/
  evaluate : ObjectId → TaskContext → ω → Reply ω
  /-- Where a loop head stands. -/
  loopState : ObjectId → ω → LoopState
  /-- Move a loop head on; answers where it stood before. -/
  advance : ObjectId → LoopState → ω → Except IllegalStateError LoopState × ω

end Dataflow
