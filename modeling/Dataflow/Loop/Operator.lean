import Dataflow.Operator.Behaviour

/-!
# Loop operators

A loop head that iterates until a criterion holds of the convergence data, or until a number of
iterations is reached. It has four inputs (initial data, initial convergence data, and the same
two from the loop body) and three outputs (data and convergence data for the next iteration, and
the final data).

An activation takes the data and the convergence data of its part, and either emits both for an
iteration or the data as the result and finishes. It goes through these steps, and a failing one
ends it with what the earlier steps did left done:

* read the data, then the convergence data, from the inputs of its part;
* an initialization moves the state to `running`, an iteration is counted;
* the loop has converged if the allowed number of iterations is reached, which is asked first, or
  if the criterion holds;
* if it has, emit the result and move the state to `finished`; if not, emit both for the body.

So the criterion, which reports convergence data of the wrong kind, comes after the state and the
count have changed. `Dataflow.Proofs.Loop.Activations` says of every failure what it leaves behind,
and what the operator emits over any stream of activations.

A criterion is given as the kind of payload that it reads and its truth value on payloads of that
kind. The allowed number of iterations may be zero: then the loop has converged at its
initialization, as it has with one that its criterion accepts.
-/

namespace Dataflow

/-- When a loop has converged. -/
structure Criterion where
  /-- How the kind of payload is called that the criterion reads. -/
  expected : String
  /-- Whether it holds; none for a payload of another kind. -/
  holds : Payload → Option Bool

namespace Criterion

/-- A criterion on numbers. -/
def onNumber (p : UInt64 → Bool) : Criterion := ⟨Payload.numberName, fun x => x.toNumber?.map p⟩

/-- A criterion on texts. -/
def onText (p : String → Bool) : Criterion := ⟨Payload.textName, fun x => x.toText?.map p⟩

/-- Ask the criterion; a payload of the wrong kind is reported for the convergence input of an
iteration. -/
def check (c : Criterion) (p : Payload) : Except OperatorError Bool :=
  match c.holds p with
  | some b => .ok b
  | none => .error (.unexpectedPayload 3 c.expected)

end Criterion

/-- A loop head with a criterion. -/
structure LoopOperator where
  name : String
  platform : Platform
  dataType : DataSetType := .any
  convergenceType : DataSetType := .any
  criterion : Criterion
  /-- After this many iterations the loop has converged in any case. -/
  maxIterations : Option Nat := none
  /-- How many iterations were started. A counter of 64 bits agrees with it as long as the operator was
  evaluated less than 2^64 times, since an evaluation starts one iteration at most. -/
  iterations : Nat := 0
  state : LoopState := .notStarted

namespace LoopOperator

/-- What planning knows of it. -/
def declaration (l : LoopOperator) (object : ObjectId) : Operator where
  object
  name := l.name
  platform := l.platform
  inputs := [l.dataType, l.convergenceType, l.dataType, l.convergenceType]
  outputs := [l.dataType, l.convergenceType, l.dataType]
  loopRoles := some {}

/-- Whether the allowed number of iterations is reached. -/
def isExhausted (l : LoopOperator) : Bool := l.maxIterations.any fun max => l.iterations ≥ max

/-- Whether the loop ends with these convergence data. -/
def hasConverged (l : LoopOperator) (convergence : Payload) : Except OperatorError Bool :=
  if l.isExhausted then .ok true else l.criterion.check convergence

/-- Report a failure. -/
def fail (l : LoopOperator) (e : OperatorError) : Reply LoopOperator :=
  { result := .error e, memory := l }

/-- Move on to another state; going back fails the activation. -/
def advance (l : LoopOperator) (s : LoopState) : Except OperatorError LoopOperator :=
  match l.state.advance s with
  | .ok s => .ok { l with state := s }
  | .error r => .error (.failed (IllegalStateError.loopStateRegression r).message)

/-- Emit the result and finish. -/
def finish (l : LoopOperator) (ctx : TaskContext) (data : Payload) : Reply LoopOperator :=
  match (Emissions.none ctx.outputCount).emit 2 ⟨data, none⟩ with
  | .error e => l.fail e
  | .ok out =>
    match l.advance .finished with
    | .error e => l.fail e
    | .ok l => { result := .ok (), emissions := out, memory := l }

/-- Emit the data of the next iteration. -/
def iterate (l : LoopOperator) (ctx : TaskContext) (data convergence : Payload) :
    Reply LoopOperator :=
  match (Emissions.none ctx.outputCount).emit 0 ⟨data, none⟩ with
  | .error e => l.fail e
  | .ok out =>
    match out.emit 1 ⟨convergence, none⟩ with
    | .error e => l.fail e
    | .ok out => { result := .ok (), emissions := out, memory := l }

/-- Finish if the loop has converged, iterate otherwise. -/
def decide (l : LoopOperator) (ctx : TaskContext) (data convergence : Payload) :
    Reply LoopOperator :=
  match l.hasConverged convergence with
  | .error e => l.fail e
  | .ok true => l.finish ctx data
  | .ok false => l.iterate ctx data convergence

/-- The data on one input and the convergence data on another. -/
def read (ctx : TaskContext) (data convergence : Nat) :
    Except OperatorError (Payload × Payload) := do
  let d ← ctx.payload data
  let c ← ctx.payload convergence
  .ok (d, c)

/-- One activation. An initialization starts the loop, an iteration is counted. -/
def evaluate (l : LoopOperator) (ctx : TaskContext) : Reply LoopOperator :=
  match ctx.activation with
  | .plain => l.fail (.failed s!"loop '{l.name}' activated outside of its loop roles")
  | .loopInitialization =>
    match read ctx 0 1 with
    | .error e => l.fail e
    | .ok (data, convergence) =>
      match l.advance .running with
      | .error e => l.fail e
      | .ok l => l.decide ctx data convergence
  | .loopIteration =>
    match read ctx 2 3 with
    | .error e => l.fail e
    | .ok (data, convergence) =>
      { l with iterations := l.iterations + 1 }.decide ctx data convergence

end LoopOperator

end Dataflow
