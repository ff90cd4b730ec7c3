import Dataflow.Operator.Behaviour

/-!
# Scripted operators

An operator whose activations are written down as lists of actions. Scripts read inputs, emit
outputs, handle references, and leave a log of what they saw; they serve to try out a plan
without a platform behind it.

The actions of an activation are done in order, up to the first that fails. The first
activation does the first list of the script, and so on; when there are no more lists the last
one is done again. Without a script the operator puts a text on every output that says what it
was called with, so that an execution can be followed by its data alone.

An action that handles a reference sees the instance as the earlier actions of the same list left
it. The instances belong to the engine, so the action works on the copy in the context
(`Activity.update`) and is answered as a touch, which the engine does afterwards in the same
order. An instance that stands on several inputs is changed on all of them.

A refused reference is an outcome that the script logs, not a failure of the operator. Its own
failures are an input without data, data of another kind, an output it does not have, a sum of
more than 64 bits, a loop state that would go back, and those it is told to report.
-/

namespace Dataflow

/-- One step of a script. -/
inductive Action where
  /-- Put a payload on an output, with its measured cardinality if there is one. -/
  | emit (output : Nat) (value : Payload) (cardinality : Option Nat)
  /-- Put the data of an input on an output. -/
  | forward (input output : Nat)
  /-- Put the number on an input, plus a summand, on an output. -/
  | add (input output : Nat) (summand : UInt64)
  /-- Put the sum of the numbers on all bound inputs on an output. -/
  | sum (output : Nat)
  /-- Put a text on an output that says what the operator was called with. -/
  | trace (output : Nat)
  | readNumber (input : Nat)
  | readText (input : Nat)
  /-- Log whether an input is bound. -/
  | has (input : Nat)
  /-- Log what is known of the instance on an input. -/
  | inspect (input : Nat)
  | release (input : Nat)
  | obtain (input : Nat)
  | fail (reason : String)
  /-- Move the operator's own loop state on. -/
  | advance (target : LoopState)
  deriving DecidableEq, Repr

/-- What a script leaves in the log. -/
inductive LogEntry where
  /-- An activation began with these data; none stands for an input without data. -/
  | evaluated (task : TaskId) (activation : Activation) (forced : Bool)
      (inputs : List (Option Payload))
  | read (task : TaskId) (input : Nat) (value : Payload)
  | has (task : TaskId) (input : Nat) (bound : Bool)
  | inspected (task : TaskId) (input : Nat) (content : Instance)
  | released (task : TaskId) (input : Nat) (outcome : Except SchedulingError Bool)
  | obtained (task : TaskId) (input : Nat) (outcome : Except SchedulingError Unit)

/-- An operator that follows a script. -/
structure ScriptedOperator where
  name : String
  /-- The actions of each activation; without a script every output is traced. -/
  script : Option (List (List Action)) := none
  /-- Getting ready fails for this reason while this many activations were evaluated. -/
  prepareFailure : Option (String × Nat) := none
  /-- How many activations were evaluated. -/
  calls : Nat := 0
  /-- Where the operator stands as a loop head; none if it is not one. -/
  loopState : Option LoopState := none
  deriving DecidableEq, Repr

/-! ## One activation -/

/-- What changes while a script runs. -/
structure Activity where
  context : TaskContext
  emissions : Emissions
  touches : List Touch := []
  loopState : Option LoopState
  log : Array LogEntry

/-- A step of a script; a failure leaves what was done before. -/
abbrev ActivityM := EStateM OperatorError Activity

namespace Activity

/-- Read the context. -/
def ask {α : Type} (f : TaskContext → Except OperatorError α) : ActivityM α := fun a =>
  match f a.context with
  | .ok x => .ok x a
  | .error e => .error e a

def note (entry : TaskId → LogEntry) : ActivityM Unit :=
  modify fun a => { a with log := a.log.push (entry a.context.task) }

def emit (o : Nat) (e : Emission) : ActivityM Unit := fun a =>
  match a.emissions.emit o e with
  | .ok out => .ok () { a with emissions := out }
  | .error e => .error e a

/-- Show the changed instance on every input that it is bound to. -/
def update (a : Activity) (id : InstanceId) (content : Instance) : Activity :=
  let change (b : BoundInput) : BoundInput := if b.id = id then { b with content } else b
  { a with context := { a.context with inputs := a.context.inputs.map (·.map change) } }

/-- Release the instance on an input; a refusal is an outcome, not a failure. -/
def release (i : Nat) : ActivityM Unit := do
  let b ← ask (·.input i)
  match b.content.release with
  | .ok (last, x) =>
    modify fun a => { a.update b.id x with touches := a.touches ++ [.release i] }
    note fun t => .released t i (.ok last)
  | .error e => note fun t => .released t i (.error e)

/-- Obtain a reference on the instance on an input; a refusal is an outcome, not a failure. -/
def obtain (i : Nat) : ActivityM Unit := do
  let b ← ask (·.input i)
  match b.content.obtain with
  | .ok x =>
    modify fun a => { a.update b.id x with touches := a.touches ++ [.obtain i] }
    note fun t => .obtained t i (.ok ())
  | .error e => note fun t => .obtained t i (.error e)

/-- Add two numbers; a sum of more than 64 bits is a failure. -/
def plus (m n : UInt64) : ActivityM UInt64 :=
  if m.toNat + n.toNat < UInt64.size then pure (m + n) else throw (.failed "overflow")

/-- The sum of the numbers on the given inputs, as far as they are bound. -/
def sumOf : UInt64 → List Nat → ActivityM UInt64
  | total, [] => pure total
  | total, i :: is => do
    if (← get).context.hasInput i then
      let n ← ask (·.number i)
      sumOf (← plus total n) is
    else sumOf total is

/-- What an operator was called with: its name and the data on its inputs, if it has any. Texts of
more than 120 bytes are cut down to the name and the number of bytes. -/
def callText (name : String) (ctx : TaskContext) : String :=
  let word (i : Nat) : String :=
    match ctx.payload i with
    | .ok p => p.render
    | .error _ => "-"
  let text :=
    if ctx.inputCount = 0 then name
    else name ++ "(" ++ String.intercalate "," ((List.range ctx.inputCount).map word) ++ ")"
  if text.utf8ByteSize > 120 then name ++ "#" ++ toString text.utf8ByteSize else text

/-- Move the operator's own loop state on. -/
def advance (target : LoopState) : ActivityM Unit := do
  match (← get).loopState with
  | none => throw (.failed "not a loop head")
  | some s =>
    match s.advance target with
    | .ok s => modify fun a => { a with loopState := some s }
    | .error r => throw (.failed (IllegalStateError.loopStateRegression r).message)

/-- Do one action of the operator called `name`. -/
def act (name : String) : Action → ActivityM Unit
  | .emit o v n => emit o ⟨v, n⟩
  | .forward i o => do emit o ⟨← ask (·.payload i), none⟩
  | .add i o n => do
    let m ← ask (·.number i)
    emit o ⟨.number (← plus m n), none⟩
  | .sum o => do
    let total ← sumOf 0 (List.range (← get).context.inputCount)
    emit o ⟨.number total, none⟩
  | .trace o => do emit o ⟨.text (callText name (← get).context), none⟩
  | .readNumber i => do
    let n ← ask (·.number i)
    note fun t => .read t i (.number n)
  | .readText i => do
    let s ← ask (·.text i)
    note fun t => .read t i (.text s)
  | .has i => do
    let bound := (← get).context.hasInput i
    note fun t => .has t i bound
  | .inspect i => do
    let b ← ask (·.input i)
    note fun t => .inspected t i b.content
  | .release i => release i
  | .obtain i => obtain i
  | .fail reason => throw (.failed reason)
  | .advance target => advance target

/-- Do the actions in order, up to the first failure. -/
def actAll (name : String) : List Action → ActivityM Unit
  | [] => pure ()
  | a :: as => do
    act name a
    actAll name as

end Activity

namespace ScriptedOperator

/-- The actions of the activation after `calls` others, for an operator with `outputs`
outputs. -/
def actions (s : ScriptedOperator) (outputs : Nat) : List Action :=
  match s.script with
  | none => (List.range outputs).map .trace
  | some lists => lists.getD (min s.calls (lists.length - 1)) []

/-- The failure to get ready, if it is due. -/
def prepare (s : ScriptedOperator) : Except OperatorError Unit :=
  match s.prepareFailure with
  | some (reason, n) => if s.calls = n then .error (.failed reason) else .ok ()
  | none => .ok ()

/-- One activation; `log` is the log so far. -/
def evaluate (s : ScriptedOperator) (ctx : TaskContext) (log : Array LogEntry) :
    Reply (ScriptedOperator × Array LogEntry) :=
  let seen := (List.range ctx.inputCount).map fun i => (ctx.payload i).toOption
  let start : Activity :=
    { context := ctx
      emissions := .none ctx.outputCount
      loopState := s.loopState
      log := log.push (.evaluated ctx.task ctx.activation ctx.forced seen) }
  let reply (result : Except OperatorError Unit) (a : Activity) :=
    { result
      emissions := a.emissions
      touches := a.touches
      memory := ({ s with calls := s.calls + 1, loopState := a.loopState }, a.log) }
  match Activity.actAll s.name (s.actions ctx.outputCount) start with
  | .ok _ a => reply (.ok ()) a
  | .error e a => reply (.error e) a

end ScriptedOperator

end Dataflow
