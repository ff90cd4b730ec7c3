import Dataflow.Error
import Dataflow.Payload

/-!
# Channel instances

A channel instance is the data of a channel from one activation of its producer. It is counted:
it starts with the one reference of the stage that produced it, every further holder obtains a
reference and later releases it, and with the last reference the data goes away. An instance
without references is disposed for good.

* `Instance.obtain`, `Instance.release`: one holder more, one fewer.
* `Ledger`: all instances of an execution, and the same operations on a numbered one.

Handles to one instance are one number. The ledger only grows, and an instance keeps its number,
its channel, its producer and its mark; what changes are the references, the data and the
cardinality. Instances that were created outside of an execution stand in the same ledger.

Counters are natural numbers. Counters of 64 bits agree with them as long as fewer than 2^64
references are held and were obtained (`Dataflow.Proofs.Execution.Lifetime` has this bound in its
statement). A cardinality is what an operator measured; the first note counts, later ones are
refused without being a failure.

A failing operation changes nothing on the instance, but a computation on the ledger that fails
halfway keeps what it did before: `LedgerM` carries the ledger along when it fails, and nothing is
rolled back. What a stage execution leaves behind then is the subject of
`Dataflow.Proofs.Execution.GivenBack`.

Out of scope: holders that run at the same time. Each operation is one step here.
-/

namespace Dataflow

/-- The data of a channel from one activation of its producer. -/
structure Instance where
  channel : ChannelId
  producer : TaskId
  /-- Whether the measured cardinality is of interest. -/
  instrumented : Bool
  /-- The data, until the last reference is released. -/
  payload : Option Payload
  /-- How many quanta the data has, if that was measured. -/
  cardinality : Option Nat := none
  /-- How many references are held. -/
  references : Nat := 1
  /-- How many references were obtained, released ones included. -/
  obtained : Nat := 0
  deriving DecidableEq, Repr

namespace Instance

/-- What an unknown number stands for: an instance that is disposed. -/
instance : Inhabited Instance := ⟨⟨0, 0, false, none, none, 0, 0⟩⟩

/-- A fresh instance with the reference of its producer. -/
def create (channel : ChannelId) (producer : TaskId) (payload : Payload) (instrumented : Bool) :
    Instance :=
  { channel, producer, instrumented, payload := some payload }

def isDisposed (x : Instance) : Bool := x.references == 0

/-- The data of a live instance. -/
def data (x : Instance) : Except SchedulingError Payload :=
  match x.payload with
  | some p => .ok p
  | none => .error (.useAfterRelease x.channel)

/-- Note the measured cardinality. Only the first note counts; the flag says whether this one
did. -/
def annotate (x : Instance) (cardinality : Nat) : Bool × Instance :=
  if x.cardinality.isSome then (false, x) else (true, { x with cardinality := some cardinality })

/-- Take one more reference on a live instance. -/
def obtain (x : Instance) : Except SchedulingError Instance :=
  if x.references = 0 then .error (.useAfterRelease x.channel)
  else .ok { x with references := x.references + 1, obtained := x.obtained + 1 }

/-- Give back one reference; the flag says whether it was the last one. -/
def release (x : Instance) : Except SchedulingError (Bool × Instance) :=
  match x.references with
  | 0 => .error (.doubleRelease x.channel)
  | 1 => .ok (true, { x with references := 0, payload := none })
  | n + 2 => .ok (false, { x with references := n + 1 })

end Instance

/-! ## All instances of an execution -/

/-- Number of an instance; two holders with one number hold one instance. -/
abbrev InstanceId := Nat

/-- Every instance created so far, in order of creation. -/
structure Ledger where
  cells : Array Instance := #[]
  deriving DecidableEq, Repr, Inhabited

/-- A computation on the ledger. When it fails, what it did before stays done. -/
abbrev LedgerM := EStateM SchedulingError Ledger

namespace Ledger

/-- The instance with number `i`; unknown numbers stand for a disposed instance. -/
def get (l : Ledger) (i : InstanceId) : Instance := l.cells.getD i default

/-- Replace the instance with number `i`. -/
def put (l : Ledger) (i : InstanceId) (x : Instance) : Ledger := ⟨l.cells.setIfInBounds i x⟩

/-- Enter a new instance under the next number. -/
def create (l : Ledger) (x : Instance) : Ledger × InstanceId := (⟨l.cells.push x⟩, l.cells.size)

/-- Obtain a reference on an instance. -/
def obtain (i : InstanceId) : LedgerM Unit := fun l =>
  match (l.get i).obtain with
  | .ok x => .ok () (l.put i x)
  | .error e => .error e l

/-- Release a reference on an instance; answers whether it was the last one. -/
def release (i : InstanceId) : LedgerM Bool := fun l =>
  match (l.get i).release with
  | .ok (last, x) => .ok last (l.put i x)
  | .error e => .error e l

/-- Release one reference on each of the instances in turn, up to the first failure. -/
def releaseEach : List InstanceId → LedgerM Unit
  | [] => pure ()
  | i :: is => do
    let _ ← release i
    releaseEach is

/-- Note the measured cardinality of an instance. -/
def annotate (l : Ledger) (i : InstanceId) (cardinality : Nat) : Bool × Ledger :=
  let (noted, x) := (l.get i).annotate cardinality
  (noted, l.put i x)

@[simp] theorem get_put (l : Ledger) (i j : InstanceId) (x : Instance) :
    (l.put i x).get j = if i = j ∧ i < l.cells.size then x else l.get j := by
  unfold get put
  simp only [Array.getD_eq_getD_getElem?, Array.getElem?_setIfInBounds]
  by_cases h : i = j
  · subst h
    by_cases hi : i < l.cells.size
    · simp [hi]
    · simp [hi]
  · simp [h]

@[simp] theorem size_put (l : Ledger) (i : InstanceId) (x : Instance) :
    (l.put i x).cells.size = l.cells.size := Array.size_setIfInBounds

theorem get_create (l : Ledger) (x : Instance) (j : InstanceId) :
    (l.create x).1.get j = if j = l.cells.size then x else l.get j := by
  unfold get create
  simp only [Array.getD_eq_getD_getElem?, Array.getElem?_push]
  split <;> rfl

end Ledger

end Dataflow
