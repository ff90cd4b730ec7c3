import Dataflow.Execution.Instance
import Std.Data.TreeMap

/-!
# Execution states

What is carried from one stage execution to the next: for each channel the instance that was
published last, and the cardinalities measured so far. A state holds one reference on every
instance it publishes.

Operations that also change references work on a `Store`, the ledger and the state together.

* `Store.register` obtains first, then publishes, then releases the instance published before. If
  the first step is refused nothing happens. If the last one is, which takes a holder that released
  too often, the new instance is published and the operation fails all the same.
* `Store.release`, `Store.releaseAll` withdraw first, then release, so nothing stays published that
  could not be released.

Instances stay published until they are replaced or withdrawn, and no stage execution withdraws
any. So the readers of a channel find what its producer published last, also if that was in an
earlier iteration (`Dataflow.Proofs.Execution.Latest`).

The references of a whole state are released in channel order here. An engine may keep the
channels unordered; `Dataflow.Proofs.Execution.Ownership` is about any order of them. Withdrawing
everything when a state is dropped is this operation, with a failure ignored.
-/

namespace Dataflow

/-- The published instances and the measured cardinalities, by channel. -/
structure ExecutionState where
  published : Std.TreeMap ChannelId InstanceId := {}
  cardinalities : Std.TreeMap ChannelId Nat := {}
  deriving Inhabited

namespace ExecutionState

/-- The instance published for a channel. -/
def get? (s : ExecutionState) (c : ChannelId) : Option InstanceId := s.published[c]?

def contains (s : ExecutionState) (c : ChannelId) : Bool := s.published.contains c

/-- How many channels have a published instance. -/
def size (s : ExecutionState) : Nat := s.published.size

def isEmpty (s : ExecutionState) : Bool := s.published.isEmpty

/-- Each channel with its published instance, in ascending order. -/
def toList (s : ExecutionState) : List (ChannelId × InstanceId) := s.published.toList

def cardinality? (s : ExecutionState) (c : ChannelId) : Option Nat := s.cardinalities[c]?

/-- Note a measurement; a later one replaces an earlier one of the same channel. -/
def recordCardinality (s : ExecutionState) (c : ChannelId) (n : Nat) : ExecutionState :=
  { s with cardinalities := s.cardinalities.insert c n }

end ExecutionState

/-- The instances of an execution and the state that publishes some of them. -/
structure Store where
  ledger : Ledger := {}
  state : ExecutionState := {}
  deriving Inhabited

/-- A computation on a store. When it fails, what it did before stays done. -/
abbrev StoreM := EStateM SchedulingError Store

namespace Store

/-- Run a computation on the ledger of a store. -/
def onLedger {α : Type} (x : LedgerM α) : StoreM α := fun s =>
  match x s.ledger with
  | .ok a l => .ok a { s with ledger := l }
  | .error e l => .error e { s with ledger := l }

/-- Publish an instance for its channel and take a reference on it. The reference on the
instance published before is released afterwards. -/
def register (i : InstanceId) : StoreM Unit := do
  onLedger (Ledger.obtain i)
  let s ← get
  let channel := (s.ledger.get i).channel
  set { s with state := { s.state with published := s.state.published.insert channel i } }
  match s.state.get? channel with
  | some previous =>
    let _ ← onLedger (Ledger.release previous)
  | none => pure ()

/-- Publish one instance after the other. -/
def registerEach : List InstanceId → StoreM Unit
  | [] => pure ()
  | i :: is => do
    register i
    registerEach is

/-- Withdraw the instance of a channel and release the reference on it; answers whether there
was one. -/
def release (c : ChannelId) : StoreM Bool := do
  let s ← get
  match s.state.get? c with
  | some i =>
    set { s with state := { s.state with published := s.state.published.erase c } }
    let _ ← onLedger (Ledger.release i)
    pure true
  | none => pure false

/-- Withdraw every instance and release the references in channel order, up to the first
failure. -/
def releaseAll : StoreM Unit := do
  let s ← get
  set { s with state := { s.state with published := {} } }
  onLedger (Ledger.releaseEach (s.state.toList.map Prod.snd))

end Store

end Dataflow
