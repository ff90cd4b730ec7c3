import Dataflow.Loop.Operator
import Dataflow.Operator.Script

/-!
# Catalogs of operators

A catalog owns operator objects, scripted ones and loop operators, together with the log that
the scripts share. It is the memory of the behaviour `Catalog.behaviour`.

It is the one behaviour with which plans are run, so it is also the one in which examples and
counterexamples are computed; what is proved for all behaviours holds of it. Objects are looked up
by number. A number that no object has stands for an operator that succeeds and emits nothing,
and an object that is no loop head counts as one that has not started, so the functions of the
behaviour are total.

Loop operators only change their own object, scripts also append to the log. A touch is not done
here but answered (`Reply.touches`), since the instances belong to the engine.
-/

namespace Dataflow

/-- One operator object. -/
inductive OperatorObject where
  | scripted (operator : ScriptedOperator)
  | loop (operator : LoopOperator)

/-- Operator objects, numbered by position, and the log of the scripts. -/
structure Catalog where
  objects : Array OperatorObject := #[]
  log : Array LogEntry := #[]
  deriving Inhabited

namespace OperatorObject

/-- Where an object stands as a loop head; an object that is none has not started. -/
def loopState : OperatorObject → LoopState
  | scripted s => s.loopState.getD .notStarted
  | loop l => l.state

/-- Put an object into another loop state; an object that is no loop head stays as it is. -/
def setLoopState (x : LoopState) : OperatorObject → OperatorObject
  | scripted s => .scripted { s with loopState := s.loopState.map fun _ => x }
  | loop l => .loop { l with state := x }

end OperatorObject

namespace Catalog

/-- Add an object; its number is the number of objects before. -/
def add (c : Catalog) (x : OperatorObject) : Catalog × ObjectId :=
  ({ c with objects := c.objects.push x }, c.objects.size)

/-- The loop operators, in the order in which they were added. -/
def loopOperators (c : Catalog) : List LoopOperator :=
  c.objects.toList.filterMap fun
    | .loop l => some l
    | .scripted _ => none

def prepare (o : ObjectId) (_ : TaskContext) (c : Catalog) : Reply Catalog :=
  match c.objects[o]? with
  | some (.scripted s) => { result := s.prepare, memory := c }
  | _ => { result := .ok (), memory := c }

def evaluate (o : ObjectId) (ctx : TaskContext) (c : Catalog) : Reply Catalog :=
  match c with
  | ⟨objects, log⟩ =>
    match objects[o]? with
    | some (.scripted s) =>
      let r := s.evaluate ctx log
      { r with memory := ⟨objects.setIfInBounds o (.scripted r.memory.1), r.memory.2⟩ }
    | some (.loop l) =>
      let r := l.evaluate ctx
      { r with memory := ⟨objects.setIfInBounds o (.loop r.memory), log⟩ }
    | none => { result := .ok (), memory := ⟨objects, log⟩ }

def loopState (o : ObjectId) (c : Catalog) : LoopState :=
  match c.objects[o]? with
  | some x => x.loopState
  | none => .notStarted

/-- Move a loop head on; answers where it stood before. -/
def advance (o : ObjectId) (target : LoopState) (c : Catalog) :
    Except IllegalStateError LoopState × Catalog :=
  let current := loopState o c
  match current.advance target with
  | .ok s => (.ok current, { c with objects := c.objects.modify o (·.setLoopState s) })
  | .error r => (.error (.loopStateRegression r), c)

/-- What the objects of a catalog do. -/
def behaviour : Behaviour Catalog := { prepare, evaluate, loopState, advance }

end Catalog

end Dataflow
