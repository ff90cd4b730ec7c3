import Dataflow.Error
import Dataflow.Operator.Basic

/-!
# Tasks

A task is one use of an operator in a task graph. It remembers which channel feeds each of its
inputs and which channel each of its outputs feeds, and, once planned, its stage.

The inputs of a task are those that its operator declares, followed by the broadcast inputs that
were added one by one; the outputs are the declared ones. Tasks may share an operator object, and
so its state: two tasks with one loop head are in one loop state.

A bound input never loses its channel and an output keeps the one it has, since there is no
operation that disconnects tasks. The lemmas here are those with which everything else reads a
task after one of its slots was bound; that only loop heads take feedback
(`not_mem_bodyInputs`) is why ordinary tasks never close a cycle.
-/

namespace Dataflow

/-- One use of an operator. -/
structure Task where
  operator : Operator
  /-- The channel of each input; broadcast inputs come after the declared ones. -/
  inputs : List (Option ChannelId)
  /-- The channel of each output. -/
  outputs : List (Option ChannelId)
  /-- The stage of a planned task. -/
  stage : Option StageId := none
  deriving DecidableEq, Repr, Inhabited

namespace Task

/-- A task that nothing feeds yet and that feeds nothing. -/
def ofOperator (o : Operator) : Task where
  operator := o
  inputs := List.replicate o.inputs.length none
  outputs := List.replicate o.outputs.length none

def isLoopHead (t : Task) : Bool := t.operator.isLoopHead

def inputChannel (t : Task) (i : Nat) : Option ChannelId := (t.inputs[i]?).join

def outputChannel (t : Task) (o : Nat) : Option ChannelId := (t.outputs[o]?).join

def bindInput (t : Task) (i : Nat) (c : ChannelId) : Task :=
  { t with inputs := t.inputs.set i (some c) }

def bindOutput (t : Task) (o : Nat) (c : ChannelId) : Task :=
  { t with outputs := t.outputs.set o (some c) }

/-- What is written on the task with number `id`. -/
def label (id : TaskId) (t : Task) : TaskLabel := ⟨id, t.operator.name, t.operator.platform⟩

@[simp] theorem inputChannel_bindInput (t : Task) (i j : Nat) (c : ChannelId) :
    (t.bindInput i c).inputChannel j =
      if j = i ∧ i < t.inputs.length then some c else t.inputChannel j := by
  simp only [inputChannel, bindInput, List.getElem?_set]
  split <;> split <;> simp_all

@[simp] theorem outputChannel_bindOutput (t : Task) (i j : Nat) (c : ChannelId) :
    (t.bindOutput i c).outputChannel j =
      if j = i ∧ i < t.outputs.length then some c else t.outputChannel j := by
  simp only [outputChannel, bindOutput, List.getElem?_set]
  split <;> split <;> simp_all

@[simp] theorem inputChannel_bindOutput (t : Task) (i j : Nat) (c : ChannelId) :
    (t.bindOutput i c).inputChannel j = t.inputChannel j := rfl

@[simp] theorem outputChannel_bindInput (t : Task) (i j : Nat) (c : ChannelId) :
    (t.bindInput i c).outputChannel j = t.outputChannel j := rfl

theorem loopRoles_eq_none {t : Task} (h : t.isLoopHead = false) : t.operator.loopRoles = none := by
  unfold isLoopHead Operator.isLoopHead at h
  simpa using h

/-- Only loop heads take feedback. -/
theorem not_mem_bodyInputs {t : Task} (h : t.isLoopHead = false) (i : Nat) :
    i ∉ t.operator.bodyInputs := by
  unfold Operator.bodyInputs
  rw [loopRoles_eq_none h]
  exact List.not_mem_nil

end Task

end Dataflow
