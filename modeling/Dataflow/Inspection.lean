import Dataflow.Execution.Instance
import Dataflow.Loop.Operator
import Dataflow.OperatorGraph.Basic
import Dataflow.Task
import Dataflow.Text.Quoted

/-!
# Inspections

An inspection shows a value with its structure, for whoever looks into a running engine: records
with their fields, applied constructors, lists, quoted texts and plain words.

An inspection is a tree and its text a function of the tree (`Inspection.render`), on one line.
Texts are quoted with the escapes of `Text.quoted`. Four things are shown: what a node of an
operator graph stands for, a task, an instance with its references and its cardinality, and a loop
operator with its state and its iterations. What an operator computes with is not shown, since it
is known to the operator alone.

No failure and no event contains an inspection; those use labels.
-/

namespace Dataflow

/-- What an inspection shows. -/
inductive Inspection where
  /-- A number or a name, as it is. -/
  | word (text : String)
  | quoted (text : String)
  | list (items : List Inspection)
  /-- A name applied to arguments. -/
  | applied (name : String) (arguments : List Inspection)
  /-- A name with named fields. -/
  | record (name : String) (fields : List (String × Inspection))
  deriving Repr, Inhabited

namespace Inspection

mutual

/-- An inspection on one line. -/
def render : Inspection → String
  | word s => s
  | quoted s => Text.quoted s
  | list xs => "[" ++ String.intercalate ", " (renderAll xs) ++ "]"
  | applied name xs => name ++ "(" ++ String.intercalate ", " (renderAll xs) ++ ")"
  | record name fields =>
    name ++ " \x7b " ++ String.intercalate ", " (renderFields fields) ++ " \x7d"

def renderAll : List Inspection → List String
  | [] => []
  | x :: xs => render x :: renderAll xs

def renderFields : List (String × Inspection) → List String
  | [] => []
  | (name, x) :: fields => (name ++ ": " ++ render x) :: renderFields fields

end

/-! ## Parts -/

def ofNat (n : Nat) : Inspection := word (toString n)

def ofBool (b : Bool) : Inspection := word (if b then "true" else "false")

def ofOption {α : Type} (f : α → Inspection) : Option α → Inspection
  | some x => applied "Some" [f x]
  | none => word "None"

def ofTaskId (id : TaskId) : Inspection := applied "TaskId" [ofNat id]

def ofChannelId (id : ChannelId) : Inspection := applied "ChannelId" [ofNat id]

def ofStageId (id : StageId) : Inspection := applied "StageId" [ofNat id]

def ofPlatform (p : Platform) : Inspection := record "Platform" [("name", quoted p.name)]

def ofLoopState : LoopState → Inspection
  | .notStarted => word "NotStarted"
  | .running => word "Running"
  | .finished => word "Finished"

/-! ## Wholes -/

/-- What a node of an operator graph stands for. -/
def ofNodeKind : NodeKind → Inspection
  | .elementary o => applied "Elementary" [quoted o.name, ofPlatform o.platform]
  | .logical head => record "Logical" [("loop_head", ofBool head)]

/-- The task with number `id`. -/
def ofTask (id : TaskId) (t : Task) : Inspection :=
  record "ExecutionTask"
    [("id", ofTaskId id),
      ("operator", quoted t.operator.name),
      ("platform", ofPlatform t.operator.platform),
      ("inputs", list (t.inputs.map (ofOption ofChannelId))),
      ("outputs", list (t.outputs.map (ofOption ofChannelId))),
      ("stage", ofOption ofStageId t.stage)]

def ofInstance (x : Instance) : Inspection :=
  record "ChannelInstance"
    [("channel", ofChannelId x.channel),
      ("producer", ofTaskId x.producer),
      ("references", ofNat x.references),
      ("cardinality", ofOption ofNat x.cardinality)]

def ofLoopOperator (l : LoopOperator) : Inspection :=
  record "LoopOperator"
    [("name", quoted l.name),
      ("platform", ofPlatform l.platform),
      ("state", ofLoopState l.state),
      ("iterations", ofNat l.iterations)]

end Inspection

end Dataflow
