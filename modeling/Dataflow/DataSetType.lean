/-!
# Data set types

The declared element type of an operator slot. A type names an element and says whether the
quanta are groups of such elements; the element `*` stands for anything.

Types are compared by name only, no element type has any structure. Two types are compatible if
they are equal or one of them accepts anything: a group is not compatible with its own elements,
and a group of anything accepts single elements as well. Compatibility is symmetric and
reflexive (`isCompatibleWith_comm`, `isCompatibleWith_self`) but not transitive, because of the
element `*`. Nothing checks the data themselves; an operator that reads a payload of the wrong
kind is told so (`OperatorError.unexpectedPayload`).
-/

namespace Dataflow

/-- Type of the data quanta that flow through a slot. -/
structure DataSetType where
  /-- Name of the element type; `*` accepts anything. -/
  element : String
  /-- Whether the quanta are groups of elements, as after a grouping. -/
  grouped : Bool := false
  deriving DecidableEq, Repr

namespace DataSetType

/-- The type that is compatible with every other type. -/
def any : DataSetType := ⟨"*", false⟩

instance : Inhabited DataSetType := ⟨any⟩

/-- A type accepts anything iff its element is `*`, grouped or not. -/
def isAny (t : DataSetType) : Bool := t.element == "*"

/-- Whether data of type `source` may flow into a slot declared as `target`. -/
def isCompatibleWith (source target : DataSetType) : Bool :=
  source.isAny || target.isAny || source == target

/-- Groups are written `Group<T>`, single elements `T`. -/
def label (t : DataSetType) : String :=
  if t.grouped then "Group<" ++ t.element ++ ">" else t.element

theorem isCompatibleWith_comm (s t : DataSetType) :
    s.isCompatibleWith t = t.isCompatibleWith s := by
  rw [Bool.eq_iff_iff]
  simp only [isCompatibleWith, Bool.or_eq_true, beq_iff_eq]
  constructor <;> rintro ((h | h) | h) <;> simp [h]

theorem isCompatibleWith_self (t : DataSetType) : t.isCompatibleWith t = true := by
  simp [isCompatibleWith]

end DataSetType

end Dataflow
