/-!
# Payloads

The data that an operator puts on an output. A payload is passed on as a whole and never copied
or looked into by the engine; an operator that needs a number or a text asks for that kind and
is told if the payload is of the other.

An engine would pass on data of any type. The two kinds here are enough to tell a wrong kind
from a right one; where a result holds for data of any type it is stated over functions on
payloads (`TaskFunctions`), and depends on no more of a payload than that it is passed on.
-/

namespace Dataflow

/-- A datum: an unsigned number of 64 bits, or a text. -/
inductive Payload where
  | number (value : UInt64)
  | text (value : String)
  deriving DecidableEq, Repr, Inhabited

namespace Payload

/-- How the kinds of payload are called where an operator reports a wrong one. -/
def numberName : String := "u64"

def textName : String := "alloc::string::String"

def toNumber? : Payload → Option UInt64
  | number n => some n
  | text _ => none

def toText? : Payload → Option String
  | number _ => none
  | text s => some s

/-- A number in decimal digits, a text as it is. -/
def render : Payload → String
  | number n => toString n.toNat
  | text s => s

end Payload

end Dataflow
