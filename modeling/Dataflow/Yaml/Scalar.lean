import Dataflow.Yaml.Node

/-!
# What YAML nodes stand for

A scalar in quotes is a text and nothing else. A plain scalar is also a truth value or a number
if it is written like one. The fields of a record are the entries of a mapping whose keys are
scalars; where a mapping could stand and nothing does, there are no fields.

* Truth values are the words true and false in three spellings; other words for them are texts.
* Numbers are natural and have 64 bits. Decimal ones have no leading zeros and may have a plus sign;
  there are three other number systems, with their prefixes.
* The empty document and an empty value count as a record without fields, an explicit null does not.

An entry that no field has the name of is ignored, whatever it holds.
-/

namespace Dataflow.Yaml.Node

/-- The text of any scalar. -/
def text? : Node → Option String
  | scalar _ s => some s
  | _ => none

/-- The text of a plain scalar. -/
def plainText? : Node → Option String
  | scalar true s => some s
  | _ => none

/-- A truth value is written in lower case, in upper case, or capitalized. -/
def bool? (x : Node) : Option Bool := do
  let s ← x.plainText?
  if ["true", "True", "TRUE"].contains s then some true
  else if ["false", "False", "FALSE"].contains s then some false
  else none

/-! ## Numbers -/

/-- The value of a digit in a number system with `radix` digits. -/
def digitValue? (radix : Nat) (c : Char) : Option Nat := do
  let v ←
    if '0' ≤ c ∧ c ≤ '9' then some (c.toNat - '0'.toNat)
    else if 'a' ≤ c ∧ c ≤ 'z' then some (c.toNat - 'a'.toNat + 10)
    else if 'A' ≤ c ∧ c ≤ 'Z' then some (c.toNat - 'A'.toNat + 10)
    else none
  if v < radix then some v else none

/-- The number that one or more digits stand for. -/
def ofDigits? (radix : Nat) : List Char → Option Nat
  | [] => none
  | ds => (ds.mapM (digitValue? radix)).map (List.foldl (fun n d => n * radix + d) 0)

/-- A natural number: decimal without leading zeros, or behind `0x`, `0o` or `0b` in another
number system; a plus sign may come first. -/
def natural? (s : String) : Option Nat :=
  let cs := match s.toList with
    | '+' :: cs => cs
    | cs => cs
  match cs with
  | '0' :: 'x' :: ds => ofDigits? 16 ds
  | '0' :: 'o' :: ds => ofDigits? 8 ds
  | '0' :: 'b' :: ds => ofDigits? 2 ds
  | '0' :: _ :: _ => none
  | ds => ofDigits? 10 ds

/-- A natural number of 64 bits. -/
def word64? (x : Node) : Option UInt64 := do
  let n ← natural? (← x.plainText?)
  if n < UInt64.size then some (UInt64.ofNat n) else none

/-! ## Records -/

/-- The fields of a record. -/
def fields? : Node → Option (List (String × Node))
  | mapping entries => entries.mapM fun kv => kv.1.text?.map fun key => (key, kv.2)
  | scalar true "" => some []
  | _ => none

/-- The field of a name, or the default if it is missing. A field may come once. -/
def field? {α : Type} (fields : List (String × Node)) (name : String) (read : Node → Option α)
    (default : α) : Option α :=
  match fields.filter (·.1 == name) with
  | [] => some default
  | [kv] => read kv.2
  | _ => none

end Dataflow.Yaml.Node
