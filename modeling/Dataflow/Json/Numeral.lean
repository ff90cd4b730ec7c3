/-!
# JSON numbers

A number is kept as it is written. The values of the library's types are natural numbers, but a
number that is too large for a floating-point number of 64 bits is a flaw of the text that holds
it, so its size counts even where a number is not asked for.

* `Numeral.toNat?`: the value of a number that is written with digits only.
* `Numeral.nearestBinary64`: a natural number, rounded to 53 significant bits.
* `Numeral.isHuge`: whether a number is too large.

Size is decided as a reader with 64-bit arithmetic decides it. The leading digits go into a whole
number while they fit, the others only count for the power of ten, or for nothing behind the point.
Number and power are rounded, each by itself, and then multiplied, so a number that is close to the
bound can be too large for the reader and not by its value. Powers above 308 are too large whatever
they are multiplied with, except zero; negative powers never are.

No value of a library type depends on this rounding. It decides between two ways to refuse a text
(`Json.Failure`), and it is natural arithmetic throughout: there are no floating-point numbers here.
-/

namespace Dataflow.Json

/-- A number as it is written. -/
structure Numeral where
  negative : Bool
  /-- The digits before the point. -/
  whole : List Char
  /-- The digits behind the point, if there is one. -/
  fraction : Option (List Char) := none
  /-- Whether the power of ten is negative, and its digits, if there is one. -/
  power : Option (Bool × List Char) := none
  deriving DecidableEq, Repr

namespace Numeral

/-- The value of a number that is written with digits only. -/
def toNat? (n : Numeral) : Option Nat :=
  if n.negative || n.fraction.isSome || n.power.isSome then none
  else some (Nat.ofDigitChars 10 n.whole 0)

/-- Append digits to a number as long as it fits in 64 bits; the digits that are left over come
with it. -/
def appendDigits (n : Nat) : List Char → Nat × List Char
  | [] => (n, [])
  | d :: ds =>
    let m := Nat.ofDigitChars 10 [d] n
    if m < UInt64.size then appendDigits m ds else (n, d :: ds)

/-- The leading digits of a number, as a whole number of 64 bits, and the power of ten that it is
multiplied with. A digit that does not fit counts for the power if it stands before the point, and
for nothing behind it. -/
def scaled (n : Numeral) : Nat × Int :=
  let fraction := n.fraction.getD []
  let (m, raised) := appendDigits 0 n.whole
  let (m, dropped) := appendDigits m fraction
  let lowered := fraction.length - dropped.length
  let written : Int := match n.power with
    | none => 0
    | some (negative, ds) =>
      let power : Int := Nat.ofDigitChars 10 ds 0
      if negative then -power else power
  (m, raised.length - lowered + written)

/-- The nearest number of 53 significant bits; of two that are equally near, the even one. -/
def nearestBinary64 (n : Nat) : Nat :=
  let unit := Nat.pow 2 (n.log2 - 52)
  let below := n / unit
  let twice := 2 * (n % unit)
  if twice > unit ∨ (twice = unit ∧ below % 2 = 1) then (below + 1) * unit else below * unit

/-- A number of up to 53 bits is its own nearest one. -/
theorem nearestBinary64_of_log2_le {n : Nat} (h : n.log2 ≤ 52) : nearestBinary64 n = n := by
  simp [nearestBinary64, Nat.sub_eq_zero_of_le h, Nat.mod_one]

example : nearestBinary64 9007199254740993 = 9007199254740992 := by decide +kernel

example : nearestBinary64 9007199254740995 = 9007199254740996 := by decide +kernel

/-- Numbers from here on are nearer to 2^1024 than to any number that a floating-point number of 64
bits can hold. -/
def hugeBound : Nat := Nat.pow 2 1024 - Nat.pow 2 970

/-- Whether the number is too large for a floating-point number of 64 bits. It is the product of
its leading digits and a power of ten, and both are rounded before they are multiplied. -/
def isHuge (n : Numeral) : Bool :=
  match n.scaled with
  | (_, .negSucc _) => false
  | (m, .ofNat power) =>
    if power > 308 then m ≠ 0
    else nearestBinary64 m * nearestBinary64 (Nat.pow 10 power) ≥ hugeBound

end Numeral

end Dataflow.Json
