/-!
# JSON values and their written forms

A JSON value is written in two ways: compact, without any blanks, and spread over lines, with
two blanks for each level of nesting. Objects keep the order of their fields.

All numbers that are written are identifiers, counts and limits, so they are natural; there are no
fractions and no signs to write. Texts may hold any character. Those that cannot stand between
quotes are escaped, by a letter where there is one and by four hexadecimal digits in lower case
otherwise; everything else is written as it is, also beyond ASCII.

A list of characters is what the writers produce, since the reading of a value is an induction
along the characters that were written (`Dataflow.Proofs.Json.Written`). The compact form is the
one that is read back; the spread one is for summaries of plans. An empty array or object has no
line break in either.
-/

namespace Dataflow

/-- A JSON value whose numbers are natural. -/
inductive Json where
  | null
  | bool (value : Bool)
  | number (value : Nat)
  | text (value : String)
  | array (items : List Json)
  | object (fields : List (String × Json))
  deriving Repr, Inhabited

namespace Json

/-! ## Texts -/

/-- A hexadecimal digit in lower case. -/
def hexDigit (n : Nat) : Char := Nat.digitChar n

/-- Quotes, backslashes and control characters are escaped, all else stands for itself. -/
def escapeChar (c : Char) : List Char :=
  if c = '"' then ['\\', '"']
  else if c = '\\' then ['\\', '\\']
  else if c = '\n' then ['\\', 'n']
  else if c = '\r' then ['\\', 'r']
  else if c = '\t' then ['\\', 't']
  else if c = Char.ofNat 8 then ['\\', 'b']
  else if c = Char.ofNat 12 then ['\\', 'f']
  else if c.toNat < 32 then
    ['\\', 'u', '0', '0', hexDigit (c.toNat / 16), hexDigit (c.toNat % 16)]
  else [c]

/-- The characters of a text between quotes. -/
def quote (cs : List Char) : List Char := '"' :: (cs.flatMap escapeChar ++ ['"'])

def quoteText (s : String) : List Char := quote s.toList

/-! ## Compact form -/

def digits (n : Nat) : List Char := Nat.toDigits 10 n

mutual

/-- A value without any blanks. -/
def write : Json → List Char
  | null => ['n', 'u', 'l', 'l']
  | bool true => ['t', 'r', 'u', 'e']
  | bool false => ['f', 'a', 'l', 's', 'e']
  | number n => digits n
  | text s => quoteText s
  | array [] => ['[', ']']
  | array (x :: xs) => '[' :: (write x ++ writeItems xs)
  | object [] => ['{', '}']
  | object ((k, x) :: fields) => '{' :: (quoteText k ++ ':' :: (write x ++ writeFields fields))

/-- The items behind the first, and the end of the array. -/
def writeItems : List Json → List Char
  | [] => [']']
  | x :: xs => ',' :: (write x ++ writeItems xs)

/-- The fields behind the first, and the end of the object. -/
def writeFields : List (String × Json) → List Char
  | [] => ['}']
  | (k, x) :: fields => ',' :: (quoteText k ++ ':' :: (write x ++ writeFields fields))

end

/-- The compact form as a string. -/
def compact (x : Json) : String := String.ofList x.write

/-! ## Form with line breaks -/

/-- A line break and the blanks of a nesting level. -/
def newline (level : Nat) : List Char := '\n' :: List.replicate (2 * level) ' '

mutual

/-- A value at a nesting level, one item or field to a line. -/
def spread (level : Nat) : Json → List Char
  | null => ['n', 'u', 'l', 'l']
  | bool true => ['t', 'r', 'u', 'e']
  | bool false => ['f', 'a', 'l', 's', 'e']
  | number n => digits n
  | text s => quoteText s
  | array [] => ['[', ']']
  | array (x :: xs) => '[' :: (newline (level + 1) ++ spread (level + 1) x ++ spreadItems level xs)
  | object [] => ['{', '}']
  | object ((k, x) :: fields) =>
    '{' :: (newline (level + 1) ++ quoteText k ++ ':' :: ' ' :: spread (level + 1) x ++
      spreadFields level fields)

/-- The items behind the first, and the end of the array. -/
def spreadItems (level : Nat) : List Json → List Char
  | [] => newline level ++ [']']
  | x :: xs => ',' :: (newline (level + 1) ++ spread (level + 1) x ++ spreadItems level xs)

/-- The fields behind the first, and the end of the object. -/
def spreadFields (level : Nat) : List (String × Json) → List Char
  | [] => newline level ++ ['}']
  | (k, x) :: fields =>
    ',' :: (newline (level + 1) ++ quoteText k ++ ':' :: ' ' :: spread (level + 1) x ++
      spreadFields level fields)

end

/-- The form with line breaks as a string. -/
def pretty (x : Json) : String := String.ofList (x.spread 0)

end Json

end Dataflow
