import Dataflow.Json.Numeral
import Dataflow.Json.Value

/-!
# Reading JSON

A reader takes a value of a known kind from the front of a text and leaves the rest. A text can
fail to be read in three ways: it ends early, it is not well formed, or it is well formed as far
as it was read but of another kind than was asked for.

* `Reader.text`, `Reader.word64`, `Reader.bool`, `Reader.null`: values of one kind.
* `Reader.skip`: a value of any kind, which is dropped.
* `Reader.parse`: a reader on a whole text.

A text is read once from the front to the back, and the first flaw is the failure. So a value of the
wrong kind hides everything behind it, and a text that ends early is malformed if it was before.
A value of the wrong kind is not always read to its end: what is known from its first character
is refused there, a number or a text is read first and can be malformed itself.

Skipping is coarser than reading. It checks that a value is well formed, but looks at escapes in
texts without decoding them. The brackets that are open while a value is skipped stand in a list, so
it may be nested as deep as its text is long; all recursion is bounded by the length of the text.

What is written by `Json.compact` is read back to the value it was written for, with any text behind
it that does not go on with a number (`Dataflow.Proofs.Json.Written`).
-/

namespace Dataflow.Json

/-- Why a text cannot be read. -/
inductive Failure where
  /-- The text ends in the middle of a value. -/
  | truncated
  | malformed
  /-- A value of another kind was asked for. -/
  | mismatch
  deriving DecidableEq, Repr

/-- Takes a value from the front of a text. -/
abbrev Reader (α : Type) := StateT (List Char) (Except Failure) α

namespace Reader

/-! ## Characters -/

def isBlank (c : Char) : Bool := c = ' ' || c = '\n' || c = '\r' || c = '\t'

def isDigit (c : Char) : Bool := '0' ≤ c && c ≤ '9'

/-- The next character. -/
def next : Reader Char
  | [] => .error .truncated
  | c :: cs => .ok (c, cs)

/-- The next character behind blanks, which is not taken; the blanks are. -/
def peek : Reader Char := fun cs =>
  match cs.dropWhile isBlank with
  | [] => .error .truncated
  | c :: cs => .ok (c, c :: cs)

/-- Take the next character if it satisfies a condition. -/
def takeIf (condition : Char → Bool) : Reader (Option Char)
  | [] => .ok (none, [])
  | c :: cs => if condition c then .ok (some c, cs) else .ok (none, c :: cs)

/-- The next characters, as long as they satisfy a condition. -/
def takeWhile (condition : Char → Bool) : Reader (List Char) := fun cs =>
  .ok (cs.takeWhile condition, cs.dropWhile condition)

/-- Take exactly these characters. -/
def exactly : List Char → Reader Unit
  | [] => pure ()
  | c :: cs => do
    if (← next) = c then exactly cs else throw .malformed

/-- Take a character behind blanks. -/
def punctuation (c : Char) : Reader Unit := do
  if (← peek) = c then discard next else throw .malformed

/-- How many characters are left. -/
def remaining : Reader Nat := fun cs => .ok (cs.length, cs)

/-! ## Texts -/

def hexValue? (c : Char) : Option Nat :=
  if '0' ≤ c ∧ c ≤ '9' then some (c.toNat - '0'.toNat)
  else if 'a' ≤ c ∧ c ≤ 'f' then some (c.toNat - 'a'.toNat + 10)
  else if 'A' ≤ c ∧ c ≤ 'F' then some (c.toNat - 'A'.toNat + 10)
  else none

/-- Four hexadecimal digits. A text that ends before its next four bytes is truncated, whatever
those are. -/
def hexadecimal : Reader Nat
  | a :: b :: c :: d :: cs =>
    match hexValue? a, hexValue? b, hexValue? c, hexValue? d with
    | some a, some b, some c, some d => .ok (((a * 16 + b) * 16 + c) * 16 + d, cs)
    | _, _, _, _ => .error .malformed
  | cs => .error (if (String.ofList cs).utf8ByteSize < 4 then .truncated else .malformed)

def isLeadingSurrogate (n : Nat) : Bool := 0xd800 ≤ n && n ≤ 0xdbff

def isTrailingSurrogate (n : Nat) : Bool := 0xdc00 ≤ n && n ≤ 0xdfff

/-- A character by its number; one beyond 16 bits takes two numbers, a leading and a trailing
surrogate. -/
def numberedChar : Reader Char := do
  let n ← hexadecimal
  if isTrailingSurrogate n then throw .malformed
  else if isLeadingSurrogate n then
    exactly ['\\', 'u']
    let m ← hexadecimal
    if isTrailingSurrogate m then
      pure (Char.ofNat ((n - 0xd800) * 0x400 + (m - 0xdc00) + 0x10000))
    else throw .malformed
  else pure (Char.ofNat n)

/-- The character that the letter behind a backslash stands for. -/
def escape : Reader Char := do
  match ← next with
  | '"' => pure '"'
  | '\\' => pure '\\'
  | '/' => pure '/'
  | 'b' => pure (Char.ofNat 8)
  | 'f' => pure (Char.ofNat 12)
  | 'n' => pure '\n'
  | 'r' => pure '\r'
  | 't' => pure '\t'
  | 'u' => numberedChar
  | _ => throw .malformed

/-- The characters up to the closing quote, at most `fuel` of them. -/
def quotedChars : Nat → Reader (List Char)
  | 0 => throw .malformed
  | fuel + 1 => do
    let c ← next
    if c = '"' then pure []
    else if c = '\\' then do
      let c ← escape
      pure (c :: (← quotedChars fuel))
    else if c.toNat < 32 then throw .malformed
    else do pure (c :: (← quotedChars fuel))

/-- A text from its opening quote on. -/
def quotedText : Reader String := do
  exactly ['"']
  let fuel ← remaining
  pure (String.ofList (← quotedChars (fuel + 1)))

/-- Go past an escape without asking what it stands for. -/
def skipEscape : Reader Unit := do
  let c ← next
  if c = 'u' then discard hexadecimal
  else if ['"', '\\', '/', 'b', 'f', 'n', 'r', 't'].contains c then pure ()
  else throw .malformed

/-- Go past the closing quote, at most `fuel` characters. -/
def skipQuotedChars : Nat → Reader Unit
  | 0 => throw .malformed
  | fuel + 1 => do
    let c ← next
    if c = '"' then pure ()
    else if c = '\\' then do
      skipEscape
      skipQuotedChars fuel
    else if c.toNat < 32 then throw .malformed
    else skipQuotedChars fuel

/-- Go past a text from its opening quote on. -/
def skipQuotedText : Reader Unit := do
  exactly ['"']
  let fuel ← remaining
  skipQuotedChars (fuel + 1)

/-! ## Numbers -/

/-- At least one digit. `early` is what a text suffers that ends here. -/
def digits (early : Failure) : Reader (List Char) := do
  match ← takeWhile isDigit with
  | [] => if (← remaining) = 0 then throw early else throw .malformed
  | ds => pure ds

/-- The digits before the point: a zero that stands alone, or several that begin with none. -/
def wholeDigits (early : Failure) : Reader (List Char) := do
  match ← digits early with
  | '0' :: _ :: _ => throw .malformed
  | ds => pure ds

/-- A number from its sign or first digit on. -/
def numeral (early : Failure) : Reader Numeral := do
  let sign ← takeIf (· = '-')
  let whole ← wholeDigits early
  let point ← takeIf (· = '.')
  let fraction ← if point.isSome then some <$> digits early else pure none
  let mark ← takeIf fun c => c = 'e' || c = 'E'
  let power ← if mark.isSome then do
      let sign ← takeIf fun c => c = '+' || c = '-'
      let ds ← digits early
      pure (some (sign == some '-', ds))
    else pure none
  pure { negative := sign.isSome, whole, fraction, power }

/-! ## Values of one kind -/

/-- Turn down the value that begins here because it is of another kind. As much of it is read
as is needed to tell its kind, and a flaw in that part counts first. -/
def refuse {α : Type} : Reader α := do
  let c ← peek
  if c = 'n' then exactly ['n', 'u', 'l', 'l']
  else if c = 't' then exactly ['t', 'r', 'u', 'e']
  else if c = 'f' then exactly ['f', 'a', 'l', 's', 'e']
  else if c = '-' || isDigit c then
    if (← numeral .truncated).isHuge then throw .malformed
  else if c = '"' then discard quotedText
  else if c = '[' || c = '{' then pure ()
  else throw .malformed
  throw .mismatch

/-- A text. -/
def text : Reader String := do
  if (← peek) = '"' then quotedText else refuse

/-- A natural number of 64 bits. -/
def word64 : Reader UInt64 := do
  let c ← peek
  if c = '-' || isDigit c then do
    let n ← numeral .truncated
    if n.isHuge then throw .malformed
    match n.toNat? with
    | some v => if v < UInt64.size then pure (UInt64.ofNat v) else throw .mismatch
    | none => throw .mismatch
  else refuse

/-- A truth value. -/
def bool : Reader Bool := do
  let c ← peek
  if c = 't' then do
    exactly ['t', 'r', 'u', 'e']
    pure true
  else if c = 'f' then do
    exactly ['f', 'a', 'l', 's', 'e']
    pure false
  else refuse

/-- The value `null`. -/
def null : Reader Unit := do
  if (← peek) = 'n' then exactly ['n', 'u', 'l', 'l'] else refuse

/-! ## Values of any kind -/

/-- What a value can be inside of. -/
inductive Bracket where
  | array
  | object
  deriving DecidableEq, Repr

/-- Go past the key of a field and its colon. -/
def skipKey : Reader Unit := do
  if (← peek) = '"' then do
    skipQuotedText
    punctuation ':'
  else throw .malformed

mutual

/-- Go past a value inside of `enclosing`, innermost bracket first, and past all of those
brackets. -/
def skipValue : Nat → List Bracket → Reader Unit
  | 0, _ => throw .malformed
  | fuel + 1, enclosing => do
    let c ← peek
    if c = '[' then do
      discard next
      if (← peek) = ']' then do
        discard next
        skipRest fuel enclosing
      else skipValue fuel (.array :: enclosing)
    else if c = '{' then do
      discard next
      if (← peek) = '}' then do
        discard next
        skipRest fuel enclosing
      else do
        skipKey
        skipValue fuel (.object :: enclosing)
    else do
      if c = 'n' then exactly ['n', 'u', 'l', 'l']
      else if c = 't' then exactly ['t', 'r', 'u', 'e']
      else if c = 'f' then exactly ['f', 'a', 'l', 's', 'e']
      else if c = '-' || isDigit c then discard (numeral .malformed)
      else if c = '"' then skipQuotedText
      else throw .malformed
      skipRest fuel enclosing

/-- Go past what follows a value inside of `enclosing`. -/
def skipRest : Nat → List Bracket → Reader Unit
  | 0, _ => throw .malformed
  | _ + 1, [] => pure ()
  | fuel + 1, bracket :: enclosing => do
    let c ← peek
    discard next
    match bracket with
    | .array =>
      if c = ',' then skipValue fuel (bracket :: enclosing)
      else if c = ']' then skipRest fuel enclosing
      else throw .malformed
    | .object =>
      if c = ',' then do
        skipKey
        skipValue fuel (bracket :: enclosing)
      else if c = '}' then skipRest fuel enclosing
      else throw .malformed

end

/-- Go past a value of any kind. -/
def skip : Reader Unit := do
  let fuel ← remaining
  skipValue (fuel + 2) []

/-! ## Whole texts -/

/-- Read a whole text; only blanks may follow the value. -/
def parse {α : Type} (r : Reader α) (s : String) : Except Failure α :=
  match r s.toList with
  | .error e => .error e
  | .ok (x, rest) => if (rest.dropWhile isBlank).isEmpty then .ok x else .error .malformed

end Reader

end Dataflow.Json
