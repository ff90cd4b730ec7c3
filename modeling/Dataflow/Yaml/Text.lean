/-!
# YAML texts

The characters of a YAML text, the line breaks among them, and how the lines of a scalar that
spans several of them are folded into one.

Five characters and one pair break a line, and not all of them count the same when they are kept: the
separators of lines and paragraphs stay what they are, all others become the common line break.
Tabs and blanks are blanks inside of a line, but only blanks indent one (`Dataflow.Yaml.Token`).

Folding is the same for plain and quoted scalars: a single break counts as a blank, and of several
the first one is dropped. A `Gap` collects what stands between two words until it is known whether
another word follows, since blanks at the end of a line do not count.
-/

namespace Dataflow.Yaml

/-- Whether a character may stand in a text at all. -/
def isAllowed (c : Char) : Bool :=
  let n := c.toNat
  n == 0x09 || n == 0x0a || n == 0x0d || (0x20 ≤ n && n ≤ 0x7e) || n == 0x85 ||
    (0xa0 ≤ n && n ≤ 0xfffd) || 0x10000 ≤ n

/-- The characters of a text, if all of them are allowed. -/
def characters? (s : String) : Option (List Char) :=
  let cs := s.toList
  if cs.all isAllowed then some cs else none

/-- The mark that may open a line and means nothing there. -/
def byteOrderMark : Char := Char.ofNat 0xfeff

def isBreak (c : Char) : Bool :=
  c = '\n' || c = '\r' || c.toNat == 0x85 || c.toNat == 0x2028 || c.toNat == 0x2029

def isBlank (c : Char) : Bool := c = ' ' || c = '\t'

/-- Whether a word ends in front of the rest of a text. -/
def endsWord : List Char → Bool
  | [] => true
  | c :: _ => isBlank c || isBreak c

/-- The line break at the front of a text, in the form in which it counts, and how many characters
it takes. -/
def lineBreak : List Char → Char × Nat
  | '\r' :: '\n' :: _ => ('\n', 2)
  | c :: _ => (if c.toNat == 0x2028 || c.toNat == 0x2029 then c else '\n', 1)
  | [] => ('\n', 0)

/-- How many bytes the characters take. -/
def byteCount (cs : List Char) : Nat := (String.ofList cs).utf8ByteSize

/-- What stands between two words of a scalar. -/
inductive Gap where
  /-- Blanks on one line. -/
  | blanks (cs : List Char)
  /-- A line break, none if it was escaped, and the breaks of the empty lines that follow. -/
  | breaks (first : Option Char) (more : List Char)
  deriving DecidableEq, Repr

namespace Gap

/-- A gap is kept if it is on one line. A single line break counts as a blank, and of several
the first one does not count. -/
def fold : Gap → List Char
  | blanks cs => cs
  | breaks (some '\n') [] => [' ']
  | breaks (some '\n') more => more
  | breaks first more => first.toList ++ more

def spansLines : Gap → Bool
  | blanks _ => false
  | breaks .. => true

/-- Go on by a blank. Blanks next to a line break do not count. -/
def addBlank (c : Char) : Gap → Gap
  | blanks cs => blanks (cs ++ [c])
  | breaks first more => breaks first more

/-- Go on by a line break. -/
def addBreak (c : Char) : Gap → Gap
  | blanks _ => breaks (some c) []
  | breaks first more => breaks first (more ++ [c])

end Gap

end Dataflow.Yaml
