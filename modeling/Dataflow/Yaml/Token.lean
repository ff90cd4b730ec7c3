import Dataflow.Yaml.Text

/-!
# YAML tokens

A YAML text is a sequence of scalars and structural marks. Some marks are written, such as
brackets and colons, others follow from the indentation: a collection in block style begins
where the text is indented further than before and ends where it no longer is.

Whether a scalar is a key is known only when a colon follows it on its line. The scanner
remembers for each open bracket where such a key may have begun and puts the marks of the key in
front of it later.

* `Token.ofText?`: the tokens of a text, none if the text is not well formed.

Anchors, aliases, tags, directives and block scalars are not supported; a text with one of them
counts as not well formed.
-/

namespace Dataflow.Yaml

/-- A scalar or a structural mark. -/
inductive Token where
  | documentStart
  | documentEnd
  | blockSequenceStart
  | blockMappingStart
  | blockEnd
  | flowSequenceStart
  | flowSequenceEnd
  | flowMappingStart
  | flowMappingEnd
  /-- A dash before an item. -/
  | blockEntry
  /-- A comma. -/
  | flowEntry
  | key
  | value
  /-- A scalar; a plain one is written without quotes. -/
  | scalar (plain : Bool) (text : String)
  deriving DecidableEq, Repr, Inhabited

/-- Where a key may have begun. -/
structure KeyStart where
  /-- How many tokens came before. -/
  position : Nat
  line : Nat
  column : Nat
  /-- How many bytes came before. -/
  offset : Nat
  /-- Nothing but a key can stand here. -/
  required : Bool
  deriving DecidableEq, Repr

/-- What a scanner knows. -/
structure Scan where
  /-- What is left of the text. -/
  rest : List Char
  line : Nat := 0
  column : Nat := 0
  /-- How many bytes of the text came before. -/
  offset : Nat := 0
  tokens : Array Token := #[]
  /-- The columns of the open block collections, innermost first. -/
  indents : List Nat := []
  /-- Whether a key may begin here. -/
  keyAllowed : Bool := true
  /-- Where a key may have begun outside of brackets. -/
  keyStart : Option KeyStart := none
  /-- For each open bracket, innermost first, where a key may have begun inside of it. -/
  brackets : List (Option KeyStart) := []
  deriving Inhabited

/-- A step of the scanner; none for a text that is not well formed. -/
abbrev ScanM := StateT Scan Option

namespace Scan

def inFlow (s : Scan) : Bool := !s.brackets.isEmpty

/-- Whether the innermost block collection begins left of a column. -/
def isIndentedBelow (s : Scan) (column : Nat) : Bool :=
  match s.indents with
  | [] => true
  | i :: _ => i < column

/-- The least column of a scalar that continues on another line. -/
def continuationColumn (s : Scan) : Nat :=
  match s.indents with
  | [] => 0
  | i :: _ => i + 1

/-- Where a key may have begun inside of the innermost bracket. -/
def currentKey (s : Scan) : Option KeyStart :=
  match s.brackets with
  | [] => s.keyStart
  | k :: _ => k

def setCurrentKey (s : Scan) (k : Option KeyStart) : Scan :=
  match s.brackets with
  | [] => { s with keyStart := k }
  | _ :: ks => { s with brackets := k :: ks }

/-- Go on by `n` characters of this line. -/
def advance (s : Scan) (n : Nat) : Scan :=
  { s with
    rest := s.rest.drop n
    column := s.column + n
    offset := s.offset + byteCount (s.rest.take n) }

/-- Go on by a line break. -/
def advanceBreak (s : Scan) : Scan :=
  { s.advance (lineBreak s.rest).2 with line := s.line + 1, column := 0 }

def push (s : Scan) (t : Token) : Scan := { s with tokens := s.tokens.push t }

/-- Put a token behind the first `position` tokens. -/
def insert (s : Scan) (position : Nat) (t : Token) : Scan :=
  { s with tokens := s.tokens.extract 0 position ++ #[t] ++ s.tokens.extract position }

/-- Whether the text goes on with three of these characters as a word of their own. -/
def startsDocumentMark (s : Scan) (c : Char) : Bool :=
  s.column == 0 && s.rest.take 3 == [c, c, c] && endsWord (s.rest.drop 3)

def atDocumentMark (s : Scan) : Bool := s.startsDocumentMark '-' || s.startsDocumentMark '.'

end Scan

namespace ScanM

/-! ## Indentation -/

/-- Begin a block collection at a column, if it is indented further than the others. Its mark
comes behind the first `position` tokens. -/
def openBlock (column position : Nat) (t : Token) : ScanM Unit :=
  modify fun s =>
    if !s.inFlow && s.isIndentedBelow column then
      { s.insert position t with indents := column :: s.indents }
    else s

/-- End the block collections of the given ones that `isOver`. -/
def closeBlocks (isOver : Nat → Bool) : List Nat → Scan → Scan
  | [], s => { s with indents := [] }
  | i :: is, s =>
    if isOver i then closeBlocks isOver is (s.push .blockEnd) else { s with indents := i :: is }

/-- End the block collections that are indented further than a column. -/
def closeBlocksBeyond (column : Nat) : ScanM Unit :=
  modify fun s => if s.inFlow then s else closeBlocks (column < ·) s.indents s

/-- End all block collections. -/
def closeAllBlocks : ScanM Unit :=
  modify fun s => if s.inFlow then s else closeBlocks (fun _ => true) s.indents s

/-! ## Keys -/

/-- A key that has begun on an earlier line, or more than 1024 bytes back, is none. -/
def expire (s : Scan) : Option KeyStart → Option (Option KeyStart)
  | none => some none
  | some k =>
    if k.line < s.line || s.offset > k.offset + 1024 then
      if k.required then none else some none
    else some (some k)

/-- Drop the keys that can no longer be any. -/
def expireKeys : ScanM Unit := do
  let s ← get
  let keyStart ← expire s s.keyStart
  let brackets ← (s.brackets.mapM (expire s) : Option (List (Option KeyStart)))
  set { s with keyStart, brackets }

/-- No colon will follow what began at the current key start. -/
def dropKey : ScanM Unit := do
  let s ← get
  match s.currentKey with
  | some k => if k.required then failure
  | none => pure ()
  set (s.setCurrentKey none)

/-- A key may begin here. -/
def startKey : ScanM Unit := do
  if (← get).keyAllowed then
    dropKey
    modify fun s => s.setCurrentKey (some
      { position := s.tokens.size
        line := s.line
        column := s.column
        offset := s.offset
        required := !s.inFlow && s.indents.head? == some s.column })

def allowKey (allowed : Bool) : ScanM Unit := modify fun s => { s with keyAllowed := allowed }

/-- Take `n` characters as a token. -/
def take (n : Nat) (t : Token) : ScanM Unit := modify fun s => (s.advance n).push t

/-! ## Structural marks -/

def documentMark (t : Token) : ScanM Unit := do
  closeAllBlocks
  dropKey
  allowKey false
  take 3 t

def openBracket (t : Token) : ScanM Unit := do
  startKey
  modify fun s => { s with brackets := none :: s.brackets }
  allowKey true
  take 1 t

def closeBracket (t : Token) : ScanM Unit := do
  dropKey
  modify fun s => { s with brackets := s.brackets.tail }
  allowKey false
  take 1 t

def comma : ScanM Unit := do
  dropKey
  allowKey true
  take 1 .flowEntry

/-- Begin a block collection here, where its first item is written with a mark. -/
def openBlockHere (t : Token) : ScanM Unit := do
  let s ← get
  if s.inFlow then pure ()
  else if s.keyAllowed then openBlock s.column s.tokens.size t
  else failure

def dash : ScanM Unit := do
  openBlockHere .blockSequenceStart
  dropKey
  allowKey true
  take 1 .blockEntry

def questionMark : ScanM Unit := do
  openBlockHere .blockMappingStart
  dropKey
  allowKey (!(← get).inFlow)
  take 1 .key

/-- A colon makes a key of what came before it on the line. -/
def colon : ScanM Unit := do
  let s ← get
  match s.currentKey with
  | some k =>
    modify fun s => (s.insert k.position .key).setCurrentKey none
    openBlock k.column k.position .blockMappingStart
    allowKey false
  | none =>
    openBlockHere .blockMappingStart
    allowKey (!s.inFlow)
  take 1 .value

/-! ## Quoted scalars -/

def hexValue? (c : Char) : Option Nat :=
  if '0' ≤ c ∧ c ≤ '9' then some (c.toNat - '0'.toNat)
  else if 'a' ≤ c ∧ c ≤ 'f' then some (c.toNat - 'a'.toNat + 10)
  else if 'A' ≤ c ∧ c ≤ 'F' then some (c.toNat - 'A'.toNat + 10)
  else none

/-- The number that `n` hexadecimal digits stand for. -/
def hexadecimal (n : Nat) : ScanM Nat := do
  let ds := (← get).rest.take n
  let values ← ds.mapM fun c => (hexValue? c : Option Nat)
  if ds.length < n then failure
  modify (·.advance n)
  pure (values.foldl (fun m d => m * 16 + d) 0)

/-- The character with a number of `n` hexadecimal digits. -/
def numberedChar (n : Nat) : ScanM Char := do
  let code ← hexadecimal n
  if code.isValidChar then pure (Char.ofNat code) else failure

/-- The number of the character that a letter behind a backslash stands for. -/
def escapeCode? (c : Char) : Option Nat :=
  [('0', 0), ('a', 7), ('b', 8), ('t', 9), ('\t', 9), ('n', 10), ('v', 11), ('f', 12), ('r', 13),
    ('e', 27), (' ', 32), ('"', 34), ('/', 47), ('\\', 92), ('N', 0x85), ('_', 0xa0),
    ('L', 0x2028), ('P', 0x2029)].lookup c

/-- The character that stands behind a backslash. -/
def escape : ScanM Char := do
  match (← get).rest with
  | [] => failure
  | c :: _ =>
    modify (·.advance 1)
    match escapeCode? c with
    | some code => pure (Char.ofNat code)
    | none =>
      if c = 'x' then numberedChar 2
      else if c = 'u' then numberedChar 4
      else if c = 'U' then numberedChar 8
      else failure

/-- Blanks and line breaks, at most `fuel` characters. A plain scalar may not be indented by
tabs; `column` is the least column of its next line. -/
def gap (column : Nat) : Nat → Gap → ScanM Gap
  | 0, _ => failure
  | fuel + 1, g => do
    let s ← get
    match s.rest with
    | [] => pure g
    | c :: _ =>
      if isBreak c then
        set s.advanceBreak
        gap column fuel (g.addBreak (lineBreak s.rest).1)
      else if isBlank c then
        if g.spansLines && s.column < column && c = '\t' then failure
        set (s.advance 1)
        gap column fuel (g.addBlank c)
      else pure g

/-- The characters of a quoted scalar up to its closing quote, at most `fuel` of them. -/
def quotedChars (quote : Char) : Nat → ScanM (List Char)
  | 0 => failure
  | fuel + 1 => do
    let s ← get
    match s.rest with
    | [] => failure
    | c :: cs =>
      if s.atDocumentMark then failure
      else if c = quote && c = '\'' && cs.head? == some '\'' then
        set (s.advance 2)
        pure (c :: (← quotedChars quote fuel))
      else if c = quote then
        set (s.advance 1)
        pure []
      else if c = '\\' && quote = '"' then
        set (s.advance 1)
        if cs.head?.any isBreak then
          modify Scan.advanceBreak
          let g ← gap 0 fuel (.breaks none [])
          pure (g.fold ++ (← quotedChars quote fuel))
        else
          let c ← escape
          pure (c :: (← quotedChars quote fuel))
      else if isBlank c || isBreak c then
        let g ← gap 0 fuel (.blanks [])
        pure (g.fold ++ (← quotedChars quote fuel))
      else
        set (s.advance 1)
        pure (c :: (← quotedChars quote fuel))

def quotedScalar (quote : Char) : ScanM Unit := do
  startKey
  allowKey false
  modify (·.advance 1)
  let text ← quotedChars quote ((← get).rest.length + 1)
  modify (·.push (.scalar false (String.ofList text)))

/-! ## Plain scalars -/

/-- The marks of flow collections. -/
def isFlowMark (c : Char) : Bool := c = ',' || c = '[' || c = ']' || c = '{' || c = '}'

/-- Whether a plain scalar can begin in front of a text. -/
def startsPlain (flow : Bool) : List Char → Bool
  | [] => false
  | c :: cs =>
    if c = '-' then !(cs.head?.any isBlank)
    else if c = '?' || c = ':' then !flow && !endsWord cs
    else !(isBlank c || isBreak c || isFlowMark c ||
      ['#', '&', '*', '!', '|', '>', '\'', '"', '%', '@', '\x60'].contains c)

/-- Whether a plain scalar ends in front of a text. -/
def endsPlain (flow : Bool) : List Char → Bool
  | [] => true
  | c :: cs => isBlank c || isBreak c || (c = ':' && endsWord cs) || (flow && isFlowMark c)

/-- Whether a colon stands where it belongs to no scalar and to no key. -/
def isStrayColon (flow : Bool) : List Char → Bool
  | ':' :: c :: _ => flow && (isFlowMark c || c = '?')
  | _ => false

/-- The characters of one word of a plain scalar, at most `fuel` of them. -/
def plainWord : Nat → ScanM (List Char)
  | 0 => failure
  | fuel + 1 => do
    let s ← get
    match s.rest with
    | [] => pure []
    | c :: _ =>
      if isStrayColon s.inFlow s.rest then failure
      else if endsPlain s.inFlow s.rest then pure []
      else
        set (s.advance 1)
        pure (c :: (← plainWord fuel))

/-- The words of a plain scalar with what is between them, at most `fuel` words. `before` is
what stands in front of the first one. A scalar that is followed by a line break may be followed
by a key. -/
def plainWords : Nat → Gap → ScanM (List Char)
  | 0, _ => failure
  | fuel + 1, before => do
    let s ← get
    if s.atDocumentMark || s.rest.head? == some '#' then
      if before.spansLines then allowKey true
      pure []
    else
      let word ← plainWord (s.rest.length + 1)
      let s ← get
      if word.isEmpty || !endsWord s.rest || s.rest.isEmpty then
        if word.isEmpty && before.spansLines then allowKey true
        pure (if word.isEmpty then [] else before.fold ++ word)
      else
        let g ← gap s.continuationColumn (s.rest.length + 1) (.blanks [])
        let t ← get
        if !t.inFlow && t.column < t.continuationColumn then
          if g.spansLines then allowKey true
          pure (before.fold ++ word)
        else
          pure (before.fold ++ word ++ (← plainWords fuel g))

def plainScalar : ScanM Unit := do
  startKey
  allowKey false
  let text ← plainWords ((← get).rest.length + 1) (.blanks [])
  modify (·.push (.scalar true (String.ofList text)))

/-! ## Whole texts -/

/-- Go past blanks, comments and line breaks, at most `fuel` of them. Tabs do not indent: where a
key may begin outside of brackets, a tab is not a blank. At the front of a line a byte order mark
counts as a blank. -/
def toNextToken : Nat → ScanM Unit
  | 0 => failure
  | fuel + 1 => do
    let s ← get
    match s.rest with
    | [] => pure ()
    | c :: cs =>
      if c = ' ' || (c = '\t' && (s.inFlow || !s.keyAllowed)) ||
          (c = byteOrderMark && s.column == 0) then
        set (s.advance 1)
        toNextToken fuel
      else if c = '#' then
        set (s.advance (1 + (cs.takeWhile fun c => !isBreak c).length))
        toNextToken fuel
      else if isBreak c then
        set s.advanceBreak
        if !s.inFlow then allowKey true
        toNextToken fuel
      else pure ()

/-- The token that begins with a character, of which more is known by what follows it. -/
def token (c : Char) : ScanM Unit := do
  let s ← get
  if s.column = 0 && c = '%' then failure
  else if s.startsDocumentMark '-' then documentMark .documentStart
  else if s.startsDocumentMark '.' then documentMark .documentEnd
  else if c = '[' then openBracket .flowSequenceStart
  else if c = '{' then openBracket .flowMappingStart
  else if c = ']' then closeBracket .flowSequenceEnd
  else if c = '}' then closeBracket .flowMappingEnd
  else if c = ',' then comma
  else if c = '-' && endsWord (s.rest.drop 1) then dash
  else if c = '?' && (s.inFlow || endsWord (s.rest.drop 1)) then questionMark
  else if c = ':' && (s.inFlow || endsWord (s.rest.drop 1)) then colon
  else if c = '\'' || c = '"' then quotedScalar c
  else if startsPlain s.inFlow s.rest then plainScalar
  else failure

/-- The tokens up to the end of the text, at most `fuel` of them. -/
def tokens : Nat → ScanM Unit
  | 0 => failure
  | fuel + 1 => do
    toNextToken ((← get).rest.length + 1)
    expireKeys
    match (← get).rest with
    | [] =>
      closeAllBlocks
      dropKey
    | c :: _ =>
      closeBlocksBeyond (← get).column
      token c
      tokens fuel

end ScanM

/-- The tokens of a text. -/
def Token.ofText? (s : String) : Option (List Token) := do
  let cs ← characters? s
  let (_, scan) ← ScanM.tokens (cs.length + 1) { rest := cs }
  some scan.tokens.toList

end Dataflow.Yaml
