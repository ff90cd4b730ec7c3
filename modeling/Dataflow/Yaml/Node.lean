import Dataflow.Yaml.Token

/-!
# YAML nodes

The value that the tokens of a text spell. A text holds one document; a document without content
holds an empty plain scalar, and so does a place in a collection where a node could stand.

* `Document.ofText?`: the document of a text.

Nodes are not interpreted here: whether a plain scalar is a number or a truth value depends on what
is asked for (`Dataflow.Yaml.Scalar`). Only whether a scalar was written in quotes is kept, because
a quoted one never is anything but a text. Keys are nodes as well, and a mapping keeps its entries in
order with repetitions; that a key comes twice is a flaw for a record that has a field of this name
and for nothing else.

A place for a node and the node itself are two levels of the reader, and one token at least is taken
between one node and the next inside of it, so twice the number of tokens is enough fuel. A second
document in a text is refused.
-/

namespace Dataflow.Yaml

/-- A scalar, a sequence or a mapping. -/
inductive Node where
  /-- A plain scalar is written without quotes. -/
  | scalar (plain : Bool) (text : String)
  | sequence (items : List Node)
  | mapping (entries : List (Node × Node))
  deriving Repr, Inhabited

/-- What stands where no node is written. -/
def Node.missing : Node := .scalar true ""

/-- Takes nodes from the front of a list of tokens; none if the tokens spell no node. -/
abbrev NodeReader := StateT (List Token) Option

namespace NodeReader

/-- The next token, which is not taken. -/
def peek : NodeReader (Option Token) := do pure (← get).head?

/-- Drop the next token. -/
def drop : NodeReader Unit := modify List.tail

/-- Drop the marks of the end of a document. -/
def dropDocumentEnds : NodeReader Unit := modify (List.dropWhile (· == .documentEnd))

/-- Whether the next token is the given one; if it is, it is taken. -/
def accept (t : Token) : NodeReader Bool := do
  if (← peek) == some t then
    drop
    pure true
  else pure false

/-- Whether the next token is one of the given ones. -/
def isAt (ts : List Token) : NodeReader Bool := do pure ((← peek).any ts.contains)

mutual

/-- A node. Block collections are allowed where `block` holds; a sequence without indentation
of its own is allowed where `flat` holds. -/
def node (block flat : Bool) : Nat → NodeReader Node
  | 0 => failure
  | fuel + 1 => do
    match ← peek with
    | some (.scalar plain text) =>
      drop
      pure (.scalar plain text)
    | some .flowSequenceStart =>
      drop
      .sequence <$> flowItems true fuel
    | some .flowMappingStart =>
      drop
      .mapping <$> flowEntries true fuel
    | some .blockSequenceStart =>
      if block then
        drop
        .sequence <$> blockItems fuel
      else failure
    | some .blockMappingStart =>
      if block then
        drop
        .mapping <$> blockEntries fuel
      else failure
    | some .blockEntry => if flat then .sequence <$> flatItems fuel else failure
    | _ => failure

/-- A node, unless one of the given tokens shows that none is written. -/
def nodeUnless (ends : List Token) (block flat : Bool) : Nat → NodeReader Node
  | 0 => failure
  | fuel + 1 => do if ← isAt ends then pure .missing else node block flat fuel

/-- The items of a block sequence. -/
def blockItems : Nat → NodeReader (List Node)
  | 0 => failure
  | fuel + 1 => do
    if ← accept .blockEnd then pure []
    else if ← accept .blockEntry then
      let x ← nodeUnless [.blockEntry, .blockEnd] true false fuel
      pure (x :: (← blockItems fuel))
    else failure

/-- The items of a block sequence without indentation of its own. -/
def flatItems : Nat → NodeReader (List Node)
  | 0 => failure
  | fuel + 1 => do
    if ← accept .blockEntry then
      let x ← nodeUnless [.blockEntry, .key, .value, .blockEnd] true false fuel
      pure (x :: (← flatItems fuel))
    else pure []

/-- The entries of a block mapping. -/
def blockEntries : Nat → NodeReader (List (Node × Node))
  | 0 => failure
  | fuel + 1 => do
    if ← accept .blockEnd then pure []
    else if ← accept .key then
      let k ← nodeUnless [.key, .value, .blockEnd] true true fuel
      let v ← if ← accept .value then nodeUnless [.key, .value, .blockEnd] true true fuel
        else pure .missing
      pure ((k, v) :: (← blockEntries fuel))
    else failure

/-- The items of a flow sequence; `first` tells whether no item came before. An item with a
colon is a mapping with one entry. Where such a mapping lacks its key, the mark that stands in the
place of the key is passed over. -/
def flowItems (first : Bool) : Nat → NodeReader (List Node)
  | 0 => failure
  | fuel + 1 => do
    if ← accept .flowSequenceEnd then pure []
    else
      if !first then
        if ← accept .flowEntry then pure () else failure
      if ← accept .flowSequenceEnd then pure []
      else
        let x ← if ← accept .key then
            let ends : List Token := [.flowEntry, .flowSequenceEnd]
            let k ← if ← isAt (.value :: ends) then do
                drop
                pure .missing
              else node false false fuel
            let v ← if ← accept .value then nodeUnless ends false false fuel else pure .missing
            pure (.mapping [(k, v)])
          else node false false fuel
        pure (x :: (← flowItems false fuel))

/-- The entries of a flow mapping; `first` tells whether no entry came before. -/
def flowEntries (first : Bool) : Nat → NodeReader (List (Node × Node))
  | 0 => failure
  | fuel + 1 => do
    if ← accept .flowMappingEnd then pure []
    else
      if !first then
        if ← accept .flowEntry then pure () else failure
      if ← accept .flowMappingEnd then pure []
      else
        let ends : List Token := [.flowEntry, .flowMappingEnd]
        let kv ← if ← accept .key then
            let k ← nodeUnless (.value :: ends) false false fuel
            let v ← if ← accept .value then nodeUnless ends false false fuel else pure .missing
            pure (k, v)
          else do
            let k ← node false false fuel
            pure (k, .missing)
        pure (kv :: (← flowEntries false fuel))

end

/-- The only document of a text. A text without any is a document without content. -/
def document (fuel : Nat) : NodeReader Node := do
  let started ← accept .documentStart
  let t ← peek
  let x ← if t.isNone then pure .missing
    else if started && (t == some .documentStart || t == some .documentEnd) then pure .missing
    else node true false fuel
  dropDocumentEnds
  if (← peek).isNone then pure x else failure

end NodeReader

/-- The document of a text, none if the text is not well formed or has several documents. -/
def Node.ofText? (s : String) : Option Node := do
  let tokens ← Token.ofText? s
  (·.1) <$> NodeReader.document (2 * tokens.length + 2) tokens

end Dataflow.Yaml
