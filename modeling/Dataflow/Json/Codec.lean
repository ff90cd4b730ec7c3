import Dataflow.Json.Reader

/-!
# JSON forms of types

A codec says how the values of a type are written as JSON and how they are read back. Records
are written as objects with all fields; they are read from objects in which the fields come in
any order, unknown fields are skipped and optional ones may be missing, and also from arrays of
the fields in order. Names are written as texts; they are read from texts and from objects whose
only key is the name, with the value `null`.

A record is gathered field by field in a draft, in which a field knows whether it was given. So a
field that comes twice is refused when it comes the second time, and what is missing is decided at
the end: a default or a refusal. One reader (`Record.read`) does this for all records, and a
record is the list of its fields with what to do at the end.

An array may be shorter than the list of fields, if those that are missing can be. It may not be
longer.

A codec is `Lawful` if every value that is written is read back as itself, whatever stands behind
it, and the codecs of a record and of an enumeration are lawful if those of their parts are
(`Dataflow.Proofs.Json.RoundTrip`). Other spellings of a value need no law: what is read from them is
a value of the type, and so it is written and read like any other.
-/

namespace Dataflow.Json

/-- A JSON form of a type. -/
structure Codec (α : Type) where
  toJson : α → Json
  read : Reader α

namespace Codec

variable {α : Type}

/-- The text of a value. -/
def encode (c : Codec α) (x : α) : String := (c.toJson x).compact

/-- The value of a text. -/
def decode (c : Codec α) (s : String) : Except Failure α := Reader.parse c.read s

def text : Codec String := ⟨.text, Reader.text⟩

def bool : Codec Bool := ⟨.bool, Reader.bool⟩

def word64 : Codec UInt64 := ⟨fun n => .number n.toNat, Reader.word64⟩

/-- The form of a type that has the form of another. -/
def map {β : Type} (c : Codec α) (f : α → β) (g : β → α) : Codec β :=
  ⟨fun y => c.toJson (g y), f <$> c.read⟩

end Codec

/-! ## Records -/

/-- A field of a record that is gathered in a `σ`. -/
structure Field (σ : Type) where
  name : String
  /-- Whether the field has been read. -/
  isGiven : σ → Bool
  /-- Read the field. -/
  read : σ → Reader σ

/-- A field that is kept in a slot of its own. -/
def Field.ofSlot {σ β : Type} (name : String) (c : Codec β) (get : σ → Option β)
    (set : σ → β → σ) : Field σ where
  name
  isGiven s := (get s).isSome
  read s := set s <$> c.read

/-- A record of type `α`, gathered field by field in a `σ`. -/
structure Record (σ α : Type) where
  fields : List (Field σ)
  /-- No field has been read. -/
  start : σ
  /-- The record, unless a field is missing that it cannot do without. -/
  finish : σ → Option α

namespace Record

variable {σ α : Type}

/-- Read the items of an array as the given fields, as far as there are items; `first` tells
whether no item came before. The array ends at the latest with the last field. -/
def readItems : List (Field σ) → Bool → σ → Reader σ
  | [], _, s => do
    Reader.punctuation ']'
    pure s
  | f :: fs, first, s => do
    let c ← Reader.peek
    if c = ']' then do
      discard Reader.next
      pure s
    else do
      if first then pure ()
      else do
        Reader.punctuation ','
        if (← Reader.peek) = ']' then throw .malformed
      readItems fs false (← f.read s)

/-- Read the fields of an object, at most `fuel` of them; `first` tells whether no field came
before. A field may come once. -/
def readFields (fields : List (Field σ)) : Nat → Bool → σ → Reader σ
  | 0, _, _ => throw .malformed
  | fuel + 1, first, s => do
    let c ← Reader.peek
    if c = '\x7d' then do
      discard Reader.next
      pure s
    else do
      if first then pure () else Reader.punctuation ','
      if (← Reader.peek) = '"' then pure () else throw .malformed
      let key ← Reader.quotedText
      match fields.find? (·.name == key) with
      | some f =>
        if f.isGiven s then throw .mismatch
        Reader.punctuation ':'
        readFields fields fuel false (← f.read s)
      | none =>
        Reader.punctuation ':'
        Reader.skip
        readFields fields fuel false s

/-- Read a record. -/
def read (r : Record σ α) : Reader α := do
  let c ← Reader.peek
  let s ← if c = '[' then do
      discard Reader.next
      readItems r.fields true r.start
    else if c = '\x7b' then do
      discard Reader.next
      let fuel ← Reader.remaining
      readFields r.fields (fuel + 1) true r.start
    else Reader.refuse
  match r.finish s with
  | some x => pure x
  | none => throw .mismatch

end Record

/-! ## Names -/

/-- A name that is asked for. -/
def readName {α : Type} (ofName? : String → Option α) : Reader α := do
  match ofName? (← Reader.text) with
  | some x => pure x
  | none => throw .mismatch

/-- One of several names: a text, or an object with the name as its only key. The object is
malformed if its key is no text. -/
def readVariant {α : Type} (ofName? : String → Option α) : Reader α := do
  let c ← Reader.peek
  if c = '"' then readName ofName?
  else if c = '\x7b' then do
    discard Reader.next
    if (← Reader.peek) = '"' then pure () else throw .malformed
    let x ← readName ofName?
    Reader.punctuation ':'
    Reader.null
    Reader.punctuation '\x7d'
    pure x
  else throw .malformed

/-- A type whose values are names. -/
def Codec.ofNames {α : Type} (name : α → String) (ofName? : String → Option α) : Codec α :=
  ⟨fun x => .text (name x), readVariant ofName?⟩

end Dataflow.Json
