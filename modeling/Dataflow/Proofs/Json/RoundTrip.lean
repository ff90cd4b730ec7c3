import Dataflow.Json.Forms
import Dataflow.Proofs.Json.Written

/-!
# Forms that are read back

A form is lawful (`Codec.Lawful`) if what it writes is read as the value that was written, up to
where it ends. Forms are built from others: a record is written as an object with its fields in
their order, and it is read field by field into a draft (`Record.Gathers`). That a field is missing,
that one is unknown, or that an array stands for the object, are spellings that are only read.

To be lawful is stronger than to be read back: the reader has to stop at the end of what was written,
before whatever may come next in a text (`Delimits`). That is what makes forms compose, since within
an object a value is followed by a comma or a brace. Only a number would take more of the
text for its own, and what could belong to a number does not delimit anything.

* `Codec.lawful_ofNames`, `Codec.Lawful.map`, `Record.read_object`: lawful forms from others.
* `EngineConfig.lawful_codec` and the like: the forms of the types that are written and read.
* **`roundTrips_codecs`**: values survive, also those read from another spelling.

A form works in two directions. A value that was written is read as itself; and a text that is read, in
whatever spelling, yields a value that is written in one way from then on. Texts that are refused are
not spoken of here, nor is it said which spellings are accepted: the reader is the definition of that
(`Dataflow.Json.Reader`, `Dataflow.Json.Codec`).
-/

namespace Dataflow.Json

open Reader (Delimits bind_eq map_eq discard_eq peek_cons punctuation_cons delimits_cons)

/-! ## Single values -/

namespace Codec

variable {α β : Type} {c : Codec α} {rest : List Char}

/-- The written form of a value is read as this value, and nothing beyond it is read. -/
def Lawful (c : Codec α) : Prop :=
  ∀ x rest, Delimits rest → c.read ((c.toJson x).write ++ rest) = .ok (x, rest)

theorem Lawful.decode_encode (h : c.Lawful) (x : α) : c.decode (c.encode x) = .ok x := by
  have hread : c.read (c.toJson x).write = .ok (x, []) := by
    simpa using h x [] Reader.delimits_nil
  unfold decode encode Reader.parse compact
  rw [String.toList_ofList, hread]
  rfl

/-- Values survive being written and read, also those that were read from a text. -/
structure RoundTrips (c : Codec α) : Prop where
  decode_encode : ∀ x, c.decode (c.encode x) = .ok x
  reencode : ∀ s x, c.decode s = .ok x →
    ∃ y, c.decode (c.encode x) = .ok y ∧ y = x ∧ c.encode y = c.encode x

theorem Lawful.roundTrips (h : c.Lawful) : c.RoundTrips :=
  ⟨h.decode_encode, fun _ x _ => ⟨x, h.decode_encode x, rfl, rfl⟩⟩

theorem Lawful.map (h : c.Lawful) {f : α → β} {g : β → α} (hfg : ∀ y, f (g y) = y) :
    (c.map f g).Lawful := fun y rest hr => by
  have hread := map_eq (h (g y) rest hr) f
  rw [hfg] at hread
  exact hread

theorem lawful_text : Codec.text.Lawful := fun s rest _ => Reader.text_quoteText s rest

theorem lawful_bool : Codec.bool.Lawful := fun b rest _ => Reader.bool_write b rest

theorem lawful_word64 : Codec.word64.Lawful := fun x _ hr => Reader.word64_digits x hr

theorem lawful_ofNames {name : α → String} {ofName? : String → Option α}
    (h : ∀ x, ofName? (name x) = some x) : (Codec.ofNames name ofName?).Lawful := fun x rest _ => by
  change readVariant ofName? (quoteText (name x) ++ rest) = .ok (x, rest)
  rw [readVariant, bind_eq (Reader.peek_quoteText _ rest), if_pos rfl, readName,
    bind_eq (Reader.text_quoteText (name x) rest), h]
  rfl

end Codec

/-! ## Records -/

section Records

variable {σ α β : Type} {f : Field σ} {fields : List (Field σ)} {s s' : σ} {x : Json}
  {written : List (String × Json)} {cs rest : List Char} {key : String}

/-- A field that has not been read yet is read from a value. -/
def Field.Takes (f : Field σ) (s : σ) (x : Json) (s' : σ) : Prop :=
  f.isGiven s = false ∧ ∀ rest, Delimits rest → f.read s (x.write ++ rest) = .ok (s', rest)

theorem Field.takes_ofSlot {c : Codec β} (hc : c.Lawful) {name : String} {get : σ → Option β}
    {set : σ → β → σ} (hget : get s = none) (y : β) :
    (Field.ofSlot name c get set).Takes s (c.toJson y) (set s y) := by
  refine ⟨?_, fun rest hr => map_eq (hc y rest hr) (set s)⟩
  change (get s).isSome = false
  rw [hget]
  rfl

namespace Record

/-- Reading the fields of an object one after the other leads from one draft to another. -/
inductive Gathers (fields : List (Field σ)) : σ → List (String × Json) → σ → Prop
  | done (s : σ) : Gathers fields s [] s
  | field {s s' s'' : σ} {key : String} {x : Json} {written : List (String × Json)} {f : Field σ}
      (found : fields.find? (·.name == key) = some f) (taken : f.Takes s x s')
      (more : Gathers fields s' written s'') : Gathers fields s ((key, x) :: written) s''

/-- Behind a comma the fields go on as they begin. -/
theorem readFields_comma (h : Reader.peek cs = .ok ('"', cs)) (fuel : Nat) :
    readFields fields (fuel + 1) false s (',' :: cs) = readFields fields (fuel + 1) true s cs := by
  have hpeek : Reader.peek (',' :: cs) = .ok (',', ',' :: cs) := peek_cons rfl
  have hcomma : Reader.punctuation ',' (',' :: cs) = .ok ((), cs) := punctuation_cons rfl
  have hquote : ('"' : Char) ≠ '\x7d' := by decide
  rw [readFields, readFields, bind_eq hpeek, if_neg (by decide), bind_eq h, if_neg hquote]
  simp only [Bool.false_eq_true, if_false, if_true]
  rw [bind_eq hcomma]

/-- The end of an object. -/
theorem readFields_end (fuel : Nat) (first : Bool) (s : σ) (rest : List Char) :
    readFields fields (fuel + 1) first s ('\x7d' :: rest) = .ok (s, rest) := by
  have hpeek : Reader.peek ('\x7d' :: rest) = .ok ('\x7d', '\x7d' :: rest) := peek_cons rfl
  have hnext : Reader.next ('\x7d' :: rest) = .ok ('\x7d', rest) := rfl
  rw [readFields, bind_eq hpeek, if_pos rfl, bind_eq (discard_eq hnext)]
  rfl

theorem readFields_field (found : fields.find? (·.name == key) = some f) (taken : f.Takes s x s')
    (hr : Delimits cs) (fuel : Nat) :
    readFields fields (fuel + 1) true s (quoteText key ++ ':' :: (x.write ++ cs)) =
      readFields fields fuel false s' cs := by
  have hpeek := Reader.peek_quoteText key (':' :: (x.write ++ cs))
  have hkey := Reader.quotedText_quoteText key (':' :: (x.write ++ cs))
  have hcolon : Reader.punctuation ':' (':' :: (x.write ++ cs)) = .ok ((), x.write ++ cs) :=
    punctuation_cons rfl
  rw [readFields, bind_eq hpeek, if_neg (by decide)]
  simp only [if_true]
  rw [bind_eq hpeek]
  simp only [if_true]
  rw [bind_eq hkey, found]
  simp only [taken.1, Bool.false_eq_true, if_false]
  rw [bind_eq hcolon, bind_eq (taken.2 cs hr)]

theorem delimits_writeFields (written : List (String × Json)) (rest : List Char) :
    Delimits (writeFields written ++ rest) := by
  cases written <;> exact delimits_cons (by decide)

/-- Every field takes up room. -/
theorem length_lt_length_writeFields (written : List (String × Json)) :
    written.length < (writeFields written).length := by
  induction written with
  | nil => exact Nat.zero_lt_one
  | cons field written ih =>
    obtain ⟨key, x⟩ := field
    simp only [writeFields, List.length_cons, List.length_append]
    omega

theorem readFields_writeFields (h : Gathers fields s written s') (rest : List Char) :
    ∀ {fuel : Nat}, written.length < fuel →
      readFields fields fuel false s (writeFields written ++ rest) = .ok (s', rest) := by
  induction h with
  | done s =>
    rintro (_ | fuel) hfuel
    · exact absurd hfuel (Nat.not_lt_zero _)
    exact readFields_end fuel false s rest
  | @field s s' s'' key x written f found taken more ih =>
    rintro (_ | fuel) hfuel
    · exact absurd hfuel (Nat.not_lt_zero _)
    have hwritten : writeFields ((key, x) :: written) ++ rest =
        ',' :: (quoteText key ++ ':' :: (x.write ++ (writeFields written ++ rest))) := by
      simp [writeFields]
    rw [hwritten, readFields_comma (Reader.peek_quoteText _ _),
      readFields_field found taken (delimits_writeFields _ _)]
    exact ih (Nat.lt_of_succ_lt_succ hfuel)

/-- **A record is read from an object** in which its fields come in any order. -/
theorem read_object (r : Record σ α) (h : Gathers r.fields r.start written s) {y : α}
    (hy : r.finish s = some y) (rest : List Char) :
    r.read ((Json.object written).write ++ rest) = .ok (y, rest) := by
  have hremaining : ∀ cs, Reader.remaining cs = .ok (cs.length, cs) := fun _ => rfl
  have hopen : ∀ cs, Reader.peek ('\x7b' :: cs) = .ok ('\x7b', '\x7b' :: cs) :=
    fun _ => peek_cons rfl
  have hnext : ∀ cs, Reader.next ('\x7b' :: cs) = .ok ('\x7b', cs) := fun _ => rfl
  obtain ⟨cs, hcs, hfields⟩ : ∃ cs, (Json.object written).write ++ rest = '\x7b' :: cs ∧
      readFields r.fields (cs.length + 1) true r.start cs = .ok (s, rest) := by
    cases h with
    | done => exact ⟨'\x7d' :: rest, rfl, readFields_end _ _ _ _⟩
    | @field _ s' _ key x written f found taken more =>
      refine ⟨quoteText key ++ ':' :: (x.write ++ (writeFields written ++ rest)), ?_, ?_⟩
      · simp [write]
      · rw [readFields_field found taken (delimits_writeFields _ _)]
        refine readFields_writeFields more rest ?_
        have := length_lt_length_writeFields written
        simp only [List.length_append, List.length_cons]
        omega
  rw [hcs, read, bind_eq (hopen cs), if_neg (by decide), if_pos rfl,
    bind_eq (discard_eq (hnext cs)), bind_eq (hremaining cs), bind_eq hfields]
  simp only [hy]
  rfl

end Record

end Records

end Dataflow.Json

namespace Dataflow

open Json (Codec)
open Json.Codec
open Json.Field (takes_ofSlot)
open Json.Record (Gathers)

/-! ## The library's types -/

theorem Platform.lawful_codec : Platform.codec.Lawful := lawful_text.map fun _ => rfl

theorem DataSetType.lawful_codec : DataSetType.codec.Lawful := fun t rest _ => by
  have hfields : Gathers record.fields record.start
      [("element", .text t.element), ("grouped", .bool t.grouped)]
      ⟨some t.element, some t.grouped⟩ :=
    .field rfl (takes_ofSlot lawful_text rfl t.element)
      (.field rfl (takes_ofSlot lawful_bool rfl t.grouped) (.done _))
  exact record.read_object hfields rfl rest

theorem ChannelDescriptor.lawful_codec : ChannelDescriptor.codec.Lawful := fun d rest _ => by
  have hfields : Gathers record.fields record.start
      [("name", .text d.name), ("reusable", .bool d.reusable)] ⟨some d.name, some d.reusable⟩ :=
    .field rfl (takes_ofSlot lawful_text rfl d.name)
      (.field rfl (takes_ofSlot lawful_bool rfl d.reusable) (.done _))
  exact record.read_object hfields rfl rest

theorem ExecutorConfig.lawful_codec : ExecutorConfig.codec.Lawful := fun c rest _ => by
  have hfields : Gathers record.fields record.start
      [("max_stage_executions", .number c.maxStageExecutions.toNat),
        ("collect_cardinalities", .bool c.collectCardinalities),
        ("require_finished_loops", .bool c.requireFinishedLoops)]
      ⟨some c.maxStageExecutions, some c.collectCardinalities, some c.requireFinishedLoops⟩ :=
    .field rfl (takes_ofSlot lawful_word64 rfl c.maxStageExecutions)
      (.field rfl (takes_ofSlot lawful_bool rfl c.collectCardinalities)
        (.field rfl (takes_ofSlot lawful_bool rfl c.requireFinishedLoops) (.done _)))
  exact record.read_object hfields rfl rest

theorem Instrumentation.lawful_codec : Instrumentation.codec.Lawful := lawful_ofNames ofName?_name

theorem EngineConfig.lawful_codec : EngineConfig.codec.Lawful := fun c rest _ => by
  have hfields : Gathers record.fields record.start
      [("executor", ExecutorConfig.codec.toJson c.executor),
        ("instrumentation", Instrumentation.codec.toJson c.instrumentation)]
      ⟨some c.executor, some c.instrumentation⟩ :=
    .field rfl (takes_ofSlot ExecutorConfig.lawful_codec rfl c.executor)
      (.field rfl (takes_ofSlot Instrumentation.lawful_codec rfl c.instrumentation) (.done _))
  exact record.read_object hfields rfl rest

/-- **What is written is read back**: every value of these types, and every value that was read from
a text, in whatever way that text spelled it; what was read is written the same ever after. -/
theorem roundTrips_codecs :
    DataSetType.codec.RoundTrips ∧ Platform.codec.RoundTrips ∧ ChannelDescriptor.codec.RoundTrips ∧
      ExecutorConfig.codec.RoundTrips ∧ Instrumentation.codec.RoundTrips ∧
      EngineConfig.codec.RoundTrips :=
  ⟨DataSetType.lawful_codec.roundTrips, Platform.lawful_codec.roundTrips,
    ChannelDescriptor.lawful_codec.roundTrips, ExecutorConfig.lawful_codec.roundTrips,
    Instrumentation.lawful_codec.roundTrips, EngineConfig.lawful_codec.roundTrips⟩

/-- A configuration with its fields in the other order, one that is unknown between them, an array
in place of an object, fields that are missing, an escape and blanks. -/
def respelling : String :=
  "\x7b \"instrumentation\": \x7b\"f\\u0075ll\": null\x7d, \"x\": [1, \x7b\"a\": null\x7d],
    \"executor\": [18446744073709551615] \x7d"

theorem respelling_roundTrips :
    let x : EngineConfig := ⟨{ maxStageExecutions := 18446744073709551615 }, .full⟩
    EngineConfig.codec.decode respelling = .ok x ∧
      EngineConfig.codec.encode x =
        "\x7b\"executor\":\x7b\"max_stage_executions\":18446744073709551615," ++
          "\"collect_cardinalities\":true,\"require_finished_loops\":true\x7d," ++
          "\"instrumentation\":\"full\"\x7d" ∧
      ∃ y, EngineConfig.codec.decode (EngineConfig.codec.encode x) = .ok y ∧ y = x ∧
        EngineConfig.codec.encode y = EngineConfig.codec.encode x := by
  have hread : EngineConfig.codec.decode respelling =
      .ok ⟨{ maxStageExecutions := 18446744073709551615 }, .full⟩ := by decide +kernel
  obtain ⟨-, -, -, -, -, hconfig⟩ := roundTrips_codecs
  exact ⟨hread, by decide +kernel, hconfig.reencode _ _ hread⟩

end Dataflow
