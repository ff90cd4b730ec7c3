import Dataflow.Channel
import Dataflow.EngineConfig
import Dataflow.Json.Codec

/-!
# JSON forms of the library's types

Data set types, platforms, channel descriptors and configurations have JSON forms. Each record
is written with all its fields in the order of its declaration.

Names of the fields and of the modes are part of the forms. Which fields may be missing differs from
record to record: a data set type needs its element, a channel descriptor needs both fields, and the
two configurations need none. A platform is its name and no record, an instrumentation mode is one
of three names.

The limit of stage executions is the one number that is read, and it has 64 bits. Nothing
restricts the names of platforms, elements and channels, the empty one included.
-/

namespace Dataflow

open Json (Codec Field Record)

/-- A platform is written as its name. -/
def Platform.codec : Codec Platform := Codec.text.map Platform.mk Platform.name

namespace DataSetType

/-- The fields read so far. -/
structure Draft where
  element : Option String := none
  grouped : Option Bool := none

/-- The element is required; single elements are the default. -/
def record : Record Draft DataSetType where
  fields :=
    [.ofSlot "element" .text Draft.element fun s x => { s with element := some x },
      .ofSlot "grouped" .bool Draft.grouped fun s x => { s with grouped := some x }]
  start := {}
  finish s := s.element.map fun element => ⟨element, s.grouped.getD false⟩

def codec : Codec DataSetType where
  toJson t := .object [("element", .text t.element), ("grouped", .bool t.grouped)]
  read := record.read

end DataSetType

namespace ChannelDescriptor

/-- The fields read so far. -/
structure Draft where
  name : Option String := none
  reusable : Option Bool := none

/-- Both fields are required. -/
def record : Record Draft ChannelDescriptor where
  fields :=
    [.ofSlot "name" .text Draft.name fun s x => { s with name := some x },
      .ofSlot "reusable" .bool Draft.reusable fun s x => { s with reusable := some x }]
  start := {}
  finish s := do some ⟨← s.name, ← s.reusable⟩

def codec : Codec ChannelDescriptor where
  toJson d := .object [("name", .text d.name), ("reusable", .bool d.reusable)]
  read := record.read

end ChannelDescriptor

namespace ExecutorConfig

/-- The fields read so far. -/
structure Draft where
  maxStageExecutions : Option UInt64 := none
  collectCardinalities : Option Bool := none
  requireFinishedLoops : Option Bool := none

/-- The configuration with defaults for what was not read. -/
def ofDraft (s : Draft) : ExecutorConfig :=
  let d : ExecutorConfig := {}
  { maxStageExecutions := s.maxStageExecutions.getD d.maxStageExecutions
    collectCardinalities := s.collectCardinalities.getD d.collectCardinalities
    requireFinishedLoops := s.requireFinishedLoops.getD d.requireFinishedLoops }

/-- Every field has a default. -/
def record : Record Draft ExecutorConfig where
  fields :=
    [.ofSlot "max_stage_executions" .word64 Draft.maxStageExecutions fun s x =>
        { s with maxStageExecutions := some x },
      .ofSlot "collect_cardinalities" .bool Draft.collectCardinalities fun s x =>
        { s with collectCardinalities := some x },
      .ofSlot "require_finished_loops" .bool Draft.requireFinishedLoops fun s x =>
        { s with requireFinishedLoops := some x }]
  start := {}
  finish s := some (ofDraft s)

def codec : Codec ExecutorConfig where
  toJson c := .object
    [("max_stage_executions", .number c.maxStageExecutions.toNat),
      ("collect_cardinalities", .bool c.collectCardinalities),
      ("require_finished_loops", .bool c.requireFinishedLoops)]
  read := record.read

end ExecutorConfig

/-- A mode is written as its name. -/
def Instrumentation.codec : Codec Instrumentation := .ofNames name ofName?

namespace EngineConfig

/-- The fields read so far. -/
structure Draft where
  executor : Option ExecutorConfig := none
  instrumentation : Option Instrumentation := none

/-- The configuration with defaults for what was not read. -/
def ofDraft (s : Draft) : EngineConfig :=
  let d : EngineConfig := {}
  { executor := s.executor.getD d.executor
    instrumentation := s.instrumentation.getD d.instrumentation }

/-- Every field has a default. -/
def record : Record Draft EngineConfig where
  fields :=
    [.ofSlot "executor" ExecutorConfig.codec Draft.executor fun s x =>
        { s with executor := some x },
      .ofSlot "instrumentation" Instrumentation.codec Draft.instrumentation fun s x =>
        { s with instrumentation := some x }]
  start := {}
  finish s := some (ofDraft s)

def codec : Codec EngineConfig where
  toJson c := .object
    [("executor", ExecutorConfig.codec.toJson c.executor),
      ("instrumentation", Instrumentation.codec.toJson c.instrumentation)]
  read := record.read

end EngineConfig

end Dataflow
