import Dataflow.EngineConfig
import Dataflow.Yaml.Scalar

/-!
# Configurations in YAML

An engine configuration is a record in which every field has a default and unknown fields do not
count. A configuration is read from a text or from the bytes of a file.

There are two ways to fail: a file that is missing or is no text, and a text that spells no
configuration. Why a text spells none is not told any closer. A field that is given counts even if
it is empty, so an empty limit is refused while a missing one is the default; the executor part is
the exception, since no fields is what an empty record has.

Configurations are only read. Where one is written, it is written as JSON.
-/

namespace Dataflow

/-- The executor part of a configuration. -/
def ExecutorConfig.ofNode? (x : Yaml.Node) : Option ExecutorConfig := do
  let d : ExecutorConfig := {}
  let fields ← x.fields?
  let maxStageExecutions ←
    Yaml.Node.field? fields "max_stage_executions" Yaml.Node.word64? d.maxStageExecutions
  let collectCardinalities ←
    Yaml.Node.field? fields "collect_cardinalities" Yaml.Node.bool? d.collectCardinalities
  let requireFinishedLoops ←
    Yaml.Node.field? fields "require_finished_loops" Yaml.Node.bool? d.requireFinishedLoops
  some { maxStageExecutions, collectCardinalities, requireFinishedLoops }

/-- A mode is a scalar, in quotes or not, that is its name. -/
def Instrumentation.ofNode? (x : Yaml.Node) : Option Instrumentation := do ofName? (← x.text?)

namespace EngineConfig

/-- Why a configuration cannot be loaded. -/
inductive LoadError where
  /-- The file is missing, or its bytes are no text. -/
  | unreadable
  /-- The text is no configuration. -/
  | invalid
  deriving DecidableEq, Repr

def ofNode? (x : Yaml.Node) : Option EngineConfig := do
  let d : EngineConfig := {}
  let fields ← x.fields?
  let executor ← Yaml.Node.field? fields "executor" ExecutorConfig.ofNode? d.executor
  let instrumentation ←
    Yaml.Node.field? fields "instrumentation" Instrumentation.ofNode? d.instrumentation
  some { executor, instrumentation }

/-- The configuration that a text spells. -/
def ofYaml (s : String) : Except LoadError EngineConfig :=
  match (Yaml.Node.ofText? s).bind ofNode? with
  | some c => .ok c
  | none => .error .invalid

/-- The configuration in a file, given its bytes, or none if there is no file. -/
def ofFile (content : Option ByteArray) : Except LoadError EngineConfig :=
  match content.bind String.fromUTF8? with
  | some s => ofYaml s
  | none => .error .unreadable

end EngineConfig

end Dataflow
