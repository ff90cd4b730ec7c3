import Dataflow.Execution.Config
import Dataflow.Plan.Instrumentation

/-!
# Engine configurations

What an engine is told before it runs plans: how they are executed and which of their channels
report cardinalities. A configuration is written in YAML (`Dataflow.Yaml.Forms`) or in JSON
(`Dataflow.Json.Forms`), where everything that is not mentioned has its default; the default
configuration collects the cardinalities of the channels that leave a stage.
-/

namespace Dataflow

structure EngineConfig where
  executor : ExecutorConfig := {}
  instrumentation : Instrumentation := .outbound
  deriving DecidableEq, Repr, Inhabited

end Dataflow
