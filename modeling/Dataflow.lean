import Dataflow.Execution.Plan
import Dataflow.Inspection
import Dataflow.Json.Forms
import Dataflow.Operator.Catalog
import Dataflow.OperatorGraph.Materialize
import Dataflow.Plan.Assignment
import Dataflow.Plan.Instrumentation
import Dataflow.Plan.Summary
import Dataflow.Proofs.Execution.Activated
import Dataflow.Proofs.Execution.Ascent
import Dataflow.Proofs.Execution.Collected
import Dataflow.Proofs.Execution.GivenBack
import Dataflow.Proofs.Execution.Lifetime
import Dataflow.Proofs.Execution.Ownership
import Dataflow.Proofs.Execution.Rounds
import Dataflow.Proofs.Execution.Semantics
import Dataflow.Proofs.Execution.Termination
import Dataflow.Proofs.Execution.Trace
import Dataflow.Proofs.Json.RoundTrip
import Dataflow.Proofs.Loop.Protocol
import Dataflow.Proofs.OperatorGraph.Faithful
import Dataflow.Proofs.Plan.Components
import Dataflow.Proofs.Plan.Coverage
import Dataflow.Proofs.Plan.Growth
import Dataflow.Proofs.Plan.Levels
import Dataflow.Proofs.Plan.LoopPaths
import Dataflow.Yaml.Forms
