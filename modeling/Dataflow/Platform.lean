/-!
# Platforms

The identity of an execution platform, such as a local stream engine or a database. Planning
only asks whether two operators run on one platform: tasks of different platforms never share a
stage (`Dataflow.Proofs.Plan.Partition`). What a platform can do is known to its operators
alone.
-/

namespace Dataflow

/-- A platform is known by its name alone. -/
structure Platform where
  name : String
  deriving DecidableEq, Repr, Inhabited

end Dataflow
