import Dataflow.Proofs.Execution.Mirror

/-!
# Executing the stages evaluates the graph

A plan without loop heads is a way to evaluate the task graph. The stages may be executed in any order
that respects their dependencies; each needed task is evaluated once, on the data that its inputs have
by recursion over the graph alone (`TaskGraph.Carries`), and what is left published is the data of the
channels that leave a stage.

What an operator was evaluated on is not part of a report. It is seen in two ways. If the operators
keep a record of their evaluations themselves (`Behaviour.Logs`), the record tells. And of any
operators at all it is seen by watching them: `Behaviour.recording` keeps such a record beside their
memory, which changes nothing of what is executed (`Behaviour.mirrors_recording`).

An invariant of schedules is behind this: after some stages what is published on a channel that leaves
its stage is the value of the channel, provided that its stage was among them
(`Dataflow.Proofs.Execution.Schedule`). A stage whose predecessors were executed finds all that it
reads, and so each of its tasks becomes ready; which order the push takes makes no difference to the
data, since each input has one channel and each channel one producer.

* `Behaviour.Mirrors.executeEach`: stage executions one after the other do not depend on what
  operators keep besides.
* **`PreliminaryPlan.executeEach_evaluates`**: all orders, and all operators that compute.

The operators have to compute functions of their inputs (`Behaviour.Computes`): they do not fail,
leave references alone, emit on each connected output, and what they emit does not depend on their
memory. With an operator object that counts its activations and serves two tasks, the order of the
stages could be seen in the results. Loop heads are excluded, as with them stages are executed several
times; for loops see `Dataflow.Proofs.Loop.Outcome`.

The schedule may be any order that respects the dependencies. The one that an execution of the plan
takes is one of them (`Dataflow.Proofs.Execution.Ascent`).
-/

namespace Dataflow

/-- Stage executions one after the other do not depend on what operators keep besides. -/
theorem Behaviour.Mirrors.executeEach {ω ω' : Type} {b' : Behaviour ω'} {b : Behaviour ω} {f : ω' → ω}
    (hb : b'.Mirrors b f) {p : Plan} (config : ExecutorConfig) (order : List StageId)
    (m : Machine ω') : p.executeEach b config order (m.map f) =
      ((p.executeEach b' config order m).1, (p.executeEach b' config order m).2.map f) := by
  induction order generalizing m with
  | nil => rfl
  | cons s rest ih =>
    unfold Plan.executeEach
    simp only [hb.executeStage, ih]

namespace PreliminaryPlan

variable {ω : Type} {p : PreliminaryPlan} {plan : Plan} {b : Behaviour ω} {f : TaskFunctions}
  {m : Machine ω}

/-- **Executing the stages evaluates the graph**: in every order that respects their dependencies,
every stage execution succeeds and leaves no task out, each needed task is evaluated once, on the
data that its inputs have in the graph alone, and in the end exactly the channels that leave the
stage of a needed task are published, each with a live instance of its data. Watched, the operators
are seen to be evaluated on these data in the order in which they are reported. -/
theorem executeEach_evaluates (hg : p.graph.Built) (hp : p.assign = .ok plan)
    (hplain : ∀ t, p.Needs t → (p.graph.task t).isLoopHead = false)
    (hb : ∀ t, p.Needs t → b.Computes p.graph f t) (config : ExecutorConfig)
    {order : List StageId} (hsched : plan.IsSchedule order) (hm : m.state.isEmpty = true) :
    ∃ v, p.Values f v ∧ ∃ reports m', plan.executeEach b config order m =
      (reports.map .ok, m') ∧ p.Evaluated plan b v order m reports m' ∧
      plan.executeEach b.recording config order (m.beside []) = (reports.map .ok,
        m'.beside ((reports.flatMap StageReport.executed).map fun x =>
          p.graph.evaluation v x.task)) := by
  obtain ⟨hs, hf, ha, -⟩ := assign_eq_ok hg hp
  obtain ⟨v, hv⟩ := exists_values hg.wired hs hf ha hplain hb
  obtain ⟨reports, m', hrun, hevaluated⟩ := exists_evaluated hg hp hplain hb hv config hsched hm
  obtain ⟨watched, m₁, hrun₁, hwatched⟩ := exists_evaluated (m := m.beside []) hg hp hplain
    (fun t ht => (hb t ht).recording) hv config hsched hm
  refine ⟨v, hv, reports, m', hrun, hevaluated, ?_⟩
  -- watched or not, the same is reported
  have hmirrors : b.recording.Mirrors b Prod.fst := Behaviour.mirrors_recording
  have hsame := hmirrors.executeEach (p := plan) config order (m.beside [])
  rw [Machine.map_beside, hrun, hrun₁] at hsame
  obtain ⟨hreports, hend⟩ := Prod.mk.inj hsame
  obtain rfl : reports = watched := List.map_injective_iff.mpr (fun _ _ => Except.ok.inj) hreports
  obtain ⟨done, -, -, hexecuted, hlogged⟩ := hwatched.once
  have hlog : m₁.memory.2 = done.map (p.graph.evaluation v) := hlogged Prod.snd b.logs_recording
  have hevaluations : (reports.flatMap StageReport.executed).map
      (fun x => p.graph.evaluation v x.task) = m₁.memory.2 := by
    rw [hexecuted, List.map_map, hlog]
    rfl
  rw [hrun₁, hevaluations, hend, Machine.beside_map]

/-- Three operators in three stages: reading, sorting, joining. -/
theorem interleaved_evaluates : ∃ plan, (interleaved .collection).assign = .ok plan ∧
    plan.stageIds = [0, 1, 2] ∧ ∃ v, (interleaved .collection).Values
      (sums (interleaved .collection).graph) v ∧ ∃ reports m',
        plan.executeEach adding {} [0, 1, 2] { memory := () } = (reports.map .ok, m') ∧
          (interleaved .collection).Evaluated plan adding v [0, 1, 2] { memory := () } reports m' ∧
          plan.executeEach adding.recording {} [0, 1, 2] { memory := ((), []) } =
            (reports.map .ok, m'.beside ((reports.flatMap StageReport.executed).map fun x =>
              (interleaved .collection).graph.evaluation v x.task)) := by
  have hids : ((interleaved .collection).assign.map Plan.stageIds) = .ok [0, 1, 2] := by
    decide +kernel
  have hplain : ∀ t, ((interleaved .collection).graph.task t).isLoopHead = false := fun t =>
    match t with
    | 0 => rfl
    | 1 => rfl
    | 2 => rfl
    | _ + 3 => rfl
  cases h : (interleaved .collection).assign with
  | error e =>
    rw [h] at hids
    exact absurd hids (by simp [Except.map])
  | ok plan =>
    rw [h] at hids
    have horder : plan.stageIds = [0, 1, 2] := Except.ok.inj hids
    refine ⟨plan, rfl, horder, ?_⟩
    exact executeEach_evaluates (m := { memory := () }) (built_interleaved _) h
      (fun t _ => hplain t) (fun t _ => computes_adding _ t) {}
      (horder ▸ isSchedule_stageIds (built_interleaved _) h) rfl

end PreliminaryPlan

end Dataflow
