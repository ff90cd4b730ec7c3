import Dataflow.Proofs.Execution.Atomic
import Dataflow.Proofs.Execution.Tallies

/-!
# How often instances are obtained

The engine obtains a reference on what a stage execution has produced once for each reader in the
stage, whether the reader becomes ready or not, and once when it is published. Nothing else is
obtained but by operators.

Each obtaining is noted down with the operation that it belongs to, and the operations on one channel
are counted: feeding its readers is one for each, publishing is one. The numbers are those of the
flags and consumers of the channel in the plan, so they are known before anything is executed.

* `Plan.obtains`: how often the engine obtains an instance of a channel.
* `executeStage_obtained`: a stage execution with operators that obtain and release references.
* **`PreliminaryPlan.executeStage_obtains`**: operators that leave references alone.

Whether a reader becomes ready makes no difference, and neither does the order in which tasks are
executed. A stage execution that fails may have obtained less, at any point, and is not spoken of. The
references that operators obtain themselves are recorded in the same number, so the sharp count needs
operators that leave references alone (`Behaviour.OnlyNotes`).
-/

namespace Dataflow

open Handling Workspace

/-- How often the engine obtains a reference on what a stage produces for a channel: once for each
reader in the stage, but not across a barrier, and once if other stages need it. -/
def Plan.obtains (p : Plan) (s : StageId) (c : ChannelId) : Nat :=
  let channel := p.graph.channel c
  (if channel.barrier then 0
    else channel.consumers.countP fun k => decide (k.task ∈ (p.stage s).tasks)) +
  if channel.betweenStages || channel.barrier then 1 else 0

section Counts

variable {p : Plan} {s : StageId} {l : Ledger} {is : List InstanceId} {i : InstanceId}

theorem length_innerConsumers (hp : p.IsOrderly s) (c : ChannelId) :
    (innerConsumers p s c).length = if (p.graph.channel c).barrier then 0
      else (p.graph.channel c).consumers.countP fun k => decide (k.task ∈ (p.stage s).tasks) := by
  unfold innerConsumers
  simp only
  split
  · rfl
  · rw [← List.countP_eq_length_filter]
    refine List.countP_congr fun k _ => ?_
    rw [beq_iff_eq, decide_eq_true_iff]
    exact hp.placed k.task

/-- An instance is fed to each of its readers once. -/
theorem count_readings (hn : is.Nodup) (hi : i ∈ is) :
    (readings p s l is).count i = (innerConsumers p s (l.get i).channel).length := by
  have hnone : ∀ {js : List InstanceId}, i ∉ js → (readings p s l js).count i = 0 := by
    intro js hjs
    refine List.count_eq_zero.mpr fun hmem => ?_
    obtain ⟨j, hj, hrep⟩ := List.mem_flatMap.mp hmem
    exact hjs (List.eq_of_mem_replicate hrep ▸ hj)
  induction is with
  | nil => exact absurd hi List.not_mem_nil
  | cons j is ih =>
    obtain ⟨hj, hn⟩ := List.nodup_cons.mp hn
    have hcons : readings p s l (j :: is) =
        List.replicate (innerConsumers p s (l.get j).channel).length j ++ readings p s l is := rfl
    rw [hcons, List.count_append, List.count_replicate]
    rcases List.mem_cons.mp hi with rfl | hi
    · rw [hnone hj, if_pos (beq_self_eq_true _), Nat.add_zero]
    · have hne : ¬ (j == i) = true := fun h => hj (eq_of_beq h ▸ hi)
      rw [ih hn hi, if_neg hne, Nat.zero_add]

theorem count_outward (hn : is.Nodup) (hi : i ∈ is) :
    (Machine.outward p l is).count i = if p.isOutward (l.get i).channel then 1 else 0 := by
  unfold Machine.outward
  rw [(hn.filter _).count]
  simp only [List.mem_filter, hi, true_and]

end Counts

section Stage

variable {ω : Type} {p : Plan} {b : Behaviour ω} {s : StageId} {m m' : Machine ω}
  {log : ω → List Handling}

/-- The accounts with which a push begins. -/
theorem Machine.books (m : Machine ω) (hlog : log m.memory = []) :
    Books p s (fun i => ((m.ledger.get i).references : Int)) log m.ledger.cells.size [] []
      (m.entering p s) := by
  refine ⟨⟨List.nodup_nil, nofun⟩, fun i => ?_, nofun, fun i hi => ?_⟩
  · change _ = Workspace.due _ log m.memory i + _
    unfold Workspace.due
    rw [hlog]
    simp [Machine.entering]
  · change (m.ledger.get i).obtained = (log m.memory).count (.obtained i) + 0
    rw [Ledger.get_of_size_le hi, hlog]
    rfl

/-- **What a stage execution has produced was obtained as often as the plan says**, apart from what
operators have obtained. -/
theorem executeStage_obtained (hp : p.IsOrderly s) {config : ExecutorConfig}
    (hb : ∀ t ∈ (p.stage s).tasks, b.LogsHandlings (p.graph.task t).operator.object log)
    (hm : m.Known) (hlog : log m.memory = []) {report : StageReport}
    (hrun : p.executeStage b config s m = (.ok report, m')) : ∀ i ∈ report.instances,
      (m'.ledger.get i).obtained =
        (log m'.memory).count (.obtained i) + p.obtains s (m'.ledger.get i).channel := by
  have hbooks := push_books hp hm hb (w := m.entering p s) (m.books hlog)
  have hending := executeStage_ending p b config s m
  rw [hrun] at hending
  cases hending with
  | @completes w m₁ m₂ hpush hpublish hrelease =>
    obtain ⟨done, hw, ho⟩ := publish_overrides hp hpush hpublish
    have hknown : ∀ i ∈ w.run.instances, i < w.ledger.cells.size := fun i hi => (hw.fresh i hi).2
    have hnodup : w.run.instances.Nodup := List.Nodup.of_map _ hw.channels
    have hpublished := (Machine.publish_handled (m := w.leaving m.state) hknown hw.channels).ok hpublish
    obtain ⟨_, ⟨l, hl, rfl⟩, rfl⟩ := (Machine.onStore_ends (m := m₁)
      (Store.onLedger_ends releaseAll_handled)).ok hrelease
    intro i hi
    have hpushed : (w.ledger.get i).obtained = (log w.memory).count (.obtained i) +
        (readings p s w.ledger w.run.instances).count i :=
      (hbooks.ok hpush).obtained i (hw.fresh i hi).1
    have hchannel : (l.get i).channel = (w.ledger.get i).channel :=
      (hpublished.trans hl).later.channel i (hknown i hi)
    have houtward : (l.get i).obtained = (w.ledger.get i).obtained +
        (Machine.outward p w.ledger w.run.instances).count i := by
      rw [(hpublished.trans hl).obtained i]
      simp only [List.count_append, count_map_obtained, count_map_released]
      rfl
    change (l.get i).obtained = (log m₁.memory).count _ + p.obtains s (l.get i).channel
    rw [houtward, hpushed, count_outward hnodup hi, count_readings hnodup hi,
      length_innerConsumers hp, hchannel, ho.memory, Nat.add_assoc]
    rfl

end Stage

namespace PreliminaryPlan

variable {ω : Type} {p : PreliminaryPlan} {plan : Plan} {b : Behaviour ω} {s : StageId}
  {m m' : Machine ω}

/-- **Each reader in the stage takes one reference on what it reads, and so does the state**: with
operators that leave references alone, a stage execution that succeeds has produced at most one
instance for each channel, and has obtained it once for each reader in the stage, unless there is a
barrier in between, and once if other stages need it. -/
theorem executeStage_obtains (hg : p.graph.Built) (h : p.assign = .ok plan)
    (hs : s < plan.stages.length)
    (hb : ∀ t ∈ (plan.stage s).tasks, b.OnlyNotes (plan.graph.task t).operator.object)
    (config : ExecutorConfig) (hm : m.Known) {report : StageReport}
    (hrun : plan.executeStage b config s m = (.ok report, m')) :
    (report.instances.map fun i => (m'.ledger.get i).channel).Nodup ∧
      ∀ i ∈ report.instances,
        (m'.ledger.get i).obtained = plan.obtains s (m'.ledger.get i).channel := by
  have horderly := (isOrderly_of_assign hg h hs).1
  refine ⟨((executeStage_commits horderly config hm hrun).2.2.1 report rfl).channels, fun i hi => ?_⟩
  have hobtained := executeStage_obtained horderly (fun t ht => (hb t ht).logsHandlings) hm rfl hrun i hi
  rwa [List.count_nil, Nat.zero_add] at hobtained

end PreliminaryPlan

/-! ## A reader of two inputs, and one that never becomes ready -/

/-- The second task reads the first output of the first task twice. The third one waits for both
outputs, and the fourth one reads in another stage. -/
def fanned : PreliminaryPlan := .ofGraph
  (((((((((TaskGraph.empty.addTask
    { object := 0, name := "read", platform := ⟨"a"⟩, inputs := [], outputs := [.any, .any] }).addTask
    { object := 1, name := "pair", platform := ⟨"a"⟩, inputs := [.any, .any], outputs := [] }).addTask
    { object := 2, name := "join", platform := ⟨"a"⟩, inputs := [.any, .any], outputs := [] }).addTask
    { object := 3, name := "show", platform := ⟨"b"⟩, inputs := [.any], outputs := [] }).wire
      0 0 1 0 .collection).wire 0 0 1 1 .collection).wire 0 0 2 0 .collection).wire
      0 1 2 1 .collection).wire 0 0 3 0 .collection)

theorem built_fanned : fanned.graph.Built :=
  .wire (.wire (.wire (.wire (.wire (.addTask _ (.addTask _ (.addTask _ (.addTask _ .empty))))
    rfl) rfl) rfl) rfl) rfl

/-- Operators that emit on their first output only. -/
def emittingFirst : Behaviour Unit where
  prepare _ _ m := { result := .ok (), memory := m }
  evaluate _ _ m := { result := .ok (), memory := m, emissions := [some { payload := .number 0 }] }
  loopState _ _ := .notStarted
  advance _ _ m := (.ok .notStarted, m)

theorem onlyNotes_emittingFirst (o : ObjectId) : emittingFirst.OnlyNotes o := ⟨nofun, nofun⟩

/-- Three references for readers in the stage, although one of them never becomes ready, and one for
the state. -/
theorem fanned_obtains : ∃ plan report m', fanned.assign = .ok plan ∧
    plan.executeStage emittingFirst {} 0 { memory := () } = (.ok report, m') ∧
    report.instances = [0] ∧ report.unexecuted = [2] ∧ plan.obtains 0 (m'.ledger.get 0).channel = 4 ∧
    (m'.ledger.get 0).obtained = plan.obtains 0 (m'.ledger.get 0).channel := by
  have hcheck : (fanned.assign.map fun plan => (plan.stages.length,
      (plan.executeStage emittingFirst {} 0 { memory := () }).1,
      plan.obtains 0 ((plan.executeStage emittingFirst {} 0 { memory := () }).2.ledger.get 0).channel)) =
      .ok (2, .ok ⟨0, [⟨0, .plain⟩, ⟨1, .plain⟩], [0], [2]⟩, 4) := by decide +kernel
  cases h : fanned.assign with
  | error e =>
    rw [h] at hcheck
    exact absurd hcheck (by simp [Except.map])
  | ok plan =>
    rw [h] at hcheck
    obtain ⟨hlen, hrest⟩ := Prod.mk.inj (Except.ok.inj hcheck)
    obtain ⟨hresult, hobtains⟩ := Prod.mk.inj hrest
    have hknown : Machine.Known ({ memory := () } : Machine Unit) := fun c i hi => by
      rw [Machine.get?_of_isEmpty rfl] at hi
      exact absurd hi (by simp)
    have hrun : plan.executeStage emittingFirst {} 0 { memory := () } = (.ok _, _) :=
      Prod.ext hresult rfl
    refine ⟨plan, _, _, rfl, hrun, rfl, rfl, hobtains, ?_⟩
    exact (PreliminaryPlan.executeStage_obtains built_fanned h (hlen ▸ Nat.zero_lt_two)
      (fun t _ => onlyNotes_emittingFirst _) {} hknown hrun).2 0 List.mem_cons_self

end Dataflow
