import Dataflow.Proofs.Execution.Latest
import Dataflow.Proofs.Execution.Reliable
import Dataflow.Proofs.Execution.Rounds
import Dataflow.Proofs.Execution.Schedule
import Mathlib.Data.List.Sort

/-!
# Executing a plan without loops

Without loop heads a plan execution goes through the stages in ascending order and never turns back:
what a stage waits for comes from stages with smaller numbers, so no stage execution makes an earlier
stage executable. With operators that never fail it executes exactly the stages that can be reached
(`Plan.Reached`), given which channels are published, until it comes to rest or to its limit.

What is known between two stage executions (`Ascent`) is that the stages executed so far are those
that can be reached below some number, that each of them has published what it produced, and that all
others are pending. The next stage is then the smallest one that can be reached and was not executed.
One that was passed over stays out of reach, for its predecessors lie below it and so do the producers
of all that it reads.

* `Plan.IsLoopFree`: what planning makes of a graph without loop heads.
* `Ascent`, `Ascent.step`: what is known between stage executions, and one stage execution.
* `exists_ascent`: the stage executions come to an end.
* **`PreliminaryPlan.execute_ascends`**

Operators may leave outputs without an emission, which is why stages can be out of reach at all; that
an operator emits or not may depend on anything, its memory included. Which channels are published is
hence taken from the execution itself, and `Plan.Reached` is the least set that is closed under it. An
operator that fails ends the execution at its stage, and then nothing is said here.
-/

namespace Dataflow

namespace Plan

variable {ω : Type} {p : Plan} {b : Behaviour ω} {config : ExecutorConfig} {m m' : Machine ω}
  {s x : StageId} {c : ChannelId}

/-! ## What can be reached -/

/-- The least set of stages such that a stage is in it if all its predecessors are and if every
channel is published that feeds one of its tasks from another stage. -/
inductive Reached (p : Plan) (published : ChannelId → Prop) : StageId → Prop
  | intro {s : StageId} (hs : s < p.stages.length)
      (hpredecessors : ∀ q ∈ (p.stage s).predecessors, Reached p published q)
      (hfed : ∀ t ∈ (p.stage s).tasks, ∀ i c, (p.graph.task t).inputChannel i = some c →
        (p.graph.channel c).producer ∉ (p.stage s).tasks → published c) :
      Reached p published s

theorem Reached.mono {published published' : ChannelId → Prop} (h : p.Reached published s)
    (himp : ∀ c, published c → published' c) : p.Reached published' s := by
  induction h with
  | intro hs _ hfed ih =>
    exact .intro hs ih fun t ht i c hc hprod => himp c (hfed t ht i c hc hprod)

theorem Reached.lt {published : ChannelId → Prop} (h : p.Reached published s) :
    s < p.stages.length := by
  cases h with
  | intro hs _ _ => exact hs

/-- A channel is published, by an execution of the stage of its producer. -/
def HasPublished (p : Plan) (here : Midway ω) (c : ChannelId) : Prop :=
  ∃ report ∈ here.reports, (p.graph.channel c).producer ∈ (p.stage report.stage).tasks ∧
    ∃ i ∈ report.instances, here.machine.state.get? c = some i

/-- A plan without loop heads. -/
structure IsLoopFree (p : Plan) : Prop where
  orderly : ∀ s < p.stages.length, p.IsOrderly s
  plain : ∀ s < p.stages.length, p.IsPlain s
  loopHead : ∀ s, (p.stage s).loopHead = none
  loopHeadStage : ∀ s < p.stages.length, (p.stage s).loopHeadStage = none
  rises : ∀ s, ∀ q ∈ (p.stage s).predecessors, q < s ∧ s < p.stages.length
  feeds : ∀ s < p.stages.length, ∀ t ∈ (p.stage s).tasks, ∀ i c,
    (p.graph.task t).inputChannel i = some c → p.isFedExternally t i = true →
      ∃ q ∈ (p.stage s).predecessors, p.Leaves q c

/-- What is published is so by an execution of the stage of its producer. -/
theorem Published.hasPublished_iff {here : Midway ω} (h : p.Published here)
    (horderly : ∀ s < p.stages.length, p.IsOrderly s)
    (hstages : ∀ r ∈ here.reports, r.stage < p.stages.length) :
    p.HasPublished here c ↔ (here.machine.state.get? c).isSome = true := by
  rw [Option.isSome_iff_exists]
  constructor
  · rintro ⟨-, -, -, i, -, hi⟩
    exact ⟨i, hi⟩
  · rintro ⟨i, hi⟩
    obtain ⟨before, report, after, heq, hstage, hmem, -⟩ := h.last c i hi
    have hreport : report ∈ here.reports := heq ▸ List.mem_append_right _ List.mem_cons_self
    exact ⟨report, hreport, ((horderly _ (hstages _ hreport)).placed _).mp hstage, i, hmem, hi⟩

/-! ## What a stage waits for -/

/-- A task of a plain stage can run, as far as other stages are concerned, iff what they feed is
published. -/
theorem inboundReady_iff (hp : p.IsPlain s) {t : TaskId} (ht : t ∈ (p.stage s).tasks) {memory : ω}
    {state : ExecutionState} : p.inboundReady b memory state t = true ↔
      ∀ i c, (p.graph.task t).inputChannel i = some c → p.isFedExternally t i = true →
        (state.get? c).isSome = true := by
  refine ⟨fun h i c => published_of_inboundReady (hp.plain t ht) h, fun h => ?_⟩
  unfold inboundReady readiness
  simp only [hp.plain t ht]
  rw [if_pos (List.all_eq_true.mpr fun i hi => ?_)]
  · rfl
  obtain ⟨c, hc⟩ := hp.fed t ht i (List.mem_range.mp hi)
  rw [hc, Bool.or_eq_true, Bool.not_eq_true', Option.any_some]
  unfold ExecutionState.contains
  rw [Std.TreeMap.contains_eq_isSome_getElem?]
  exact (Bool.eq_false_or_eq_true (p.isFedExternally t i)).symm.imp_right (h i c hc)

/-- A stage leaves the channels of other stages alone. -/
theorem Commits.get?_of_not_mem {report : StageReport} (h : p.Commits s m report m')
    (hc : (p.graph.channel c).producer ∉ (p.stage s).tasks) :
    m'.state.get? c = m.state.get? c := by
  refine h.others c fun hno => hc ?_
  obtain ⟨i, hi, rfl⟩ := List.mem_map.mp hno.1
  obtain ⟨x, hx, hprod⟩ := List.mem_map.mp (h.produced i hi)
  exact hprod ▸ h.executed x hx

/-- What is published stays published. -/
theorem Commits.isSome_get? {report : StageReport} (h : p.Commits s m report m')
    (hc : (m.state.get? c).isSome = true) : (m'.state.get? c).isSome = true := by
  by_cases hnew : c ∈ report.instances.map (fun i => (m'.ledger.get i).channel) ∧
      p.isOutward c = true
  · obtain ⟨i, hi, rfl⟩ := List.mem_map.mp hnew.1
    rw [h.outward i hi hnew.2]
    rfl
  · rw [h.others c hnew]
    exact hc

namespace IsLoopFree

variable {a : Agenda}

/-- What is fed through the state is what another stage produces. -/
theorem isFedExternally_iff (hp : p.IsLoopFree) (hs : s < p.stages.length) {t : TaskId}
    (ht : t ∈ (p.stage s).tasks) {i : Nat} (hc : (p.graph.task t).inputChannel i = some c) :
    p.isFedExternally t i = true ↔ (p.graph.channel c).producer ∉ (p.stage s).tasks := by
  constructor
  · intro hx hprod
    obtain ⟨q, hq, -, hq', -⟩ := hp.feeds s hs t ht i c hc hx
    have hlt := (hp.rises s q hq).1
    have hstage := (((hp.orderly q (hlt.trans hs)).placed _).mpr hq').symm.trans
      (((hp.orderly s hs).placed _).mpr hprod)
    exact Nat.ne_of_lt hlt (Option.some.inj hstage)
  · intro hprod
    rw [isFedExternally_eq hc, Bool.or_eq_true, bne_iff_ne,
      ((hp.orderly s hs).placed t).mpr ht]
    exact Or.inr fun heq => hprod (((hp.orderly s hs).placed _).mp heq)

/-- A stage is pending until it has been executed. -/
theorem isPending_rearm (hp : p.IsLoopFree) (hs : s < p.stages.length) {memory : ω} :
    (p.rearm b memory s a).isPending x = true ↔ a.isPending x = true ∧ x ≠ s :=
  isPending_rearm_apart (hp.loopHead s) (hp.loopHeadStage s hs)

theorem isExecutable_iff (hp : p.IsLoopFree) (hs : s < p.stages.length) :
    p.isExecutable b a m s = true ↔ a.isPending s = true ∧
      (∀ q ∈ (p.stage s).predecessors, a.isPending q = false) ∧
      ∀ t ∈ (p.stage s).tasks, ∀ i c, (p.graph.task t).inputChannel i = some c →
        (p.graph.channel c).producer ∉ (p.stage s).tasks → (m.state.get? c).isSome = true := by
  rw [isExecutable_eq_true_iff]
  refine and_congr_right fun _ => and_congr_right fun _ => forall₂_congr fun t ht => ?_
  rw [inboundReady_iff (hp.plain s hs) ht]
  exact forall₃_congr fun i c hc => by rw [hp.isFedExternally_iff hs ht hc]

/-- **No stage execution makes an earlier stage executable.** -/
theorem isExecutable_of_lt (hp : p.IsLoopFree) (hs : s < p.stages.length) (hlt : x < s)
    {report : StageReport} (hc : p.Commits s m report m')
    (h : p.isExecutable b (p.rearm b m'.memory s a) m' x = true) :
    p.isExecutable b a m x = true := by
  have hx := hlt.trans hs
  obtain ⟨hpending, hpreds, hfed⟩ := (hp.isExecutable_iff hx).mp h
  refine (hp.isExecutable_iff hx).mpr ⟨((hp.isPending_rearm hs).mp hpending).1, fun q hq => ?_,
    fun t ht i c hin hprod => ?_⟩
  · refine Bool.eq_false_iff.mpr fun hno => ?_
    have hne := Nat.ne_of_lt ((hp.rises x q hq).1.trans hlt)
    exact absurd ((hp.isPending_rearm hs).mpr ⟨hno, hne⟩) (Bool.eq_false_iff.mp (hpreds q hq))
  · -- the producer is in a stage before the one at hand
    obtain ⟨q, hq, -, hq', -⟩ := hp.feeds x hx t ht i c hin
      ((hp.isFedExternally_iff hx ht hin).mpr hprod)
    have hlt' := (hp.rises x q hq).1
    rw [← hc.get?_of_not_mem fun hno => ?_]
    · exact hfed t ht i c hin hprod
    · have hstage := (((hp.orderly q (hlt'.trans hx)).placed _).mpr hq').symm.trans
        (((hp.orderly s hs).placed _).mpr hno)
      exact Nat.ne_of_lt (hlt'.trans hlt) (Option.some.inj hstage)

end IsLoopFree

/-! ## Between stage executions -/

/-- The stages that were executed, in order. -/
def Midway.stages (here : Midway ω) : List StageId := here.reports.map StageReport.stage

theorem Midway.length_stages {n : Nat} {here : Midway ω} (h : p.midway b config m n = some here) :
    here.stages.length = n := by
  unfold Midway.stages
  rw [List.length_map, length_reports h]

/-- At an earlier point of an execution the first of these stages were executed. -/
theorem Midway.stages_eq_take {k n : Nat} {here there : Midway ω} (hk : k ≤ n)
    (hhere : p.midway b config m k = some here) (hthere : p.midway b config m n = some there) :
    here.stages = there.stages.take k := by
  obtain ⟨here', hhere', hpast⟩ := exists_midway_of_le hk hthere
  obtain rfl := Option.some.inj (hhere.symm.trans hhere')
  exact (List.prefix_iff_eq_take.mp (hpast.map StageReport.stage)).trans
    (congrArg there.stages.take (Midway.length_stages hhere))

/-- What is known of an execution of a plan without loops between two stage executions. -/
structure Ascent (p : Plan) (b : Behaviour ω) (extra : InstanceId → Nat) (here : Midway ω) :
    Prop where
  pending : ∀ x, here.agenda.isPending x = true ↔ x < p.stages.length ∧ x ∉ here.stages
  sorted : here.stages.Pairwise (· < ·)
  /-- What can be executed comes after what was executed. -/
  next : ∀ x, p.isExecutable b here.agenda here.machine x = true → ∀ y ∈ here.stages, y < x
  reached : ∀ s ∈ here.stages, p.Reached (fun c => (here.machine.state.get? c).isSome = true) s
  committed : ∀ r ∈ here.reports, ∀ i ∈ r.instances,
    p.isOutward (here.machine.ledger.get i).channel = true →
      (here.machine.state.get? (here.machine.ledger.get i).channel).isSome = true
  complete : ∀ r ∈ here.reports, p.EmitsFully here.machine.ledger r →
    (r.executed.map ExecutedTask.task).Perm (p.stage r.stage).tasks ∧ r.unexecuted = []
  published : p.Published here
  accounted : Accounted here.machine.ledger here.machine.state extra []
  furnished : here.machine.state.IsFurnished here.machine.ledger

variable {extra : InstanceId → Nat} {here there : Midway ω}

/-- What a stage execution has emitted is known already when it has ended. -/
theorem EmitsFully.earlier {l l' : Ledger} {report : StageReport} (h : p.EmitsFully l' report)
    (hreport : p.Accounts l report) (hl : l.Later l') : p.EmitsFully l report := fun x hx o c hc => by
  have hsame : report.instances.map (fun i => (l'.get i).channel) =
      report.instances.map fun i => (l.get i).channel :=
    List.map_congr_left fun i hi => hl.channel i (hreport.known i hi)
  exact hsame ▸ h x hx o c hc

theorem ascent_start (hm : m.state.isEmpty = true) (hextra : Accounted m.ledger m.state extra [])
    (h : p.midway b config m 0 = some here) : p.Ascent b extra here := by
  obtain rfl := Option.some.inj h
  have hnone := Machine.get?_of_isEmpty hm
  refine ⟨fun x => ?_, List.Pairwise.nil, nofun, nofun, nofun, nofun, ?_, hextra, ?_⟩
  · rw [Agenda.isPending_allPending]
    exact (and_iff_left List.not_mem_nil).symm
  · refine ⟨fun c x hx => ?_, nofun, fun c x hx => ?_, fun c x hx => ?_⟩ <;>
      exact absurd (hx.symm.trans (hnone c)) nofun
  · exact fun c x hx => absurd (hx.symm.trans (hnone c)) nofun

/-- A stage that can be executed is reached. -/
theorem Ascent.reached_of_isExecutable (hp : p.IsLoopFree) (h : p.Ascent b extra here)
    (hs : s < p.stages.length) (hx : p.isExecutable b here.agenda here.machine s = true) :
    p.Reached (fun c => (here.machine.state.get? c).isSome = true) s := by
  obtain ⟨-, hpreds, hfed⟩ := (hp.isExecutable_iff hs).mp hx
  refine .intro hs (fun q hq => h.reached q ?_) hfed
  by_contra hno
  have hlt := (hp.rises s q hq).1.trans hs
  exact absurd ((h.pending q).mpr ⟨hlt, hno⟩) (Bool.eq_false_iff.mp (hpreds q hq))

/-- **One stage execution**: it is that of a stage after all others before, and what was reached and
published is so still. -/
theorem Ascent.step (hp : p.IsLoopFree) (h : p.Ascent b extra here)
    (hb : ∀ s < p.stages.length, ∀ t ∈ (p.stage s).tasks, b.Careful p.graph t)
    (hnext : p.nextExecutable b here.agenda here.machine = some s) {report : StageReport}
    (hrun : p.executeStage b config s here.machine = (.ok report, there.machine))
    (ha : there.agenda = p.rearm b there.machine.memory s here.agenda)
    (hreports : there.reports = here.reports ++ [report]) : p.Ascent b extra there := by
  have hs := nextExecutable_lt hnext
  have horderly := hp.orderly s hs
  have hexecutable := isExecutable_of_nextExecutable hnext
  obtain ⟨hl, -, hcommits, -⟩ := executeStage_commits horderly config h.published.known hrun
  have hc := hcommits report rfl
  have hpublished : p.Published there := h.published.step horderly hrun hreports
  have hstages : there.stages = here.stages ++ [s] := by
    unfold Midway.stages
    rw [hreports, List.map_append, List.map_singleton, hc.stage]
  have hmem : ∀ {x}, x ∈ there.stages ↔ x ∈ here.stages ∨ x = s := fun {x} => by
    rw [hstages, List.mem_append, List.mem_singleton]
  have hreport : ∀ {r}, r ∈ there.reports ↔ r ∈ here.reports ∨ r = report := fun {r} => by
    rw [hreports, List.mem_append, List.mem_singleton]
  refine {
    pending := fun x => ?pending
    sorted := ?sorted
    next := fun x hx y hy => ?next
    reached := fun x hx => ?reached
    committed := fun r hr i hi hout => ?committed
    complete := fun r hr hemits => ?complete
    published := hpublished
    accounted := ?accounted
    furnished := ?furnished }
  case pending =>
    rw [ha, hp.isPending_rearm hs, h.pending x, hmem, not_or, and_assoc]
  case sorted =>
    rw [hstages, List.pairwise_append]
    refine ⟨h.sorted, List.pairwise_singleton _ _, fun y hy x hx => ?_⟩
    exact List.mem_singleton.mp hx ▸ h.next s hexecutable y hy
  case next =>
    rw [ha] at hx
    have hlt : s < x := by
      rcases Nat.lt_trichotomy x s with hlt | rfl | hlt
      · -- a stage before this one would have been executable already
        have hno := hp.isExecutable_of_lt hs hlt hc hx
        rw [not_isExecutable_of_lt hnext hlt] at hno
        exact absurd hno nofun
      · have hxs := ((hp.isExecutable_iff hs).mp hx).1
        exact absurd rfl ((hp.isPending_rearm hs).mp hxs).2
      · exact hlt
    rcases hmem.mp hy with hy | rfl
    · exact (h.next s hexecutable y hy).trans hlt
    · exact hlt
  case reached =>
    rcases hmem.mp hx with hx | rfl
    · exact (h.reached x hx).mono fun _ => hc.isSome_get?
    · exact (h.reached_of_isExecutable hp hs hexecutable).mono fun _ => hc.isSome_get?
  case committed =>
    rcases hreport.mp hr with hr | rfl
    · have hchannel := hl.channel i ((h.published.reports r hr).known i hi)
      rw [hchannel] at hout ⊢
      exact hc.isSome_get? (h.committed r hr i hi hout)
    · rw [hc.outward i hi hout]
      rfl
  case complete =>
    rcases hreport.mp hr with hr | rfl
    · exact h.complete r hr (hemits.earlier (h.published.reports r hr) hl)
    · rw [hc.stage]
      exact executeStage_all horderly (hp.plain s hs) hexecutable hrun hemits
  case accounted =>
    exact (executeStage_accounted horderly (hb s hs) config h.accounted hrun).2.1
  case furnished =>
    exact executeStage_furnished horderly (hb s hs) h.accounted h.furnished hrun

theorem ascent_midway (hp : p.IsLoopFree)
    (hb : ∀ s < p.stages.length, ∀ t ∈ (p.stage s).tasks, b.Careful p.graph t)
    (hm : m.state.isEmpty = true) (hextra : Accounted m.ledger m.state extra []) :
    ∀ {n : Nat} {here : Midway ω}, p.midway b config m n = some here → p.Ascent b extra here
  | 0, _, h => ascent_start hm hextra h
  | _ + 1, _, h => by
    obtain ⟨here, s, report, hhere, hnext, hrun, ha, hreports⟩ := midway_succ h
    exact (ascent_midway hp hb hm hextra hhere).step hp hb hnext hrun ha hreports

/-- What is published at one point of an execution is so at all later ones. -/
theorem midway_isSome_get? (hp : p.IsLoopFree)
    (hb : ∀ s < p.stages.length, ∀ t ∈ (p.stage s).tasks, b.Careful p.graph t)
    (hm : m.state.isEmpty = true) (hextra : Accounted m.ledger m.state extra []) {k n : Nat}
    (hhere : p.midway b config m k = some here) (hc : (here.machine.state.get? c).isSome = true)
    (hk : k ≤ n) {there : Midway ω} (hthere : p.midway b config m n = some there) :
    (there.machine.state.get? c).isSome = true := by
  refine midway_keeps (I := fun there => (there.machine.state.get? c).isSome = true) hhere hc
    (fun hbetween hnext hrun h => ?_) hk hthere
  obtain ⟨-, -, hcommits, -⟩ := executeStage_commits (hp.orderly _ (nextExecutable_lt hnext)) config
    (ascent_midway hp hb hm hextra hbetween).published.known hrun
  exact (hcommits _ rfl).isSome_get? h

namespace Ascent

theorem length_le (h : p.Ascent b extra here) : here.reports.length ≤ p.stages.length := by
  have hnodup : here.stages.Nodup := h.sorted.imp Nat.ne_of_lt
  have hsub : ∀ s ∈ here.stages, s ∈ p.stageIds := fun s hs => List.mem_range.mpr (h.reached s hs).lt
  have hle := Digraph.length_le_of_subset hnodup hsub
  unfold Midway.stages stageIds at hle
  rwa [List.length_map, List.length_range] at hle

/-- Whatever is published is so by an execution of the stage of its producer. -/
theorem hasPublished_eq (hp : p.IsLoopFree) (h : p.Ascent b extra here) :
    p.HasPublished here = fun c => (here.machine.state.get? c).isSome = true :=
  funext fun _ => propext (h.published.hasPublished_iff hp.orderly fun r hr =>
    (h.reached r.stage (List.mem_map_of_mem hr)).lt)

/-- Where no stage can be executed any more, all stages that can be reached have been executed. -/
theorem reached_iff (hp : p.IsLoopFree) (h : p.Ascent b extra here)
    (hnext : p.nextExecutable b here.agenda here.machine = none) :
    p.Reached (p.HasPublished here) s ↔ s ∈ here.stages := by
  rw [h.hasPublished_eq hp]
  constructor
  · intro hs
    induction hs with
    | @intro s hs _ hfed ih =>
      by_contra hno
      refine List.find?_eq_none.mp hnext s (List.mem_range.mpr hs) ((hp.isExecutable_iff hs).mpr
        ⟨(h.pending s).mpr ⟨hs, hno⟩, fun q hq => ?_, hfed⟩)
      exact Bool.eq_false_iff.mpr fun hpending => ((h.pending q).mp hpending).2 (ih q hq)
  · exact h.reached s

/-- If everything was emitted that could be then all stages have been executed. -/
theorem mem_stages (hp : p.IsLoopFree) (h : p.Ascent b extra here)
    (hnext : p.nextExecutable b here.agenda here.machine = none)
    (hemits : ∀ r ∈ here.reports, p.EmitsFully here.machine.ledger r) (hs : s < p.stages.length) :
    s ∈ here.stages := by
  induction s using Nat.strong_induction_on with
  | _ s ih =>
    by_contra hno
    refine List.find?_eq_none.mp hnext s (List.mem_range.mpr hs) ((hp.isExecutable_iff hs).mpr
      ⟨(h.pending s).mpr ⟨hs, hno⟩, fun q hq => ?_, fun t ht i c hc hprod => ?_⟩)
    · have hlt := (hp.rises s q hq).1
      exact Bool.eq_false_iff.mpr fun hpending =>
        ((h.pending q).mp hpending).2 (ih q hlt (hlt.trans hs))
    · -- the stage that the channel leaves was executed, with the task that produces it
      obtain ⟨q, hq, hknown, hq', hout⟩ := hp.feeds s hs t ht i c hc
        ((hp.isFedExternally_iff hs ht hc).mpr hprod)
      have hlt := (hp.rises s q hq).1
      obtain ⟨r, hr, rfl⟩ := List.mem_map.mp (ih q hlt (hlt.trans hs))
      obtain ⟨x, hx, hxt⟩ := List.mem_map.mp
        ((h.complete r hr (hemits r hr)).1.mem_iff.mpr hq')
      have houtput := ((hp.orderly _ (hlt.trans hs)).wired.output_iff x.task _ c).mpr
        ⟨hknown, hxt.symm, rfl⟩
      obtain ⟨y, hy, rfl⟩ := List.mem_map.mp (hemits r hr x hx _ c houtput)
      exact h.committed r hr y hy hout

theorem stages_eq_iff (h : p.Ascent b extra here) :
    here.stages = p.stageIds ↔ ∀ s < p.stages.length, s ∈ here.stages := by
  refine ⟨fun heq s hs => heq ▸ List.mem_range.mpr hs, fun hall => ?_⟩
  refine List.Pairwise.eq_of_mem_iff h.sorted List.pairwise_lt_range fun s => ?_
  exact ⟨fun hs => List.mem_range.mpr (h.reached s hs).lt, fun hs => hall s (List.mem_range.mp hs)⟩

theorem pending_eq (h : p.Ascent b extra here) :
    here.agenda.pending = p.stageIds.filter fun s => !here.stages.contains s := by
  refine List.Pairwise.eq_of_mem_iff (List.pairwise_lt_range.filter _)
    (List.pairwise_lt_range.filter _) fun s => ?_
  have hrest : s ∈ p.stageIds.filter (fun s => !here.stages.contains s) ↔
      s < p.stages.length ∧ s ∉ here.stages := by
    rw [List.mem_filter, Bool.not_eq_true', ← Bool.not_eq_true, List.contains_iff_mem]
    exact and_congr_left fun _ => List.mem_range
  rw [hrest, ← h.pending s]
  unfold Agenda.pending
  rw [List.mem_filter, List.mem_range]
  exact and_iff_right_of_imp Agenda.lt_length_of_isPending

/-- The execution succeeds with all stages and stalls with fewer. -/
theorem conclude_eq (hp : p.IsLoopFree) (h : p.Ascent b extra here) :
    p.conclude b config here.agenda here.machine.memory = if here.stages = p.stageIds then .ok ()
      else .error (.stalled (p.stageIds.filter fun s => !here.stages.contains s)) := by
  have hnil : here.agenda.pending = [] ↔ here.stages = p.stageIds := by
    rw [Agenda.pending_eq_nil, h.stages_eq_iff]
    refine forall_congr' fun s => ?_
    rw [← Bool.not_eq_true, h.pending s, not_and, not_not]
  by_cases hall : here.stages = p.stageIds
  · rw [if_pos hall]
    exact conclude_eq_ok config (Agenda.pending_eq_nil.mp (hnil.mpr hall)) fun s _ t ht =>
      absurd ((hp.loopHead s).symm.trans ht) nofun
  · rw [if_neg hall, ← h.pending_eq]
    exact conclude_eq_stalled config fun hno => hall (hnil.mp hno)

end Ascent

/-- **An execution of a plan without loops comes to rest.** -/
theorem exists_rest (hp : p.IsLoopFree)
    (hb : ∀ s < p.stages.length, ∀ t ∈ (p.stage s).tasks, b.Reliable p.graph t)
    (hm : m.state.isEmpty = true) (hextra : Accounted m.ledger m.state extra []) :
    ∀ {k n : Nat} {here : Midway ω}, p.midway b config m n = some here →
      p.stages.length ≤ n + k → ∃ n there, p.midway b config m n = some there ∧
        p.nextExecutable b there.agenda there.machine = none := by
  have hcareful : ∀ s < p.stages.length, ∀ t ∈ (p.stage s).tasks, b.Careful p.graph t :=
    fun s hs t ht => (hb s hs t ht).careful
  have hstep : ∀ {n : Nat} {here : Midway ω}, p.midway b config m n = some here →
      p.nextExecutable b here.agenda here.machine = none ∨
        ∃ there, p.midway b config m (n + 1) = some there := by
    intro n here hhere
    have h := ascent_midway hp hcareful hm hextra hhere
    cases hnext : p.nextExecutable b here.agenda here.machine with
    | none => exact Or.inl rfl
    | some s =>
      have hs := nextExecutable_lt hnext
      obtain ⟨report, m', hrun⟩ := executeStage_succeeds (hp.plain s hs) (hp.orderly s hs) (hb s hs)
        config h.accounted h.furnished (inboundReady_of_nextExecutable hnext)
      refine Or.inr ⟨⟨p.rearm b m'.memory s here.agenda, here.reports ++ [report], m'⟩, ?_⟩
      unfold midway
      rw [hhere, Option.bind_some, hnext, Option.bind_some, hrun]
  intro k
  induction k with
  | zero =>
    intro n here hhere hle
    rcases hstep hhere with hnext | ⟨there, hthere⟩
    · exact ⟨n, here, hhere, hnext⟩
    · -- no stage is executed twice
      have hmost := (ascent_midway hp hcareful hm hextra hthere).length_le
      rw [length_reports hthere] at hmost
      omega
  | succ k ih =>
    intro n here hhere hle
    rcases hstep hhere with hnext | ⟨there, hthere⟩
    · exact ⟨n, here, hhere, hnext⟩
    · exact ih hthere (by omega)

end Plan

namespace PreliminaryPlan

variable {ω : Type} {p : PreliminaryPlan} {plan : Plan} {b : Behaviour ω} {m : Machine ω}

/-- A plan of tasks that are no loop heads. -/
theorem isLoopFree_of_assign (hg : p.graph.Built) (h : p.assign = .ok plan)
    (hplain : ∀ t, p.Needs t → (p.graph.task t).isLoopHead = false) : plan.IsLoopFree := by
  obtain ⟨hs, hfed, hacyclic, -⟩ := assign_eq_ok hg h
  obtain ⟨r, -, hfin⟩ := finished_of_assign hg h
  have hscope := isScope_plannedTasks hg.wired hs
  have hneeds : ∀ t, t ∈ p.plannedTasks ↔ p.Needs t := fun t => mem_plannedTasks hg.wired hs
  have hhead : ∀ {s t}, t ∈ (plan.stage s).tasks → (p.graph.task t).isLoopHead = false :=
    fun ht => hplain _ (needs_of_mem_stage hg h ht)
  have hnone : ∀ s, (plan.stage s).loopHead = none := fun s => by
    refine Option.eq_none_iff_forall_ne_some.mpr fun t ht => ?_
    obtain ⟨hmem, hisHead⟩ := (hfin.loopHead_eq_some hscope).mp ht
    rw [hhead hmem] at hisHead
    exact absurd hisHead nofun
  refine ⟨fun s hlt => (isOrderly_of_assign hg h hlt).1, fun s hlt => ?_, hnone, fun s hlt => ?_,
    fun s q => lt_of_mem_predecessors hg h, fun s hlt t ht i c hc hx => ?_⟩
  · exact hfin.isPlain hg.wired hg.unplaced hscope ((acyclic_iff_grounded hg.wired hs).mp hacyclic)
      (fun t ht => hfed t ((hneeds t).mp ht)) (hfin.length_stages ▸ hlt) fun t ht => hhead ht
  · refine (hfin.loopHeadStage_eq_none_iff hg hs (hfin.length_stages ▸ hlt)).mpr ?_
    rintro head ⟨t, -, ht, -⟩
    exact absurd ((hnone head).symm.trans ht) nofun
  · exact hfin.exists_leaves hg.wired hscope (hfin.length_stages ▸ hlt) ht hc
      (Task.not_mem_bodyInputs (hhead ht) i) hx

/-- An execution of a plan executes the stages of `E` in ascending order, as far as it may. -/
structure Ascends (plan : Plan) (b : Behaviour ω) (config : ExecutorConfig) (m : Machine ω)
    (E : List StageId) (there : Plan.Midway ω) : Prop where
  /-- So it does if the number of stage executions is not limited. -/
  rest : plan.midway b config m E.length = some there
  stages : there.stages = E
  sorted : E.Pairwise (· < ·)
  /-- These are the stages that can be reached. -/
  reached : ∀ s, s ∈ E ↔ plan.Reached (plan.HasPublished there) s
  /-- If it is allowed that many stage executions then it ends there. -/
  ends : E.length ≤ config.maxStageExecutions.toNat → plan.execute b config m =
    (if E = plan.stageIds then .ok ⟨there.reports, there.machine.state.cardinalities.toList⟩
      else .error (.stalled (plan.stageIds.filter fun s => !E.contains s)),
    { there.machine with events :=
        there.machine.events.push (.planCompleted (decide (E = plan.stageIds)) E.length) })
  /-- Otherwise it is given up before, and with what is published then the next stage could be reached,
  but none that is not in `E`. -/
  exceeds : config.maxStageExecutions.toNat < E.length → ∃ here,
    plan.midway b config m config.maxStageExecutions.toNat = some here ∧
    here.stages = E.take config.maxStageExecutions.toNat ∧
    (∀ s ∈ E.take (config.maxStageExecutions.toNat + 1),
      plan.Reached (plan.HasPublished here) s) ∧
    (∀ s, plan.Reached (plan.HasPublished here) s → s ∈ E) ∧
    plan.execute b config m = (.error (.iterationLimit config.maxStageExecutions.toNat),
      { here.machine with events :=
          here.machine.events.push (.planCompleted false config.maxStageExecutions.toNat) })
  /-- If everything is emitted that can be then these are all stages, and no task is left out. -/
  full : (∀ r ∈ there.reports, plan.EmitsFully there.machine.ledger r) →
    E = plan.stageIds ∧ ∀ r ∈ there.reports, r.unexecuted = []

/-- **An execution of a plan without loops executes exactly the stages that can be reached**, each
once and in ascending order, provided that the operators do not fail. It succeeds if these are all
stages, stalls with the others if they are not, and is given up if they are more than allowed. -/
theorem execute_ascends (hg : p.graph.Built) (h : p.assign = .ok plan)
    (hplain : ∀ t, p.Needs t → (p.graph.task t).isLoopHead = false)
    (hb : ∀ t, p.Needs t → b.Reliable p.graph t) (config : ExecutorConfig)
    (hm : m.state.isEmpty = true) : ∃ E there, Ascends plan b config m E there := by
  have hp := isLoopFree_of_assign hg h hplain
  obtain ⟨extra, hextra⟩ := (Machine.isLive_of_isEmpty hm).accounted
  have hreliable : ∀ s < plan.stages.length, ∀ t ∈ (plan.stage s).tasks, b.Reliable plan.graph t :=
    fun s _ t ht => reliable_of_assign hg h (hb t (needs_of_mem_stage hg h ht))
  have hcareful : ∀ s < plan.stages.length, ∀ t ∈ (plan.stage s).tasks, b.Careful plan.graph t :=
    fun s hs t ht => (hreliable s hs t ht).careful
  have hascent : ∀ {n here}, plan.midway b config m n = some here → plan.Ascent b extra here :=
    Plan.ascent_midway hp hcareful hm hextra
  have hstart : plan.midway b config m 0 = some _ := rfl
  obtain ⟨n, there, hthere, hnext⟩ :=
    Plan.exists_rest hp hreliable hm hextra hstart (Nat.le_add_left plan.stages.length 0)
  have hat := hascent hthere
  obtain rfl := Plan.Midway.length_stages hthere
  refine ⟨there.stages, there, hthere, rfl, hat.sorted, fun s => (hat.reached_iff hp hnext).symm,
    fun hle => ?_, fun hlt => ?_, fun hemits => ?_⟩
  · rw [Plan.execute_of_rest hthere hnext hle (hat.conclude_eq hp), Plan.length_reports hthere]
    split
    · rename_i hall
      rw [decide_eq_true hall]
      rfl
    · rename_i hmissing
      rw [decide_eq_false hmissing]
      rfl
  · obtain ⟨after, hafter, -⟩ := Plan.exists_midway_of_le (Nat.succ_le_of_lt hlt) hthere
    obtain ⟨here, s, report, hhere, hnext', hrun, ha, hreports⟩ := Plan.midway_succ hafter
    have hat' := hascent hhere
    have hstages : there.stages.take (config.maxStageExecutions.toNat + 1) = here.stages ++ [s] := by
      rw [← Plan.Midway.stages_eq_take hlt hafter hthere]
      unfold Plan.Midway.stages
      rw [hreports, List.map_append, List.map_singleton, Plan.stage_of_executeStage hrun]
    have hlen := Plan.length_reports hhere
    refine ⟨here, hhere, Plan.Midway.stages_eq_take (Nat.le_of_lt hlt) hhere hthere, fun x hx => ?_,
      fun x hx => (hat.reached_iff hp hnext).mp ?_, hlen ▸ Plan.execute_of_excess hhere hnext'⟩
    · rw [hat'.hasPublished_eq hp]
      rcases List.mem_append.mp (hstages ▸ hx) with hx | hx
      · exact hat'.reached x hx
      · rw [List.mem_singleton.mp hx]
        exact hat'.reached_of_isExecutable hp (Plan.nextExecutable_lt hnext')
          (Plan.isExecutable_of_nextExecutable hnext')
    · rw [hat'.hasPublished_eq hp] at hx
      rw [hat.hasPublished_eq hp]
      exact hx.mono fun c hc => Plan.midway_isSome_get? hp hcareful hm hextra hhere hc
        (Nat.le_of_lt hlt) hthere
  · exact ⟨hat.stages_eq_iff.mpr fun s => hat.mem_stages hp hnext hemits,
      fun r hr => (hat.complete r hr (hemits r hr)).2⟩

end PreliminaryPlan

/-! ## An operator that emits nothing -/

/-- The last but one task waits for one that has nothing to say. -/
def tapering : PreliminaryPlan := .ofGraph
  (((((((((TaskGraph.empty.addTask
    { object := 0, name := "read", platform := ⟨"a"⟩, inputs := [], outputs := [.any] }).addTask
    { object := 1, name := "step", platform := ⟨"b"⟩, inputs := [.any], outputs := [.any] }).addTask
    { object := 2, name := "thin", platform := ⟨"a"⟩, inputs := [.any], outputs := [.any] }).addTask
    { object := 3, name := "sort", platform := ⟨"b"⟩, inputs := [.any], outputs := [.any] }).addTask
    { object := 4, name := "show", platform := ⟨"c"⟩, inputs := [.any], outputs := [] }).wire
      0 0 1 0 .collection).wire 1 0 2 0 .collection).wire 2 0 3 0 .collection).wire
      1 0 4 0 .collection)

theorem built_tapering : tapering.graph.Built :=
  .wire (.wire (.wire (.wire (.addTask _ (.addTask _ (.addTask _ (.addTask _ (.addTask _
    .empty))))) rfl) rfl) rfl) rfl

theorem isLoopHead_tapering (t : TaskId) : (tapering.graph.task t).isLoopHead = false := by
  rcases t with _ | _ | _ | _ | _ | t <;> rfl

/-- Operators that fade never fail. -/
theorem reliable_fading {g : TaskGraph} {t : TaskId} (hplain : (g.task t).isLoopHead = false) :
    fading.Reliable g t :=
  ⟨⟨fun _ _ _ hx => absurd hx List.not_mem_nil, fun _ _ _ hx => absurd hx List.not_mem_nil,
    fun hhead => absurd (hplain.symm.trans hhead) nofun⟩, fun _ _ _ _ _ => rfl, fun _ _ _ _ _ => rfl⟩

/-- A stage that cannot be reached is passed over. -/
theorem tapering_ascends : ∃ plan there m', tapering.assign = .ok plan ∧
    plan.execute fading {} { memory := () } = (.error (.stalled [3]), m') ∧
    PreliminaryPlan.Ascends plan fading {} { memory := () } [0, 1, 2, 4] there := by
  obtain ⟨plan, hplan, hlen, hresult⟩ : ∃ plan, tapering.assign = .ok plan ∧
      plan.stages.length = 5 ∧
      (plan.execute fading {} { memory := () }).1 = .error (.stalled [3]) :=
    PreliminaryPlan.exists_assign_of_decide (by decide +kernel)
  obtain ⟨E, there, h⟩ := PreliminaryPlan.execute_ascends built_tapering hplan
    (fun t _ => isLoopHead_tapering t) (fun t _ => reliable_fading (isLoopHead_tapering t)) {}
    (m := { memory := () }) rfl
  have hids : plan.stageIds = [0, 1, 2, 3, 4] := by
    unfold Plan.stageIds
    rw [hlen]
    rfl
  have hE : E = [0, 1, 2, 4] := by
    by_cases hle : E.length ≤ (({} : ExecutorConfig).maxStageExecutions).toNat
    · rw [h.ends hle, hids] at hresult
      split at hresult
      · exact absurd hresult nofun
      have hleft := ExecutionError.stalled.inj (Except.error.inj hresult)
      refine List.Pairwise.eq_of_mem_iff h.sorted (by decide) fun s => ?_
      have hleft' : s ∈ [0, 1, 2, 3, 4] ∧ s ∉ E ↔ s = 3 := by
        rw [← List.mem_singleton, ← hleft, List.mem_filter, Bool.not_eq_true', ← Bool.not_eq_true,
          List.contains_iff_mem]
      have hmem : s ∈ E → s ∈ [0, 1, 2, 3, 4] := fun hs =>
        hids ▸ List.mem_range.mpr ((h.reached s).mp hs).lt
      have hothers : s ∈ [0, 1, 2, 4] ↔ s ∈ [0, 1, 2, 3, 4] ∧ s ≠ 3 := by
        simp only [List.mem_cons, List.not_mem_nil, or_false]
        constructor
        · rintro (rfl | rfl | rfl | rfl) <;> simp
        · rintro ⟨hs, hne⟩
          exact hs.imp_right (Or.imp_right (Or.imp_right fun h => h.resolve_left hne))
      rw [hothers]
      refine ⟨fun hs => ⟨hmem hs, fun heq => (hleft'.mpr heq).2 hs⟩, fun hs => ?_⟩
      by_contra hno
      exact hs.2 (hleft'.mp ⟨hs.1, hno⟩)
    · obtain ⟨here, -, -, -, -, hlimit⟩ := h.exceeds (Nat.lt_of_not_le hle)
      rw [hlimit] at hresult
      exact absurd hresult nofun
  exact ⟨plan, there, _, hplan, Prod.ext hresult rfl, hE ▸ h⟩

end Dataflow
