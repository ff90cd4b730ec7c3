import Dataflow.Proofs.Execution.Evaluation
import Dataflow.Proofs.Execution.Failures

/-!
# Operators that never fail

An operator is reliable if it succeeds whenever it is activated with data on all its inputs, and
leaves references alone. It may have a memory, and it may emit nothing. What is bound to an input has
its data as long as what the state publishes has (`ExecutionState.IsFurnished`), so a stage of such
operators succeeds when the driver takes it for ready.

* `not_falls`: no operator of a push fails.
* **`executeStage_succeeds`**: nor does a stage execution.
* `executeStage_furnished`: what is published after it has its data.
-/

namespace Dataflow

/-- The operator of a task leaves references alone, and it does not fail with data on all its
inputs. -/
structure Behaviour.Reliable {ω : Type} (b : Behaviour ω) (g : TaskGraph) (t : TaskId) :
    Prop where
  careful : b.Careful g t
  prepare : ∀ ctx m xs, TaskContext.Presents g t xs ctx → xs.length = (g.task t).inputs.length →
    (b.prepare (g.task t).operator.object ctx m).result = .ok ()
  evaluate : ∀ ctx m xs, TaskContext.Presents g t xs ctx → xs.length = (g.task t).inputs.length →
    (b.evaluate (g.task t).operator.object ctx m).result = .ok ()

namespace Workspace

variable {ω : Type} {p : Plan} {b : Behaviour ω} {s : StageId} {state : ExecutionState}
  {l l₀ : Ledger} {own : InstanceId → Nat} {a : Activator} {e : ExecutionError}

/-- An activation with data on all inputs presents them. -/
theorem Shown.presents {ctx : TaskContext} (h : Shown p a .plain l ctx)
    (hlen : a.inputs.length = (p.graph.task a.task).inputs.length)
    (hbound : ∀ i < a.inputs.length, a.isBound i = true)
    (hdata : ∀ i ∈ a.bound, (l.get i).payload ≠ none) : ∃ xs,
      TaskContext.Presents p.graph a.task xs ctx ∧
        xs.length = (p.graph.task a.task).inputs.length := by
  have hpayloads : ctx.payloads = a.inputs.map fun o => o.bind fun x => (l.get x).payload := by
    unfold TaskContext.payloads
    rw [h.inputs]
    unfold boundInputs
    rw [List.map_map]
    refine List.map_congr_left fun o _ => ?_
    cases o <;> rfl
  have hall : ∀ o ∈ ctx.payloads, o.isSome = true := by
    rw [hpayloads]
    intro o ho
    obtain ⟨input, hinput, rfl⟩ := List.mem_map.mp ho
    obtain ⟨i, hi, rfl⟩ := List.getElem_of_mem hinput
    have hi' := hbound i hi
    unfold Activator.isBound at hi'
    rw [List.getElem?_eq_getElem hi] at hi'
    obtain ⟨x, hx⟩ := Option.isSome_iff_exists.mp hi'
    have hx' : a.inputs[i] = some x := hx
    rw [hx']
    refine Option.isSome_iff_ne_none.mpr (hdata x (List.mem_filterMap.mpr ⟨some x, ?_, rfl⟩))
    exact hx' ▸ List.getElem_mem hi
  obtain ⟨xs, hxs⟩ := exists_map_some hall
  refine ⟨xs, ⟨h.task, h.activation, h.outputCount, hxs⟩, ?_⟩
  rw [← hlen, ← List.length_map some, ← hxs, hpayloads, List.length_map]

/-- A task without loop roles that is ready has all its inputs bound. -/
theorem plain_of_readiness (hplain : (p.graph.task a.task).operator.loopRoles = none) {m : ω}
    {activation : Activation} (hr : a.readiness p.graph b m = some activation) :
    activation = .plain ∧ ∀ i < (p.graph.task a.task).inputs.length, a.isBound i = true := by
  unfold Activator.readiness Dataflow.readiness at hr
  rw [hplain] at hr
  simp only at hr
  split at hr
  · rename_i hall
    exact ⟨(Option.some.inj hr).symm, fun i hi => List.all_eq_true.mp hall i (List.mem_range.mpr hi)⟩
  · exact absurd hr nofun

/-- **No operator of a push fails**, if all are reliable and none is a loop head. -/
theorem not_falls (hplain : ∀ t ∈ (p.stage s).tasks, (p.graph.task t).operator.loopRoles = none)
    (hb : ∀ t ∈ (p.stage s).tasks, b.Reliable p.graph t) (hfurnished : state.IsFurnished l₀) :
    ¬ Falls p b s state l₀ own e := by
  rintro ⟨done, w, a, activation, rest, w₁, cause, hw, hready, hcomputes, -⟩
  obtain ⟨hmem, ht, -⟩ := hw.once.head_ready hready
  obtain ⟨m, hr⟩ := hw.ready (a, activation) (hready ▸ List.mem_cons_self)
  obtain ⟨rfl, hbound⟩ := plain_of_readiness (hplain _ ht) hr
  have hlen := (hw.once.binds a hmem).length
  -- what is bound is held, and keeps its data as long as it is
  have hpresents : ∀ {l : Ledger} {ctx : TaskContext}, w.ledger.Later l →
      l.Balanced own w.run.held → Shown p a .plain l ctx → ∃ xs,
        TaskContext.Presents p.graph a.task xs ctx ∧
          xs.length = (p.graph.task a.task).inputs.length := fun hl hc hshown => by
    refine hshown.presents hlen (fun i hi => hbound i (hlen ▸ hi)) fun i hi => ?_
    have hheld := mem_held hmem hi
    have hr := Ledger.lt_size_of_references (hw.sound.balanced.references_of_mem hheld)
    rw [(hl.payload i hr (hc.references_of_mem hheld)).2]
    exact hw.data hfurnished i hheld
  generalize hreply : Except.error cause = reply at hcomputes
  cases hcomputes with
  | prepared hshown hresult hmemory =>
    obtain ⟨xs, hxs, hcount⟩ := hpresents (Ledger.Later.refl _) hw.sound.balanced hshown
    rw [(hb _ ht).prepare _ _ xs hxs hcount] at hresult
    exact absurd hresult nofun
  | evaluated hshown hresult hm hl hbalanced hshown' hr hmemory =>
    obtain ⟨xs, hxs, hcount⟩ := hpresents hl
      (hbalanced (hb _ ht).careful own _ hw.sound.balanced) hshown'
    rw [hr, (hb _ ht).evaluate _ _ xs hxs hcount] at hreply
    exact absurd hreply nofun

end Workspace

section Stage

variable {ω : Type} {p : Plan} {b : Behaviour ω} {s : StageId} {m m' : Machine ω}
  {extra : InstanceId → Nat}

/-- **A stage of reliable operators succeeds** when the driver takes it for ready. -/
theorem executeStage_succeeds (hp : p.IsPlain s) (horderly : p.IsOrderly s)
    (hb : ∀ t ∈ (p.stage s).tasks, b.Reliable p.graph t) (config : ExecutorConfig)
    (hm : Accounted m.ledger m.state extra []) (hfurnished : m.state.IsFurnished m.ledger)
    (hready : ∀ t ∈ (p.stage s).tasks, p.inboundReady b m.memory m.state t = true) :
    ∃ report m', p.executeStage b config s m = (.ok report, m') := by
  rcases hrun : p.executeStage b config s m with ⟨e | report, m'⟩
  · have hawaited : ∀ t ∈ (p.stage s).tasks, (p.graph.task t).HasAwaited := fun t ht state i hi => by
      unfold Task.awaited at hi
      rw [hp.plain t ht] at hi
      exact List.mem_range.mp hi
    exact (Workspace.not_falls hp.plain hb hfurnished (executeStage_falls_of_inboundReady horderly
      (fun t ht => (hb t ht).careful) config hm hp.fed hawaited hready hrun)).elim
  · exact ⟨report, m', rfl⟩

/-- What is published after a stage execution has its data, if what was published before had. -/
theorem executeStage_furnished (hp : p.IsOrderly s)
    (hb : ∀ t ∈ (p.stage s).tasks, b.Careful p.graph t) {config : ExecutorConfig}
    (hm : Accounted m.ledger m.state extra []) (hfurnished : m.state.IsFurnished m.ledger)
    {report : StageReport} (hrun : p.executeStage b config s m = (.ok report, m')) :
    m'.state.IsFurnished m'.ledger := by
  obtain ⟨hl, hm', -⟩ := executeStage_accounted hp hb config hm hrun
  have hending := executeStage_ending p b config s m
  rw [hrun] at hending
  cases hending with
  | @completes w m₁ m₂ hpush hpublish hrelease =>
    obtain ⟨done, hw⟩ := (Workspace.push_lawful (w := m.entering p s) hp
      (fun _ _ hi => hm.owned hi) hb rfl hm.balanced).ok hpush
    obtain ⟨-, -, ho⟩ := publish_overrides hp hpush hpublish
    obtain ⟨hl₂, hstate, -⟩ := (Machine.giveBack_ends w.run m₁).ok hrelease
    intro c i hi
    have hr := hm'.references hi
    change m₂.state.get? c = some i at hi
    rw [hstate] at hi
    rcases ho.mem c i hi with hold | ⟨hnew, -⟩
    · rw [(hl.payload i (Ledger.lt_size_of_references (hm.references hold)) hr).2]
      exact hfurnished c i hold
    · rw [((ho.later.trans hl₂).payload i (hw.once.fresh i hnew).2 hr).2]
      exact hw.data hfurnished i (List.mem_append_right _ hnew)

end Stage

/-- The operator of a task is the same in the plan. -/
theorem PreliminaryPlan.reliable_of_assign {ω : Type} {p : PreliminaryPlan} {plan : Plan}
    {b : Behaviour ω} (hg : p.graph.Built) (h : p.assign = .ok plan) {t : TaskId}
    (hb : b.Reliable p.graph t) : b.Reliable plan.graph t := by
  obtain ⟨r, -, hfin⟩ := finished_of_assign hg h
  have hop := hfin.operator t
  have hin := hfin.inputs t
  have hpresents : ∀ {xs ctx}, TaskContext.Presents plan.graph t xs ctx →
      TaskContext.Presents p.graph t xs ctx := fun hctx =>
    ⟨hctx.task, hctx.activation, hctx.outputCount.trans (by rw [hfin.outputs]), hctx.payloads⟩
  refine ⟨careful_of_assign hg h hb.careful, fun ctx m xs hctx hlen => ?_, fun ctx m xs hctx hlen => ?_⟩
  · rw [hop]
    exact hb.prepare ctx m xs (hpresents hctx) (hlen.trans (by rw [hin]))
  · rw [hop]
    exact hb.evaluate ctx m xs (hpresents hctx) (hlen.trans (by rw [hin]))

end Dataflow
