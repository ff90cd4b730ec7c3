import Dataflow.Proofs.Loop.Nested.Standing

/-!
# From spot to spot of a loop inside of a loop

The stage execution of the part that is next leads to the next spot: what the part emits
(`Replies`), what is published of it and what the agenda then says (`Stands.pending_rearm`). So a
loop inside of a loop follows its course (`Planned.follows`).

Each part has a stage of its own, so that a step is the execution of one task. Two heads are treated
alike: a head passes on what it reads, to its body or beyond, as its criterion says, and the number it
decides on is an iterate of the number from the source. Where the inner head has finished and the
outer one asks for more there is no next spot, and there the course ends.
-/

namespace Dataflow

namespace NestedLoop

section Steps

variable {ω : Type} {p : PreliminaryPlan} {w : NestedLoop} {plan : Plan} {b : Behaviour ω}
  {f : TaskFunctions} {q : Program} {held : Part → LoopOperator → ω → Prop} {m₀ m : Machine ω}
  {τ : Spot} {a : Agenda} {reports : Array StageReport} {k : Part}

/-! ## What a part replies -/

/-- What the part that is next replies. -/
structure Replies (w : NestedLoop) (b : Behaviour ω) (q : Program)
    (held : Part → LoopOperator → ω → Prop) (m : Machine ω) (τ : Spot) (k : Part) (r : Reply ω) :
    Prop where
  /-- It emits what is read next. -/
  emits : ∀ u o l i, (u, o, l, i) ∈ Part.links → (q.next τ).part = some l →
    i ∈ (q.next τ).inputs → u = k ∧ ∃ e, r.emissions[o]? = some (some e) ∧
      e.payload = .number (q.datum (q.next τ))
  /-- A head emits no result while its loop is running. -/
  quiet : k.isHead = true → ((q.next τ).turn k).rank ≤ 2 → ∀ e, r.emissions[2]? ≠ some (some e)
  held : ∀ k : Part, k.isHead = true →
    held k ((q.loop k).atTurn 1 ((q.next τ).turn k)) r.memory
  logged : ∃ e : Evaluation, e.task = w k ∧
    (k = .sink → e.inputs = [some (.number (q.datum τ))]) ∧
    ∀ log, b.Logs log → log r.memory = log m.memory ++ [e]

/-- What holds of the operators' memory between getting ready and computing. -/
def Prepared (b : Behaviour ω) (q : Program) (held : Part → LoopOperator → ω → Prop)
    (m : Machine ω) (τ : Spot) (memory : ω) : Prop :=
  (∀ k : Part, k.isHead = true → held k ((q.loop k).atTurn 1 (τ.turn k)) memory) ∧
    ∀ log, b.Logs log → log memory = log m.memory

/-- The number on an input that the part reads. -/
theorem Stands.data_eq (h : Planned p w plan b f q held)
    (hs : Stands p w plan b q held m₀ τ a reports m) (hpart : τ.part = some k) {i : Nat}
    (hi : i ∈ τ.inputs) : m.data plan (w k) i = some (.number (q.datum τ)) := by
  obtain ⟨u, o, hlink⟩ := Spot.exists_link hpart hi
  obtain ⟨c, hc, -⟩ := h.loop.graph.exists_input hlink
  unfold Machine.data
  rw [h.inputChannel_eq, hc]
  exact (hs.inputs k hpart i hi c hc).datum

/-- Getting ready leaves the loop operators and the record alone. -/
theorem Stands.prepared (h : Planned p w plan b f q held)
    (hs : Stands p w plan b q held m₀ τ a reports m) (ctx : TaskContext) :
    Prepared b q held m τ (b.prepare (p.graph.task (w k)).operator.object ctx m.memory).memory := by
  refine ⟨fun k' hk' => ?_, fun log hlog => hlog.prepare _ _ _⟩
  by_cases he : k = k'
  · subst he
    exact ((h.operators.hosts k hk').prepare _ _ ctx (hs.held k hk')).2
  · exact (h.operators.keeps k' hk' k he _ ctx _ (hs.held k' hk')).1

/-- Computing leaves the loop operators of the other heads where they are. -/
theorem Prepared.evaluate_keeps (h : Planned p w plan b f q held) {memory : ω}
    (hm : Prepared b q held m τ memory) (hpart : τ.part = some k) (ctx : TaskContext) {k' : Part}
    (hk' : k'.isHead = true) (hne : k ≠ k') : held k' ((q.loop k').atTurn 1 ((q.next τ).turn k'))
      (b.evaluate (p.graph.task (w k)).operator.object ctx memory).memory := by
  unfold Program.next
  rw [Spot.atTurn_next (q.loop k') hk' (by rw [hpart, Ne, Option.some.injEq]; exact hne)]
  exact (h.operators.keeps k' hk' k hne _ ctx memory (hm.1 k' hk')).2

/-- What a head decides on is an iterate of the start. -/
theorem Planned.exists_iterate (h : Planned p w plan b f q held) (hk : k.isHead = true)
    (hpart : τ.part = some k) : ∃ F : UInt64 → UInt64, F^[τ.iteration] q.start = q.datum τ ∧
      (q.loop k).convergesAt F q.start τ.iteration = τ.converged q.converges q.ends := by
  obtain ⟨rfl, rfl⟩ | ⟨i, rfl, rfl⟩ | ⟨i, rfl, rfl⟩ := Spot.head_cases hk hpart
  · exact ⟨id, rfl, h.iterates⟩
  · exact ⟨q.step, rfl, rfl⟩
  · exact ⟨q.round i, rfl, rfl⟩

/-- A head passes on what it reads. -/
theorem datum_next_head (q : Program) (hk : k.isHead = true) (hpart : τ.part = some k) :
    q.datum (q.next τ) = q.datum τ := by
  unfold Program.next Program.datum
  obtain ⟨rfl, -⟩ | ⟨i, rfl, -⟩ | ⟨i, rfl, -⟩ := Spot.head_cases hk hpart
  · rfl
  · rw [Spot.next_iterate]
    split <;> rfl
  · rw [Spot.next_again]
    split <;> rfl

theorem Planned.outputs_head (h : Planned p w plan b f q held) (hk : k.isHead = true) :
    2 < (plan.graph.task (w k)).outputs.length := by
  have hresult : ∀ k : Part, k.isHead = true → ∃ x ∈ Part.links, x.1 = k ∧ x.2.1 = 2 := by decide
  obtain ⟨⟨k, o, l, i⟩, hlink, rfl, rfl⟩ := hresult k hk
  obtain ⟨c, -, ho, -⟩ := h.loop.graph.exists_input hlink
  rw [h.finished.outputs]
  exact lt_length_of_outputChannel ho

/-- **What a head does at its turn.** -/
theorem Stands.answers_head (h : Planned p w plan b f q held)
    (hs : Stands p w plan b q held m₀ τ a reports m) (hk : k.isHead = true)
    (hpart : τ.part = some k) :
    Workspace.Answers plan b m (w k) τ.activation (Prepared b q held m τ)
      (Replies w b q held m τ k) := by
  have hobject := congrArg Operator.object (h.finished.operator (w k))
  have hhosts := h.operators.hosts k hk
  obtain ⟨hact, hreads⟩ := Spot.activation_head hk hpart
  obtain ⟨hturn, hnext⟩ := Spot.turn_head q.converges q.ends hk hpart
  obtain ⟨F, hF, hconv⟩ := h.exists_iterate hk hpart
  have hafter : Turn.next 1 ((q.loop k).convergesAt F q.start) ⟨τ.iteration, 1⟩ =
      (q.next τ).turn k := by
    rw [Turn.next_head, hconv]
    exact (hnext.trans Turn.next_head).symm
  refine ⟨fun ctx _ => ?_, fun ctx memory hctx hm => ?_, fun r hr _ => ?_⟩
  · rw [hobject]
    exact ⟨(hhosts.prepare _ _ ctx (hs.held k hk)).1, hs.prepared h ctx⟩
  · rw [hobject]
    have heval := (q.loop k).evaluate_at (f := F) (x := q.start) (h.decides k hk) Nat.one_pos
      (hctx.activation.trans hact) (hctx.outputCount ▸ h.outputs_head hk) fun j hj => by
        rw [hctx.data, hs.data_eq h hpart ((hreads j).mp hj), hF]
    rw [hconv, hafter, hF] at heval
    obtain ⟨hresult, hemit, htouch, hheld⟩ := hhosts.evaluate _ _ ctx (hm.1 k hk)
    rw [hturn, heval] at hresult hemit htouch hheld
    have hout : 2 < ctx.outputCount := hctx.outputCount ▸ h.outputs_head hk
    refine ⟨⟨hresult, ?_⟩, fun u o l i hlink hl hi => ?_, fun _ hrank e he => ?_,
      fun k' hk' => ?_, ctx.evaluation, hctx.task, fun hsink => ?_, fun log hlog => ?_⟩
    · rw [htouch]
      exact fun t ht => absurd ht List.not_mem_nil
    · obtain ⟨hu, ho⟩ := Spot.reads_next hlink hl hi
      refine ⟨Option.some.inj (hu.symm.trans hpart), ⟨.number (q.datum τ), none⟩, ?_,
        by rw [datum_next_head q hk hpart]⟩
      rw [hemit, ho]
      cases τ.converged q.converges q.ends with
      | true => exact LoopOperator.getElem?_emissionsOf_true _ hout
      | false => exact LoopOperator.getElem?_emissionsOf_false _ hout
    · -- a head that has not converged emits on the outputs of an iteration
      rw [hemit] at he
      have ho := (LoopOperator.getElem?_emissionsOf he).2
      rw [← hafter, Turn.next_head, hconv] at hrank
      cases hc : τ.converged q.converges q.ends with
      | true => simp [hc] at hrank
      | false => simp [hc] at ho
    · by_cases he : k = k'
      · exact he ▸ hheld
      · exact hm.evaluate_keeps h hpart ctx hk' he
    · exact absurd hk (by rw [hsink]; decide)
    · rw [hlog.evaluate, hm.2 log hlog]
  · rw [hobject, hhosts.state _ _ (hr.held k hk), ← hafter]
    exact LoopOperator.state_atTurn_next

/-- What a part that drives no loop computes from what it reads. -/
theorem Planned.function_eq (h : Planned p w plan b f q held) (hk : k.isHead = false)
    (hpart : τ.part = some k) (hne : k ≠ .sink) :
    (f (w k) ((List.range k.arity).map fun _ => .number (q.datum τ)))[0]? =
      some (some (.number (q.datum (q.next τ)))) := by
  obtain ⟨rfl, rfl⟩ | ⟨i, rfl, rfl⟩ | ⟨i, rfl, rfl⟩ | ⟨i, -, rfl⟩ := Spot.plain_cases hk hpart
  · exact h.operators.source
  · have hnext : q.datum (q.next (.step i)) = q.step (q.step^[i] q.start) :=
      Function.iterate_succ_apply' q.step i q.start
    rw [hnext]
    exact h.operators.step _
  · exact h.operators.close _
  · exact absurd rfl hne

/-- **What a part that drives no loop does at its turn.** -/
theorem Stands.answers_plain (h : Planned p w plan b f q held)
    (hs : Stands p w plan b q held m₀ τ a reports m) (hk : k.isHead = false)
    (hpart : τ.part = some k) :
    Workspace.Answers plan b m (w k) τ.activation (Prepared b q held m τ)
      (Replies w b q held m τ k) := by
  have hobject := congrArg Operator.object (h.finished.operator (w k))
  obtain ⟨hact, hall⟩ := Spot.activation_plain hk hpart
  have hpayloads : ∀ ctx, Shows plan (w k) τ.activation (m.data plan (w k)) ctx →
      ctx.payloads = ((List.range k.arity).map fun _ => .number (q.datum τ)).map some :=
    fun ctx hctx => by
      rw [hctx.payloads_eq, h.finished.inputs, h.loop.graph.arity, List.map_map]
      exact List.map_congr_left fun i hi => hs.data_eq h hpart (hall i (List.mem_range.mp hi))
  have hpresents : ∀ ctx, Shows plan (w k) τ.activation (m.data plan (w k)) ctx →
      TaskContext.Presents p.graph (w k)
        ((List.range k.arity).map fun _ => .number (q.datum τ)) ctx := fun ctx hctx =>
    ⟨hctx.task, hctx.activation.trans hact, hctx.outputCount.trans (by rw [h.finished.outputs]),
      hpayloads ctx hctx⟩
  have hb := h.operators.computes k hk
  refine ⟨fun ctx hctx => ?_, fun ctx memory hctx hm => ?_, fun r _ hinit => ?_⟩
  · rw [hobject]
    exact ⟨hb.prepare ctx _ _ (hpresents ctx hctx), hs.prepared h ctx⟩
  · rw [hobject]
    obtain ⟨hok, hemit⟩ := hb.evaluate ctx memory _ (hpresents ctx hctx)
    refine ⟨hok, fun u o l i hlink hl hi => ?_, fun hh => ?_, fun k' hk' => ?_, ctx.evaluation,
      hctx.task, ?_, fun log hlog => ?_⟩
    · obtain ⟨hu, ho⟩ := Spot.reads_next hlink hl hi
      obtain rfl := Option.some.inj (hu.symm.trans hpart)
      have hquiet : τ.converged q.converges q.ends = false := by
        obtain ⟨rfl, -⟩ | ⟨i, rfl, -⟩ | ⟨i, rfl, -⟩ | ⟨i, rfl, -⟩ := Spot.plain_cases hk hpart <;> rfl
      rw [hquiet, if_neg Bool.false_ne_true] at ho
      subst ho
      have hne : u ≠ .sink := by
        rintro rfl
        revert hlink
        simp [Part.links]
      have hfun := h.function_eq hk hpart hne
      rw [← hemit, List.getElem?_map, Option.map_eq_some_iff] at hfun
      obtain ⟨_, he, hsome⟩ := hfun
      obtain ⟨e, rfl, hpayload⟩ := Option.map_eq_some_iff.mp hsome
      exact ⟨rfl, e, he, hpayload⟩
    · exact absurd hh (by simp [hk])
    · exact hm.evaluate_keeps h hpart ctx hk' fun he => by rw [he, hk'] at hk; simp at hk
    · rintro rfl
      exact hpayloads ctx hctx
    · rw [hlog.evaluate, hm.2 log hlog]
  · rw [hact] at hinit
    exact absurd hinit (by simp)

/-- What the part that is next does. -/
theorem Stands.execute (h : Planned p w plan b f q held)
    (hs : Stands p w plan b q held m₀ τ a reports m) (hpart : τ.part = some k)
    (config : ExecutorConfig) : ∃ report m' r,
      plan.executeStage b config (place p w k) m = (.ok report, m') ∧ Replies w b q held m τ k r ∧
        ExecutesAlone plan (place p w k) (w k) τ.activation m r report m' := by
  refine executeAlone_spec config (h.loop.keepsApart.isAlone h.finished (h.loop.needs k)) ?_ hs.rest
    (hs.isReadyFor h hpart) (J := Prepared b q held m τ)
  cases hk : k.isHead with
  | true => exact hs.answers_head h hk hpart
  | false => exact hs.answers_plain h hk hpart

/-! ## The agenda -/

theorem Planned.isInBodyOf_iff (h : Planned p w plan b f q held) {l : Part} :
    plan.isInBodyOf (place p w k) (place p w l) = true ↔ l.home = some k := by
  unfold Plan.isInBodyOf
  rw [h.loop.loopHeadStage_eq h.finished]
  cases l.home with
  | none => simp
  | some k' =>
    rw [Option.map_some, beq_iff_eq, Option.some.injEq, h.loop.place_inj, Option.some.injEq]

theorem Planned.loopHead_eq (h : Planned p w plan b f q held) (k : Part) :
    (plan.stage (place p w k)).loopHead = if k.isHead = true then some (w k) else none := by
  rw [h.loop.keepsApart.loopHead_place h.finished (h.loop.needs k), h.loop.graph.isLoopHead_eq]

/-- Where a head stands at a spot. -/
theorem Planned.headState_eq (h : Planned p w plan b f q held) (hk : k.isHead = true)
    {l : LoopOperator} {memory : ω} (hl : held k l memory) :
    plan.headState b memory (place p w k) = some l.state := by
  unfold Plan.headState
  rw [h.loopHead_eq, if_pos hk, Option.map_some, h.loopState_eq hk hl]

/-- What is pending after a head. -/
theorem Stands.pending_rearm_head (h : Planned p w plan b f q held)
    (hs : Stands p w plan b q held m₀ τ a reports m) (hk : k.isHead = true)
    (hpart : τ.part = some k) {memory : ω}
    (hheld : held k ((q.loop k).atTurn 1 ((q.next τ).turn k)) memory) (l : Part) :
    (plan.rearm b memory (place p w k) a).isPending (place p w l) = true ↔
      l ∈ (q.next τ).pending := by
  have hstate := h.headState_eq hk hheld
  have hnext := (Spot.turn_head q.converges q.ends hk hpart).2
  rw [show (q.next τ).turn k = _ from hnext, Turn.next_head] at hstate
  have hbody : ∀ l : Part, (plan.rearmBody b memory (place p w k)
      (a.setWhere (· == place p w k) .done)).isPending (place p w l) = true ↔
        l ∈ (q.next τ).pending := by
    intro l
    rw [show l ∈ (q.next τ).pending ↔ _ from Spot.pending_next_head hk hpart l]
    have hne : place p w l ≠ place p w k ↔ l ≠ k := not_congr h.loop.place_inj
    cases hc : τ.converged q.converges q.ends with
    | true =>
      have hfinished : ((q.loop k).atTurn 1 ⟨τ.iteration, 3⟩).state = .finished := by
        simp [LoopOperator.atTurn]
      simp only [hc, if_true] at hstate
      rw [hfinished] at hstate
      rw [Plan.isPending_rearmBody_finished hstate, hs.pending, hne, if_pos rfl, Bool.eq_false_iff]
      exact and_congr_right fun _ => not_congr h.isInBodyOf_iff
    | false =>
      have hrunning : ((q.loop k).atTurn 1 ⟨τ.iteration, 2⟩).state = .running := by
        simp [LoopOperator.atTurn]
      simp only [hc, Bool.false_eq_true, if_false] at hstate
      rw [hrunning] at hstate
      rw [Plan.isPending_rearmBody_running hstate, hs.pending, hne, if_neg (by simp),
        h.isInBodyOf_iff]
      exact or_congr_left (and_iff_right (hs.length ▸ h.place_lt l))
  cases hhome : k.home with
  | none =>
    rw [Plan.rearm_of_none (by rw [h.loop.loopHeadStage_eq h.finished, hhome]; rfl)]
    exact hbody l
  | some head =>
    -- the inner head is executed while the outer iteration is not closed
    obtain ⟨rfl, rfl⟩ : k = .inner ∧ head = .outer := by
      revert hk hhome
      cases k <;> simp [Part.isHead, Part.home, eq_comm]
    have hclose : Part.close ∈ (q.next τ).pending := by
      refine (Spot.pending_next_head hk hpart .close).mpr ?_
      split <;> simp [Spot.mem_pending_close hpart, Part.home]
    rw [Plan.rearm_of_left (by rw [h.loop.loopHeadStage_eq h.finished, hhome]; rfl)
      (h.place_lt .close) (h.isInBodyOf_iff.mpr rfl) ((hbody .close).mpr hclose)]
    exact hbody l

/-- What is pending after another part. -/
theorem Stands.pending_rearm_plain (h : Planned p w plan b f q held)
    (hs : Stands p w plan b q held m₀ τ a reports m) (hk : k.isHead = false)
    (hpart : τ.part = some k) {memory : ω}
    (hheld : ∀ k : Part, k.isHead = true →
      held k ((q.loop k).atTurn 1 ((q.next τ).turn k)) memory) (l : Part) :
    (plan.rearm b memory (place p w k) a).isPending (place p w l) = true ↔
      l ∈ (q.next τ).pending := by
  have hhead : (plan.stage (place p w k)).loopHead = none := by
    rw [h.loopHead_eq, if_neg (by simp [hk])]
  have hne : place p w l ≠ place p w k ↔ l ≠ k := not_congr h.loop.place_inj
  cases hhome : k.home with
  | none =>
    have hnone : (plan.stage (place p w k)).loopHeadStage = none := by
      rw [h.loop.loopHeadStage_eq h.finished, hhome]
      rfl
    rw [Plan.isPending_rearm_apart hhead hnone, hs.pending, hne]
    exact (Spot.pending_next_apart hk hhome hpart l).symm
  | some head =>
    obtain ⟨hlast, ⟨hiteration, hrank⟩, hpending⟩ :=
      Spot.pending_next_body q.converges q.ends hk hhome hpart
    have hloop : (plan.stage (place p w k)).loopHeadStage = some (place p w head) := by
      rw [h.loop.loopHeadStage_eq h.finished, hhome]
      rfl
    have hhh : head.isHead = true := (Part.home_eq_some head k hhome).1
    have hstate := h.headState_eq hhh (hheld head hhh)
    have hrunning : ((q.loop head).atTurn 1 ((q.next τ).turn head)).state = .running := by
      have hr : ((q.next τ).turn head).rank = 1 := hrank
      have hi : ((q.next τ).turn head).iteration ≠ 0 := hiteration
      simp [LoopOperator.atTurn, hr, hi]
    rw [hrunning] at hstate
    have hall : ∀ y < plan.stages.length, plan.isInBodyOf (place p w head) y = true →
        a.isPending y = true → y = place p w k := by
      intro y hy hin hpend
      obtain ⟨l, rfl⟩ := h.exists_place hy
      rw [hlast l (h.isInBodyOf_iff.mp hin) ((hs.pending l).mp hpend)]
    rw [Plan.isPending_rearm_body hhead hloop hstate, hs.pending, hne, h.loop.place_inj]
    refine Iff.trans (or_congr_left ?_) (hpending l).symm
    exact ⟨fun hl => hl.2.1, fun hl => ⟨hs.length ▸ h.place_lt l, hl, hall⟩⟩

/-! ## The next spot -/

/-- A part feeds its own channels only. -/
theorem Planned.eq_of_emits (h : Planned p w plan b f q held) {r : Reply ω} {c : ChannelId}
    {y : Payload} (he : plan.Emits (w k) r c y) {k' : Part} {o : Nat}
    (ho : (p.graph.task (w k')).outputChannel o = some c) :
    k = k' ∧ ∃ e, r.emissions[o]? = some (some e) := by
  obtain ⟨o', e, hemit, hout, -⟩ := he
  have hw := h.loop.graph.built.wired
  rw [h.finished.sameWiring.output] at hout
  obtain ⟨-, hp, hoo⟩ := (hw.output_iff _ _ _).mp hout
  obtain ⟨-, hp', hoo'⟩ := (hw.output_iff _ _ _).mp ho
  obtain rfl := hoo.symm.trans hoo'
  exact ⟨h.loop.graph.injective (hp.symm.trans hp'), e, hemit⟩

/-- The record of the sink after a stage execution. -/
theorem Stands.sink_push (hs : Stands p w plan b q held m₀ τ a reports m) (hpart : τ.part = some k)
    (hinj : Function.Injective w) {r : Reply ω} (hr : Replies w b q held m τ k r)
    {report : StageReport} {m' : Machine ω}
    (hex : ExecutesAlone plan (place p w k) (w k) τ.activation m r report m') :
    WhileLoop.SinkRecord w.outline b m₀ (reports.push report) m' (q.shown (q.next τ)) := by
  obtain ⟨e, htask, hinputs, hlogged⟩ := hr.logged
  by_cases hk : k = .sink
  · subst hk
    obtain ⟨-, he⟩ | ⟨i, -, he⟩ | ⟨i, -, he⟩ | ⟨i, rfl, -⟩ := Spot.plain_cases rfl hpart
    iterate 3 exact absurd he (by decide)
    refine hs.sink.push [q.round i q.start] ?_ fun log hlog => ⟨[e], ?_, ?_⟩
    · rw [hex.executed]
      simp [outline, Spot.activation]
    · rw [hex.memory, hlogged log hlog]
    · have hin : e.inputs = [some (.number (q.round i q.start))] := hinputs rfl
      have he : e = ⟨w .sink, [some (.number (q.round i q.start))]⟩ := by rw [← htask, ← hin]
      simp [he, outline]
  · have hshown : q.shown (q.next τ) = q.shown τ ++ [] := by
      rw [List.append_nil]
      unfold Program.next
      cases τ with
      | iterate i =>
        rw [Spot.next_iterate]
        split <;> rfl
      | again i =>
        rw [Spot.next_again]
        split <;> rfl
      | sink => exact absurd (Option.some.inj hpart).symm hk
      | read | enter | step | close | ended | stuck => rfl
    have hne : w k ≠ w .sink := hinj.ne hk
    rw [hshown]
    refine hs.sink.push [] ?_ fun log hlog => ⟨[e], ?_, ?_⟩
    · rw [hex.executed]
      simp [outline, hne]
    · rw [hex.memory, hlogged log hlog]
    · simp [outline, htask, hne]

/-- **The part that is next leads to the next spot.** -/
theorem Stands.step (h : Planned p w plan b f q held)
    (hs : Stands p w plan b q held m₀ τ a reports m) (hpart : τ.part = some k)
    (config : ExecutorConfig) : ∃ s report m', plan.nextExecutable b a m = some s ∧
      plan.executeStage b config s m = (.ok report, m') ∧
      Stands p w plan b q held m₀ (q.next τ) (plan.rearm b m'.memory s a) (reports.push report)
        m' := by
  obtain ⟨report, m', r, hrun, hr, hex⟩ := hs.execute h hpart config
  have hheld := hr.held
  rw [← hex.memory] at hheld
  refine ⟨place p w k, report, m', hs.nextExecutable h hpart, hrun, hex.rest,
    Plan.length_rearm.trans hs.length, fun l => ?_, hheld, fun l hl i hi c hc => ?_,
    fun k' hk' hrank c hc => ?_, hs.sink_push hpart h.loop.graph.injective hr hex⟩
  · cases hk : k.isHead with
    | true => exact hs.pending_rearm_head h hk hpart (hheld k hk) l
    | false => exact hs.pending_rearm_plain h hk hpart hheld l
  · -- what is read next has just been emitted
    obtain ⟨u, hlink, hu⟩ := h.loop.graph.links_of_input hc
    obtain ⟨rfl, e, he, hpayload⟩ := hr.emits _ _ _ _ hlink hl hi
    obtain ⟨c', hc', hout, -⟩ := h.loop.graph.exists_input hlink
    obtain rfl := Option.some.inj (hc'.symm.trans hc)
    exact hex.published _ _ ⟨_, e, he, (h.finished.sameWiring.output _ _).trans hout, hpayload⟩
      (h.loop.keepsApart.isOutward h.finished (h.loop.needs l) hc)
  · rw [(hex.kept c fun y he => ?_).1]
    · exact hs.result k' hk' (Spot.rank_turn_le hrank) c hc
    · obtain ⟨rfl, e, hemit⟩ := h.eq_of_emits he hc
      exact hr.quiet hk' hrank e hemit

/-- **A loop inside of a loop follows its course.** -/
theorem Planned.follows (h : Planned p w plan b f q held) (config : ExecutorConfig)
    (m₀ : Machine ω) : plan.Follows b config q.next (fun τ => τ.part = none)
      (Stands p w plan b q held m₀) := by
  refine ⟨fun τ a reports m hs hgo => ?_, fun τ a reports m hs hend =>
    hs.nextExecutable_none h hend⟩
  obtain ⟨k, hk⟩ := Option.ne_none_iff_exists'.mp hgo
  exact hs.step h hk config

end Steps

end NestedLoop

end Dataflow
