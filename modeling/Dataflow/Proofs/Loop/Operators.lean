import Dataflow.Proofs.Execution.Evaluation
import Dataflow.Proofs.Loop.Activations
import Dataflow.Proofs.Loop.Stages
import Dataflow.Proofs.Loop.Turns

/-!
# The operators of a while loop

A while loop on numbers: the source feeds a number, each task of the body a function of the number
it reads, and the head is a loop operator. In an iteration on `d` the data of the channels are
known from their producers (`WhileLoop.datum`).

* `LoopOperator.convergesAt`: in which iterations the loop ends.
* `LoopOperator.state_le_evaluate`: it goes on, but never back.
* **`LoopOperator.evaluate_at`**: what the head does in an iteration.
* **`WhileLoop.Runs.serves`**: what the other operators do in an iteration.
-/

namespace Dataflow

/-! ## The loop head -/

namespace LoopOperator

/-- Whether a loop on numbers has converged after some iterations of `step`, from `x` on. -/
def convergesAt (l : LoopOperator) (step : UInt64 → UInt64) (x : UInt64) (i : Nat) : Bool :=
  l.maxIterations.any (fun max => max ≤ i) || l.criterion.holds (.number (step^[i] x)) == some true

/-- A criterion that can be asked about every number. -/
def DecidesNumbers (l : LoopOperator) : Prop :=
  ∀ y, (l.criterion.holds (.number y)).isSome = true

/-- A loop operator as it is at a turn of its loop, if it was fresh at the start. The iteration
counts from the execution of the head on. -/
def atTurn (l : LoopOperator) (m : Nat) (τ : Turn) : LoopOperator :=
  { l with
    iterations := if τ.rank ≤ 1 then τ.iteration - 1 else τ.iteration
    state := if τ.rank ≤ 1 ∧ τ.iteration = 0 then .notStarted
      else if τ.rank ≤ m + 1 then .running else .finished }

/-- The inputs that the head reads in an iteration: those from the source or those from the body. -/
def readsIn (i j : Nat) : Prop := if i = 0 then j = 0 ∨ j = 1 else j = 2 ∨ j = 3

/-- What the head emits on a datum: the result, or the data of an iteration. -/
def emissionsOf (n : Nat) (d : Payload) (converged : Bool) : Emissions :=
  if converged then (Emissions.none n).set 2 (some ⟨d, none⟩)
  else ((Emissions.none n).set 0 (some ⟨d, none⟩)).set 1 (some ⟨d, none⟩)

theorem getElem?_emissionsOf {n o : Nat} {d : Payload} {e : Emission} {converged : Bool}
    (h : (emissionsOf n d converged)[o]? = some (some e)) :
    e.payload = d ∧ if converged = true then o = 2 else o < 2 := by
  unfold emissionsOf Emissions.none at h
  split at h
  · rename_i hc
    rw [if_pos hc]
    rw [List.getElem?_set, List.length_replicate] at h
    split at h
    · split at h
      · obtain rfl := Option.some.inj (Option.some.inj h)
        exact ⟨rfl, Eq.symm ‹2 = o›⟩
      · exact absurd h (by simp)
    · rw [List.getElem?_replicate] at h
      split at h <;> exact absurd h (by simp)
  · rename_i hc
    rw [if_neg hc]
    rw [List.getElem?_set, List.getElem?_set, List.length_set, List.length_replicate] at h
    split at h
    · split at h
      · obtain rfl := Option.some.inj (Option.some.inj h)
        exact ⟨rfl, by omega⟩
      · exact absurd h (by simp)
    · split at h
      · split at h
        · obtain rfl := Option.some.inj (Option.some.inj h)
          exact ⟨rfl, by omega⟩
        · exact absurd h (by simp)
      · rw [List.getElem?_replicate] at h
        split at h <;> exact absurd h (by simp)

theorem getElem?_emissionsOf_true {n : Nat} (d : Payload) (h : 2 < n) :
    (emissionsOf n d true)[2]? = some (some ⟨d, none⟩) := by
  simp [emissionsOf, Emissions.none, h]

theorem getElem?_emissionsOf_false {n : Nat} (d : Payload) (h : 2 < n) :
    (emissionsOf n d false)[0]? = some (some ⟨d, none⟩) := by
  have h0 : 0 < n := by omega
  simp [emissionsOf, Emissions.none, h0]

/-- A move leads to where it should, and is none backwards. -/
theorem le_of_advance {l l' : LoopOperator} {s : LoopState} (h : l.advance s = .ok l') :
    l.state ≤ l'.state := by
  unfold advance at h
  split at h
  · rename_i hmove
    obtain rfl := Except.ok.inj h
    obtain ⟨hle, rfl⟩ := LoopState.advance_eq_ok_iff.mp hmove
    exact hle
  · exact absurd h nofun

theorem state_le_finish (l : LoopOperator) (ctx : TaskContext) (data : Payload) :
    l.state ≤ (l.finish ctx data).memory.state := by
  unfold finish
  split
  · exact LoopState.le_refl _
  · split
    · exact LoopState.le_refl _
    · exact le_of_advance ‹_›

theorem state_le_decide (l : LoopOperator) (ctx : TaskContext) (data convergence : Payload) :
    l.state ≤ (l.decide ctx data convergence).memory.state := by
  unfold decide
  split
  · exact LoopState.le_refl _
  · exact l.state_le_finish ctx data
  · rw [memory_iterate]
    exact LoopState.le_refl _

/-- **A loop operator never goes back**, whatever it is asked to do. -/
theorem state_le_evaluate (l : LoopOperator) (ctx : TaskContext) :
    l.state ≤ (l.evaluate ctx).memory.state := by
  unfold evaluate
  split
  · exact LoopState.le_refl _
  · split
    · exact LoopState.le_refl _
    · split
      · exact LoopState.le_refl _
      · exact LoopState.le_trans (le_of_advance ‹_›) (state_le_decide _ ctx _ _)
  · split
    · exact LoopState.le_refl _
    · exact ({ l with iterations := l.iterations + 1 } : LoopOperator).state_le_decide ctx _ _

section Evaluate

variable {l : LoopOperator} {f : UInt64 → UInt64} {x : UInt64} {m i : Nat} {ctx : TaskContext}

/-- The loop converges when it ends on the data of the iteration. -/
theorem convergesAt_iff : l.convergesAt f x i = true ↔ l.EndsOn i (.number (f^[i] x)) := by
  unfold convergesAt EndsOn
  cases l.maxIterations <;> simp

/-- A head that is running finishes or iterates. -/
theorem decide_at (hl : l.DecidesNumbers) (hm : 0 < m) (hout : 2 < ctx.outputCount) :
    ({ l with iterations := i, state := .running } : LoopOperator).decide ctx
        (.number (f^[i] x)) (.number (f^[i] x)) =
      { result := .ok ()
        emissions := emissionsOf ctx.outputCount (.number (f^[i] x)) (l.convergesAt f x i)
        memory := l.atTurn m (Turn.next m (l.convergesAt f x) ⟨i, 1⟩) } := by
  have hne : m ≠ 0 := by omega
  let running : LoopOperator := { l with iterations := i, state := .running }
  cases hc : l.convergesAt f x i with
  | true =>
    rw [Turn.next_converged hc]
    refine (decide_ends (l := running) (convergesAt_iff.mp hc) (hl _) hout).trans ?_
    simp [emissionsOf, atTurn, running]
  | false =>
    have hends : ¬ l.EndsOn i (.number (f^[i] x)) := by
      rw [← convergesAt_iff, hc]
      exact Bool.false_ne_true
    rw [Turn.next_iterating hc]
    refine (decide_goes_on (l := running) hends (hl _) hout).trans ?_
    simp [emissionsOf, atTurn, running, hne]

/-- After an activation the head has started. -/
theorem state_atTurn_next {converges : Nat → Bool} :
    (l.atTurn m (Turn.next m converges ⟨i, 1⟩)).state ≠ .notStarted := by
  have hrank : ¬ (Turn.next m converges ⟨i, 1⟩).rank ≤ 1 := by
    cases hc : converges i with
    | true => simp [Turn.next_converged hc]
    | false => simp [Turn.next_iterating hc]
  unfold atTurn
  simp only
  rw [if_neg fun h => hrank h.1]
  split <;> simp

/-- At the turns of other stages the loop operator stays as it is. -/
theorem atTurn_next {τ : Turn} (converges : Nat → Bool) (h1 : τ.rank ≠ 1)
    (hfirst : τ.rank = 0 → τ.iteration = 0) :
    l.atTurn m (Turn.next m converges τ) = l.atTurn m τ := by
  obtain ⟨i, r⟩ := τ
  simp only at h1 hfirst
  rw [Turn.next_plain h1]
  unfold atTurn
  by_cases hlast : r = m + 1
  · simp [hlast]
    omega
  · by_cases hz : r = 0
    · simp [hz, hfirst hz]
    · have hle : ¬ r ≤ 1 := by omega
      have hle' : r + 1 ≤ m + 1 ↔ r ≤ m + 1 := by omega
      simp only [hlast, if_false, hle, hle', false_and]
      simp [hz]

theorem payload_eq {j : Nat} {d : Payload}
    (h : (ctx.input? j).bind (fun y => y.content.payload) = some d) : ctx.payload j = .ok d := by
  unfold TaskContext.payload
  rw [h]

/-- **What the head does in an iteration**: it emits the result or the data of an iteration, and is
then as it should be at the next turn. -/
theorem evaluate_at (hl : l.DecidesNumbers) (hm : 0 < m)
    (hact : ctx.activation = activationIn i) (hout : 2 < ctx.outputCount)
    (hin : ∀ j, readsIn i j →
      (ctx.input? j).bind (fun y => y.content.payload) = some (.number (f^[i] x))) :
    (l.atTurn m ⟨i, 1⟩).evaluate ctx =
      { result := .ok ()
        emissions := emissionsOf ctx.outputCount (.number (f^[i] x)) (l.convergesAt f x i)
        memory := l.atTurn m (Turn.next m (l.convergesAt f x) ⟨i, 1⟩) } := by
  rw [← decide_at hl hm hout]
  cases i with
  | zero =>
    simp only [activationIn, if_true] at hact
    have h0 := payload_eq (hin 0 (Or.inl rfl))
    have h1 := payload_eq (hin 1 (Or.inr rfl))
    rw [evaluate_eq (by simp [hact]) (fun _ => by simp [atTurn]; decide)
      (by rw [hact]; exact h0) (by rw [hact]; exact h1), hact]
    rfl
  | succ i =>
    simp only [activationIn, Nat.succ_ne_zero, if_false] at hact
    have h2 := payload_eq (hin 2 (Or.inl rfl))
    have h3 := payload_eq (hin 3 (Or.inr rfl))
    rw [evaluate_eq (by simp [hact]) (by simp [hact])
      (by rw [hact]; exact h2) (by rw [hact]; exact h3), hact]
    simp [takenUp, atTurn]

end Evaluate

end LoopOperator

/-! ## All operators -/

/-- An operator object is a loop operator: `held l memory` says which one, as it stands. -/
structure Behaviour.Hosts {ω : Type} (b : Behaviour ω) (o : ObjectId)
    (held : LoopOperator → ω → Prop) : Prop where
  state : ∀ l memory, held l memory → b.loopState o memory = l.state
  prepare : ∀ l memory ctx, held l memory →
    (b.prepare o ctx memory).Succeeds ∧ held l (b.prepare o ctx memory).memory
  evaluate : ∀ l memory ctx, held l memory →
    (b.evaluate o ctx memory).result = (l.evaluate ctx).result ∧
    (b.evaluate o ctx memory).emissions = (l.evaluate ctx).emissions ∧
    (b.evaluate o ctx memory).touches = (l.evaluate ctx).touches ∧
    held (l.evaluate ctx).memory (b.evaluate o ctx memory).memory

namespace WhileLoop

/-- What the body makes of a number, given what each task makes of one. -/
def composition (w : WhileLoop) (F : TaskId → UInt64 → UInt64) (d : UInt64) : UInt64 :=
  w.body.foldl (fun y t => F t y) d

/-- What a task feeds in an iteration on `d`; the source feeds `x`. -/
def datum (w : WhileLoop) (F : TaskId → UInt64 → UInt64) (x d : UInt64) (t : TaskId) : UInt64 :=
  if t = w.source then x
  else if t = w.head then d
  else (w.body.take (w.body.idxOf t + 1)).foldl (fun y t => F t y) d

/-- The data of the channels in an iteration on `d`. -/
def values (w : WhileLoop) (g : TaskGraph) (F : TaskId → UInt64 → UInt64) (x d : UInt64)
    (c : ChannelId) : Payload := .number (w.datum F x d (g.channel c).producer)

/-- The operators of a while loop on numbers. The source, the body and the sink compute, and they
leave the loop operator alone. -/
structure Runs {ω : Type} (w : WhileLoop) (g : TaskGraph) (b : Behaviour ω) (f : TaskFunctions)
    (F : TaskId → UInt64 → UInt64) (x : UInt64) (held : LoopOperator → ω → Prop) : Prop where
  computes : ∀ t ∈ w.tasks, t ≠ w.head → b.Computes g f t
  source : (f w.source [])[0]? = some (some (.number x))
  body : ∀ t ∈ w.body, ∀ y, (f t [.number y])[0]? = some (some (.number (F t y)))
  hosts : b.Hosts (g.task w.head).operator.object held
  keeps : ∀ t ∈ w.tasks, t ≠ w.head → ∀ l ctx memory, held l memory →
    held l (b.prepare (g.task t).operator.object ctx memory).memory ∧
      held l (b.evaluate (g.task t).operator.object ctx memory).memory

variable {w : WhileLoop} {F : TaskId → UInt64 → UInt64} {x d : UInt64}

theorem datum_source : w.datum F x d w.source = x := if_pos rfl

/-- A task of the loop feeds output 0, but for the head. -/
theorem Links.output_eq {t u : TaskId} {o i : Nat} (hl : w.Links t o u i) (hne : t ≠ w.head) :
    o = 0 := by
  cases hl with
  | start | startConvergence | step | back | backConvergence => rfl
  | enter | result => exact absurd rfl hne

/-- Feedback comes from the last task of the body. -/
theorem Links.exists_last {u t : TaskId} {o i : Nat} (hl : w.Links u o t i) (hi : 2 ≤ i) :
    ∃ before, w.body = before ++ [u] := by
  cases hl with
  | back hb | backConvergence hb => exact ⟨_, hb⟩
  | start | startConvergence | enter | step | result => omega

end WhileLoop

/-- The inputs of a task that reads one channel. -/
theorem inputs_eq_singleton {t : Task} {c : ChannelId} (hlen : t.inputs.length = 1)
    (hc : t.inputChannel 0 = some c) : t.inputs = [c].map some := by
  obtain ⟨o, ho⟩ := List.length_eq_one_iff.mp hlen
  unfold Task.inputChannel at hc
  rw [ho] at hc ⊢
  exact congrArg (fun o => [o]) hc

namespace TaskGraph.IsWhile

variable {g : TaskGraph} {w : WhileLoop} (hw : g.IsWhile w) {F : TaskId → UInt64 → UInt64}
  {x d : UInt64}
include hw

theorem datum_head : w.datum F x d w.head = d := by
  unfold WhileLoop.datum
  rw [if_neg (Ne.symm hw.distinct.source_ne_head), if_pos rfl]

theorem datum_body {t : TaskId} {before after : List TaskId} (h : w.body = before ++ t :: after) :
    w.datum F x d t = F t (before.foldl (fun y t => F t y) d) := by
  obtain ⟨-, -, h1, -, h2, -, hn⟩ := hw.distinct
  have ht : t ∈ w.body := by
    rw [h]
    simp
  have hne : ∀ u, u ∉ w.body → t ≠ u := fun u hu he => hu (he ▸ ht)
  unfold WhileLoop.datum
  rw [if_neg (hne _ h1), if_neg (hne _ h2), h, idxOf_of_nodup (h ▸ hn),
    List.take_append, List.take_of_length_le (by omega)]
  simp

/-- The last task of the body feeds the outcome of the iteration. -/
theorem datum_last {t : TaskId} {before : List TaskId} (h : w.body = before ++ [t]) :
    w.datum F x d t = w.composition F d := by
  rw [hw.datum_body h]
  unfold WhileLoop.composition
  rw [h, List.foldl_append]
  rfl

/-- What a task of the body reads, it makes into what it feeds. -/
theorem datum_of_links {u t : TaskId} {i : Nat} (ht : t ∈ w.body) (hl : w.Links u 0 t i) :
    w.datum F x d t = F t (w.datum F x d u) := by
  obtain ⟨-, -, -, -, hhb, hkb, -⟩ := hw.distinct
  rcases hl.cases with ⟨-, -, he⟩ | ⟨he, -, rest, hb⟩ | ⟨before, after, hb⟩ | ⟨-, he⟩ | ⟨-, -, he⟩
  · exact absurd (he ▸ ht) hhb
  · have hb' : w.body = [] ++ t :: rest := hb
    rw [hw.datum_body hb', he, hw.datum_head]
    rfl
  · have hb' : w.body = (before ++ [u]) ++ t :: after := by simpa using hb
    rw [hw.datum_body hb', hw.datum_body hb, List.foldl_append]
    rfl
  · exact absurd (he ▸ ht) hhb
  · exact absurd (he ▸ ht) hkb

/-- Nothing reads the sink. -/
theorem not_links_sink {t : TaskId} {o i : Nat} : ¬ w.Links w.sink o t i := by
  obtain ⟨-, hsk, -, hhk, -, hkb, -⟩ := hw.distinct
  intro hl
  rcases hl.cases with ⟨he, -⟩ | ⟨he, -⟩ | ⟨before, after, hl⟩ | ⟨⟨before, hl⟩, -⟩ | ⟨he, -⟩
  · exact hsk he.symm
  · exact hhk he.symm
  · exact hkb (WhileLoop.mem_of_step hl).1
  · exact hkb (by simp [hl])
  · exact hhk he.symm

/-- The channel on an output of a task has a reader. -/
theorem exists_reader {t : TaskId} {o : Nat} {c : ChannelId}
    (h : (g.task t).outputChannel o = some c) : ∃ u i, w.Links t o u i ∧
      (g.task u).inputChannel i = some c := by
  obtain ⟨u, i, hj, hin⟩ := hw.built.exists_reader h
  exact ⟨u, i, (hw.joins _ _ _ _).mp hj, hin⟩

end TaskGraph.IsWhile

namespace WhileLoop.Runs

variable {ω : Type} {p : PreliminaryPlan} {plan : Plan} {w : WhileLoop} {b : Behaviour ω}
  {f : TaskFunctions} {F : TaskId → UInt64 → UInt64} {x d : UInt64}
  {held : LoopOperator → ω → Prop}

/-- What an operator computes are the data of its channels. -/
theorem outputs (h : p.PlansWhile w) (hb : w.Runs p.graph b f F x held) {t : TaskId}
    (ht : t ∈ w.tasks) (hne : t ≠ w.head) : ∃ cs : List ChannelId,
      (p.graph.task t).inputs = cs.map some ∧ ∀ o c, (p.graph.task t).outputChannel o = some c →
        (f t (cs.map (w.values p.graph F x d)))[o]? = some (some (w.values p.graph F x d c)) := by
  have hout : ∀ o c, (p.graph.task t).outputChannel o = some c →
      o = 0 ∧ w.values p.graph F x d c = .number (w.datum F x d t) := fun o c hc => by
    obtain ⟨u, i, hl, -⟩ := h.graph.exists_reader hc
    obtain ⟨-, hp, -⟩ := (h.graph.built.wired.output_iff _ _ _).mp hc
    refine ⟨hl.output_eq hne, ?_⟩
    unfold values
    rw [hp]
  have hone : ∀ {u o}, w.Links u o t 0 → (p.graph.task t).inputs.length = 1 →
      ∃ c, (p.graph.task t).inputs = [c].map some ∧
        w.values p.graph F x d c = .number (w.datum F x d u) := fun hl hlen => by
    obtain ⟨c, hc, -, -, rfl, -⟩ := h.graph.exists_input hl
    exact ⟨c, inputs_eq_singleton hlen hc, rfl⟩
  simp only [WhileLoop.tasks, List.mem_cons] at ht
  rcases ht with rfl | rfl | rfl | ht
  · refine ⟨[], List.eq_nil_of_length_eq_zero h.graph.source, fun o c hc => ?_⟩
    obtain ⟨rfl, hv⟩ := hout o c hc
    rw [hv, datum_source]
    exact hb.source
  · exact absurd rfl hne
  · obtain ⟨c, hin, -⟩ := hone .result h.graph.sink
    refine ⟨[c], hin, fun o c hc => ?_⟩
    obtain ⟨u, i, hl, -⟩ := h.graph.exists_reader hc
    exact absurd hl h.graph.not_links_sink
  · obtain ⟨u, hl⟩ := WhileLoop.exists_links ht
    obtain ⟨c, hin, hv⟩ := hone hl (h.graph.body t ht)
    refine ⟨[c], hin, fun o c' hc => ?_⟩
    obtain ⟨rfl, hv'⟩ := hout o c' hc
    rw [hv', List.map_singleton, hv, h.graph.datum_of_links ht hl]
    exact hb.body t ht _

/-- **What the operators apart from the head do in an iteration.** -/
theorem serves (h : p.PlansWhile w) (hb : w.Runs p.graph b f F x held)
    (hfin : PreliminaryPlan.Finished p.graph p.plannedTasks p.firstRuns plan) {t : TaskId}
    (ht : t ∈ w.tasks) (hne : t ≠ w.head) (l : LoopOperator)
    (before : (ω → List Evaluation) → List Evaluation) :
    Serves plan b (w.values p.graph F x d) (fun done memory => (∀ log, b.Logs log → log memory =
      before log ++ done.map (p.graph.evaluation (w.values p.graph F x d))) ∧ held l memory) t := by
  obtain ⟨cs, hcs, hout⟩ := outputs (d := d) h hb ht hne
  refine PreliminaryPlan.serves_and
    (PreliminaryPlan.serves_of_outputs hfin (hb.computes t ht hne) hcs hout before)
    fun ctx memory hl => ?_
  rw [hfin.operator]
  exact hb.keeps t ht hne l ctx memory hl

end WhileLoop.Runs

end Dataflow
