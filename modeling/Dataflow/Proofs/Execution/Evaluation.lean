import Dataflow.Proofs.Execution.Push
import Dataflow.Proofs.Plan.Partition

/-!
# What a task graph computes

The data of a channel is what its producer computes from the data of the channels it reads
(`TaskGraph.Carries`). Nothing in this depends on platforms, stages or barriers.

What the data of a channel are is defined by the graph and the functions of the tasks, as the least
relation that is closed under evaluation. It is a function where the tasks can be evaluated one after
the other, and there it is what any execution has to agree with.

* `exists_carries`, `carries_unique`: where needed tasks form no cycle, each channel they feed
  carries one datum (`Values`).
* `Behaviour.Computes`, `Behaviour.Logs`: operators that compute given functions, and operators
  that keep a record of their evaluations.
* **`serves_of_computes`**: such operators serve in the stages of a plan.
-/

namespace Dataflow

/-- What tasks compute: the data on the outputs of a task from the data on its inputs. -/
abbrev TaskFunctions := TaskId → List Payload → List (Option Payload)

/-- The data of a channel, if each task is evaluated on the data of its inputs. -/
inductive TaskGraph.Carries (g : TaskGraph) (f : TaskFunctions) : ChannelId → Payload → Prop
  | intro {c : ChannelId} {x : Payload} (data : Nat → Payload) :
      (∀ i d, (g.task (g.channel c).producer).inputChannel i = some d → Carries g f d (data i)) →
      (f (g.channel c).producer
        ((List.range (g.task (g.channel c).producer).inputs.length).map data))[(g.channel c).output]?
          = some (some x) →
      Carries g f c x

/-- One evaluation of a task: the data bound to each of its inputs. -/
structure Evaluation where
  task : TaskId
  inputs : List (Option Payload)
  deriving DecidableEq, Repr

namespace TaskContext

/-- The data bound to each input. -/
def payloads (ctx : TaskContext) : List (Option Payload) :=
  ctx.inputs.map fun x => x.bind fun x => x.content.payload

def evaluation (ctx : TaskContext) : Evaluation := ⟨ctx.task, ctx.payloads⟩

/-- A context asks a task for its outputs on the given data. -/
structure Presents (g : TaskGraph) (t : TaskId) (xs : List Payload) (ctx : TaskContext) :
    Prop where
  task : ctx.task = t
  activation : ctx.activation = .plain
  outputCount : ctx.outputCount = (g.task t).outputs.length
  payloads : ctx.payloads = xs.map some

end TaskContext

/-- The evaluation of a task, given the data of each channel. -/
def TaskGraph.evaluation (g : TaskGraph) (v : ChannelId → Payload) (t : TaskId) : Evaluation :=
  ⟨t, (g.task t).inputs.map (Option.map v)⟩

namespace Behaviour

variable {ω : Type}

/-- The operator of a task never fails, leaves references alone, emits on every connected output,
and what it emits depends on the data on its inputs only. -/
structure Computes (b : Behaviour ω) (g : TaskGraph) (f : TaskFunctions) (t : TaskId) : Prop where
  prepare : ∀ ctx m xs, TaskContext.Presents g t xs ctx →
    (b.prepare (g.task t).operator.object ctx m).Succeeds
  evaluate : ∀ ctx m xs, TaskContext.Presents g t xs ctx →
    (b.evaluate (g.task t).operator.object ctx m).Succeeds ∧
      (b.evaluate (g.task t).operator.object ctx m).emissions.map (Option.map Emission.payload) =
        f t xs
  connected : ∀ xs, xs.length = (g.task t).inputs.length → ∀ o c,
    (g.task t).outputChannel o = some c → ∃ x, (f t xs)[o]? = some (some x)

/-- The operators' memory has a record of all evaluations, in order. -/
structure Logs (b : Behaviour ω) (log : ω → List Evaluation) : Prop where
  prepare : ∀ o ctx m, log (b.prepare o ctx m).memory = log m
  evaluate : ∀ o ctx m, log (b.evaluate o ctx m).memory = log m ++ [ctx.evaluation]
  advance : ∀ o s m, log (b.advance o s m).2 = log m

/-- The same operators, with a record of their evaluations beside their memory. -/
def recording (b : Behaviour ω) : Behaviour (ω × List Evaluation) where
  prepare o ctx m :=
    let r := b.prepare o ctx m.1
    { result := r.result, emissions := r.emissions, touches := r.touches,
      memory := (r.memory, m.2) }
  evaluate o ctx m :=
    let r := b.evaluate o ctx m.1
    { result := r.result, emissions := r.emissions, touches := r.touches,
      memory := (r.memory, m.2 ++ [ctx.evaluation]) }
  loopState o m := b.loopState o m.1
  advance o s m := ((b.advance o s m.1).1, (b.advance o s m.1).2, m.2)

/-- Every behaviour can be watched. -/
theorem logs_recording (b : Behaviour ω) : b.recording.Logs Prod.snd :=
  ⟨fun _ _ _ => rfl, fun _ _ _ => rfl, fun _ _ _ => rfl⟩

/-- Watching changes nothing of what is computed. -/
theorem Computes.recording {b : Behaviour ω} {g : TaskGraph} {f : TaskFunctions} {t : TaskId}
    (h : b.Computes g f t) : b.recording.Computes g f t := by
  refine ⟨fun ctx m xs hctx => ?_, fun ctx m xs hctx => ?_, h.connected⟩
  · obtain ⟨hr, ht⟩ := h.prepare ctx m.1 xs hctx
    exact ⟨hr, ht⟩
  · obtain ⟨⟨hr, ht⟩, he⟩ := h.evaluate ctx m.1 xs hctx
    exact ⟨⟨hr, ht⟩, he⟩

end Behaviour

/-! ## Operators that add -/

/-- One more than the sum of some numbers. -/
def sumUp (xs : List (Option Payload)) : Payload :=
  .number ((xs.filterMap fun x => x.bind Payload.toNumber?).foldl (· + ·) 1)

/-- Every operator adds up its inputs and puts the result on all of its outputs. -/
def adding : Behaviour Unit where
  prepare _ _ m := { result := .ok (), memory := m }
  evaluate _ ctx m :=
    { result := .ok (), memory := m
      emissions := List.replicate ctx.outputCount (some { payload := sumUp ctx.payloads }) }
  loopState _ _ := .notStarted
  advance _ _ m := (.ok .notStarted, m)

/-- What operators compute that add up their inputs. -/
def sums (g : TaskGraph) : TaskFunctions := fun t xs =>
  List.replicate (g.task t).outputs.length (some (sumUp (xs.map some)))

theorem computes_adding (g : TaskGraph) (t : TaskId) : adding.Computes g (sums g) t := by
  refine ⟨fun ctx m xs _ => ⟨rfl, by simp [adding]⟩, fun ctx m xs h => ⟨⟨rfl, by simp [adding]⟩, ?_⟩,
    fun xs _ o c hc => ⟨sumUp (xs.map some), ?_⟩⟩
  · unfold adding sums
    rw [List.map_replicate, h.outputCount, h.payloads]
    rfl
  · unfold sums
    rw [List.getElem?_replicate, if_pos (lt_length_of_outputChannel hc)]

/-! ## Reading a context -/

section Context

variable {p : Plan} {t : TaskId} {v : ChannelId → Payload} {ctx : TaskContext}

/-- The data on the inputs of a task, in order. -/
theorem Shows.payloads_eq {activation : Activation} {data : Nat → Option Payload}
    (h : Shows p t activation data ctx) :
    ctx.payloads = (List.range (p.graph.task t).inputs.length).map data := by
  unfold TaskContext.payloads
  refine List.ext_getElem (by rw [List.length_map, List.length_map, List.length_range,
    h.inputCount]) fun i hi _ => ?_
  rw [List.length_map] at hi
  have hdata := h.data i
  unfold TaskContext.input? at hdata
  rw [List.getElem?_eq_getElem hi] at hdata
  rw [List.getElem_map, List.getElem_map, List.getElem_range]
  exact hdata

/-- A context that shows the data of the input channels. -/
theorem Shows.payloads {activation : Activation}
    (h : Shows p t activation (inputData p v t) ctx) :
    ctx.payloads = (p.graph.task t).inputs.map (Option.map v) := by
  rw [h.payloads_eq]
  refine List.ext_getElem (by simp) fun i _ hi => ?_
  rw [List.length_map] at hi
  rw [List.getElem_map, List.getElem_range, List.getElem_map]
  unfold inputData Task.inputChannel
  rw [List.getElem?_eq_getElem hi]
  rfl

theorem exists_map_some {α : Type} : ∀ {os : List (Option α)}, (∀ o ∈ os, o.isSome = true) →
    ∃ xs : List α, os = xs.map some
  | [], _ => ⟨[], rfl⟩
  | o :: os, h => by
    obtain ⟨x, rfl⟩ := Option.isSome_iff_exists.mp (h o List.mem_cons_self)
    obtain ⟨xs, rfl⟩ := exists_map_some fun o ho => h o (List.mem_cons_of_mem _ ho)
    exact ⟨x :: xs, rfl⟩

/-- The channels of a task whose inputs are all fed. -/
theorem exists_channels {task : Task}
    (hfed : ∀ i < task.inputs.length, (task.inputChannel i).isSome = true) :
    ∃ cs : List ChannelId, task.inputs = cs.map some := by
  refine exists_map_some fun o ho => ?_
  obtain ⟨i, hi, rfl⟩ := List.getElem_of_mem ho
  have := hfed i hi
  unfold Task.inputChannel at this
  rw [List.getElem?_eq_getElem hi] at this
  exact this

end Context

namespace PreliminaryPlan

section Values

variable {p : PreliminaryPlan} {f : TaskFunctions}

/-- The data of each channel that a needed task feeds. -/
def Values (p : PreliminaryPlan) (f : TaskFunctions) (v : ChannelId → Payload) : Prop :=
  ∀ c < p.graph.channels.length, p.Needs (p.graph.channel c).producer →
    ∀ x, p.graph.Carries f c x ↔ x = v c

/-- Without loop heads the needed tasks can be evaluated one after the other. -/
theorem grounded_producers (hg : p.graph.Wired) (hs : p.SinksKnown) (ha : p.Acyclic)
    (hplain : ∀ t, p.Needs t → (p.graph.task t).isLoopHead = false) :
    ∀ t, p.Needs t → Digraph.Grounded p.graph.producers t := by
  have hmem : ∀ t, t ∈ p.plannedTasks ↔ p.Needs t := fun t => mem_plannedTasks hg hs
  have hclosed : Digraph.IsClosed p.graph.producers p.plannedTasks := by
    intro t ht u hu
    obtain ⟨i, c, hc, rfl⟩ := TaskGraph.mem_producers.mp hu
    exact (hmem _).mpr (((hmem t).mp ht).producer hc)
  have hreverse : ∀ t ∈ p.plannedTasks, ∀ u ∈ p.graph.producers t,
      t ∈ p.firstRuns.forward u := by
    intro t ht u hu
    obtain ⟨i, c, hc, rfl⟩ := TaskGraph.mem_producers.mp hu
    have hn := (hmem t).mp ht
    exact (mem_forward_firstRuns hg hs).mpr
      ⟨hn, i, c, hc, rfl, Task.not_mem_bodyInputs (hplain t hn) i⟩
  intro t ht
  exact Digraph.grounded_reverse hclosed hreverse ((acyclic_iff_grounded hg hs).mp ha) t
    ((hmem t).mpr ht)

theorem exists_carries {ω : Type} {b : Behaviour ω} (hg : p.graph.Wired)
    (hground : ∀ t, p.Needs t → Digraph.Grounded p.graph.producers t)
    (hb : ∀ t, p.Needs t → b.Computes p.graph f t) : ∀ t, p.Needs t →
      ∀ c < p.graph.channels.length, (p.graph.channel c).producer = t →
        ∃ x, p.graph.Carries f c x := by
  intro t ht
  have hwalks := hground t ht
  unfold Digraph.Grounded at hwalks
  induction hwalks with
  | intro t _ ih =>
    rintro c hc rfl
    have hinput : ∀ i, ∃ x, ∀ d, (p.graph.task (p.graph.channel c).producer).inputChannel i =
        some d → p.graph.Carries f d x := by
      intro i
      cases hd : (p.graph.task (p.graph.channel c).producer).inputChannel i with
      | none => exact ⟨default, fun d h => absurd h (by simp)⟩
      | some d =>
        have hfeeds := TaskGraph.mem_producers.mpr ⟨i, d, hd, rfl⟩
        obtain ⟨x, hx⟩ := ih _ hfeeds (ht.producer hd) d ((hg.input_iff _ i d).mp hd).1 rfl
        exact ⟨x, fun d' h => Option.some.inj h ▸ hx⟩
    choose data hdata using hinput
    have hout := (hg.output_iff _ _ c).mpr ⟨hc, rfl, rfl⟩
    have hlen : ((List.range (p.graph.task (p.graph.channel c).producer).inputs.length).map
        data).length = (p.graph.task (p.graph.channel c).producer).inputs.length := by
      rw [List.length_map, List.length_range]
    obtain ⟨x, hx⟩ := (hb _ ht).connected _ hlen _ c hout
    exact ⟨x, .intro data hdata hx⟩

/-- Two sets of data on the inputs of a needed task agree. -/
theorem data_eq (hf : p.InputsFed) {t : TaskId} (ht : p.Needs t) {data data' : Nat → Payload}
    (h : ∀ i d, (p.graph.task t).inputChannel i = some d → data i = data' i) :
    (List.range (p.graph.task t).inputs.length).map data =
      (List.range (p.graph.task t).inputs.length).map data' := by
  refine List.map_congr_left ?_
  intro i hi
  obtain ⟨d, hd⟩ := Option.isSome_iff_exists.mp (hf t ht i (List.mem_range.mp hi))
  exact h i d hd

theorem carries_unique (hf : p.InputsFed) {c : ChannelId} {x y : Payload}
    (hn : p.Needs (p.graph.channel c).producer) (h : p.graph.Carries f c x)
    (h' : p.graph.Carries f c y) : x = y := by
  induction h generalizing y with
  | intro data _ hout ih =>
    obtain ⟨data', hin', hout'⟩ := h'
    rw [data_eq hf hn fun i d hd => ih i d hd (hn.producer hd) (hin' i d hd), hout'] at hout
    exact (Option.some.inj (Option.some.inj hout)).symm

theorem exists_values {ω : Type} {b : Behaviour ω} (hg : p.graph.Wired) (hs : p.SinksKnown)
    (hf : p.InputsFed) (ha : p.Acyclic)
    (hplain : ∀ t, p.Needs t → (p.graph.task t).isLoopHead = false)
    (hb : ∀ t, p.Needs t → b.Computes p.graph f t) : ∃ v, p.Values f v := by
  have hexists : ∀ c, ∃ x, c < p.graph.channels.length →
      p.Needs (p.graph.channel c).producer → p.graph.Carries f c x := by
    intro c
    by_cases hc : c < p.graph.channels.length ∧ p.Needs (p.graph.channel c).producer
    · obtain ⟨x, hx⟩ := exists_carries hg (grounded_producers hg hs ha hplain) hb _ hc.2 c hc.1 rfl
      exact ⟨x, fun _ _ => hx⟩
    · exact ⟨default, fun h h' => absurd ⟨h, h'⟩ hc⟩
  choose v hv using hexists
  refine ⟨v, fun c hc hn x => ⟨fun hx => carries_unique hf hn hx (hv c hc hn), ?_⟩⟩
  rintro rfl
  exact hv c hc hn

end Values

/-! ## Operators in stages -/

section Serving

variable {p : PreliminaryPlan} {f : TaskFunctions} {v : ChannelId → Payload}

/-- What a needed task computes from the data of its inputs is the data of its outputs. -/
theorem Values.output (hg : p.graph.Wired) (hv : p.Values f v) {t : TaskId}
    (ht : p.Needs t) {cs : List ChannelId} (hcs : (p.graph.task t).inputs = cs.map some) {o : Nat}
    {c : ChannelId} (hc : (p.graph.task t).outputChannel o = some c) :
    (f t (cs.map v))[o]? = some (some (v c)) := by
  obtain ⟨hlt, rfl, rfl⟩ := (hg.output_iff t o c).mp hc
  obtain ⟨data, hin, hout⟩ := (hv c hlt ht _).mpr rfl
  have hdata : (List.range (p.graph.task (p.graph.channel c).producer).inputs.length).map data =
      cs.map v := by
    rw [hcs, List.length_map]
    refine List.ext_getElem (by simp) ?_
    intro i hi hi'
    rw [List.length_map, List.length_range] at hi
    rw [List.getElem_map, List.getElem_map, List.getElem_range]
    have hd : (p.graph.task (p.graph.channel c).producer).inputChannel i = some cs[i] := by
      unfold Task.inputChannel
      rw [hcs, List.getElem?_map, List.getElem?_eq_getElem hi]
      rfl
    have hlt' := ((hg.input_iff _ i _).mp hd).1
    exact (hv _ hlt' (ht.producer hd) _).mp (hin i _ hd)
  rw [hdata] at hout
  exact hout

/-- An operator that computes serves where the data of the channels of its task agree with what it
computes: whoever keeps a record finds in it the evaluation on the data of the inputs. -/
theorem serves_of_outputs {ω : Type} {b : Behaviour ω} {g : TaskGraph} {tasks : List TaskId}
    {r : Runs} {plan : Plan} (h : Finished g tasks r plan) {t : TaskId} (hb : b.Computes g f t)
    {cs : List ChannelId} (hcs : (g.task t).inputs = cs.map some)
    (hout : ∀ o c, (g.task t).outputChannel o = some c → (f t (cs.map v))[o]? = some (some (v c)))
    (before : (ω → List Evaluation) → List Evaluation) :
    Serves plan b v (fun done m => ∀ log, b.Logs log →
      log m = before log ++ done.map (g.evaluation v)) t := by
  have hpayloads : ∀ ctx, Shows plan t .plain (inputData plan v t) ctx →
      ctx.payloads = (g.task t).inputs.map (Option.map v) := fun ctx hctx => by
    rw [hctx.payloads, h.inputs]
  have hpresents : ∀ ctx, Shows plan t .plain (inputData plan v t) ctx →
      TaskContext.Presents g t (cs.map v) ctx := fun ctx hctx => by
    refine ⟨hctx.task, hctx.activation, ?_, ?_⟩
    · rw [hctx.outputCount, h.outputs]
    · rw [hpayloads ctx hctx, hcs, List.map_map, List.map_map]
      rfl
  refine ⟨fun ctx m done hctx hm => ?_, fun ctx m done hctx hm => ?_⟩ <;> rw [h.operator]
  · refine ⟨hb.prepare ctx m _ (hpresents ctx hctx), fun log hlog => ?_⟩
    rw [hlog.prepare]
    exact hm log hlog
  · obtain ⟨hsucceeds, hemit⟩ := hb.evaluate ctx m _ (hpresents ctx hctx)
    refine ⟨hsucceeds, fun log hlog => ?_, fun o c hc => ?_⟩
    · have heval : ctx.evaluation = g.evaluation v t := by
        unfold TaskContext.evaluation TaskGraph.evaluation
        rw [hctx.task, hpayloads ctx hctx]
      rw [hlog.evaluate, hm log hlog, List.map_append, List.append_assoc, heval]
      rfl
    · have ho := hout o c (by rw [← h.sameWiring.output]; exact hc)
      rw [← hemit, List.getElem?_map] at ho
      obtain ⟨e, he, heq⟩ := Option.map_eq_some_iff.mp ho
      obtain ⟨e', rfl, hx⟩ := Option.map_eq_some_iff.mp heq
      exact ⟨e', he, hx⟩

/-- What an operator leaves alone holds while it serves. -/
theorem serves_and {ω : Type} {b : Behaviour ω} {plan : Plan} {I : List TaskId → ω → Prop}
    {J : ω → Prop} {t : TaskId} (h : Serves plan b v I t)
    (hJ : ∀ ctx m, J m → J (b.prepare (plan.graph.task t).operator.object ctx m).memory ∧
      J (b.evaluate (plan.graph.task t).operator.object ctx m).memory) :
    Serves plan b v (fun done m => I done m ∧ J m) t := by
  refine ⟨fun ctx m done hctx hm => ?_, fun ctx m done hctx hm => ?_⟩
  · obtain ⟨hs, hI⟩ := h.prepare ctx m done hctx hm.1
    exact ⟨hs, hI, (hJ ctx m hm.2).1⟩
  · obtain ⟨hs, hI, hout⟩ := h.evaluate ctx m done hctx hm.1
    exact ⟨hs, ⟨hI, (hJ ctx m hm.2).2⟩, hout⟩

/-- **Operators that compute serve in the stages of a plan**: they feed the data of the channels,
and whoever keeps a record finds in it the evaluations on the data of the inputs. -/
theorem serves_of_computes {ω : Type} {b : Behaviour ω} {r : Runs} {plan : Plan}
    (hg : p.graph.Wired) (hf : p.InputsFed) (hv : p.Values f v)
    (h : Finished p.graph p.plannedTasks r plan) {t : TaskId} (ht : p.Needs t)
    (hb : b.Computes p.graph f t) (before : (ω → List Evaluation) → List Evaluation) :
    Serves plan b v (fun done m => ∀ log, b.Logs log →
      log m = before log ++ done.map (p.graph.evaluation v)) t := by
  obtain ⟨cs, hcs⟩ := exists_channels (hf t ht)
  exact serves_of_outputs h hb hcs (fun o c hc => hv.output hg ht hcs hc) before

end Serving

end PreliminaryPlan

end Dataflow
