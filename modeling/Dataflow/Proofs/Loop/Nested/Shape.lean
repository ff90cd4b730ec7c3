import Dataflow.Proofs.Loop.Apart
import Mathlib.Data.Fintype.Defs

/-!
# Loops inside of loops

The task graphs of a while loop in the body of another one: a source feeds the head of the outer
loop, which feeds the initialization inputs of the head of the inner loop. The inner loop has one
task as its body, and one more task leads from its result back to the outer head. A sink reads the
result of the outer loop. The tasks are numbered in any order and run on any platforms.

* `Part`, `Part.links`: the tasks by their parts in the loops, and who feeds whom.
* `PlansNested.forward_iff`: the connections that order the parts.
* **`PlansNested.keepsApart`**: every part has a stage of its own.
-/

namespace Dataflow

namespace NestedLoop

/-- The parts of a loop inside of a loop. -/
inductive Part where
  | source
  /-- The head of the outer loop. -/
  | outer
  /-- The head of the inner loop. -/
  | inner
  /-- The body of the inner loop. -/
  | step
  /-- What leads from the result of the inner loop back to the outer one. -/
  | close
  | sink
  deriving DecidableEq, Repr

namespace Part

def all : List Part := [.source, .outer, .inner, .step, .close, .sink]

theorem mem_all (k : Part) : k ∈ all := by cases k <;> decide

instance : Fintype Part := ⟨⟨all, by decide⟩, mem_all⟩

/-- Whether a part is the head of a loop. -/
def isHead : Part → Bool
  | .outer | .inner => true
  | _ => false

/-- The number of inputs of a part. -/
def arity : Part → Nat
  | .source => 0
  | .outer | .inner => 4
  | .step | .close | .sink => 1

/-- The connections: which output of which part feeds which input of which part. -/
def links : List (Part × Nat × Part × Nat) :=
  [(.source, 0, .outer, 0), (.source, 0, .outer, 1), (.outer, 0, .inner, 0), (.outer, 0, .inner, 1),
    (.inner, 0, .step, 0), (.step, 0, .inner, 2), (.step, 0, .inner, 3), (.inner, 2, .close, 0),
    (.close, 0, .outer, 2), (.close, 0, .outer, 3), (.outer, 2, .sink, 0)]

/-- The part that a part waits for. -/
def before : Part → Option Part
  | .source => none
  | .outer => some .source
  | .inner | .sink => some .outer
  | .step | .close => some .inner

/-- How many parts come before a part on the way from the source. -/
def rank : Part → Nat
  | .source => 0
  | .outer => 1
  | .inner | .sink => 2
  | .step | .close => 3

theorem rank_lt : ∀ k l : Part, l.before = some k → k.rank < l.rank := by decide

/-- The connections that are no feedback are those to the part that waits. -/
theorem before_iff : ∀ k l : Part,
    l.before = some k ↔ ∃ x ∈ links, x.1 = k ∧ x.2.2.1 = l ∧ x.2.2.2 < 2 := by decide

/-- Only heads take feedback. -/
theorem isHead_of_feedback : ∀ x ∈ links, 2 ≤ x.2.2.2 → x.2.2.1.isHead = true := by decide

/-- Every connection has a head at one of its ends. -/
theorem isHead_or : ∀ x ∈ links, x.1.isHead = true ∨ x.2.2.1.isHead = true := by decide

/-- An output feeds one part. -/
theorem reader_unique : ∀ x ∈ links, ∀ y ∈ links, x.1 = y.1 → x.2.1 = y.2.1 →
    x.2.2.1 = y.2.2.1 := by decide

/-- The sink feeds nothing. -/
theorem ne_sink_of_link : ∀ x ∈ links, x.1 ≠ .sink := by decide

/-- Every input is fed. -/
theorem exists_link : ∀ l : Part, ∀ i < l.arity, ∃ x ∈ links, x.2.2.1 = l ∧ x.2.2.2 = i := by
  decide

end Part

end NestedLoop

/-- A loop inside of a loop: the task of each part. -/
abbrev NestedLoop := NestedLoop.Part → TaskId

open NestedLoop

/-- A graph has the tasks and the connections of a loop inside of a loop. -/
structure TaskGraph.IsNested (g : TaskGraph) (w : NestedLoop) : Prop where
  built : g.Built
  /-- The tasks are numbered in any order. -/
  perm : (Part.all.map w).Perm g.taskIds
  joins : ∀ u o t i, g.Joins u o t i ↔ ∃ k l, (k, o, l, i) ∈ Part.links ∧ w k = u ∧ w l = t
  arity : ∀ k, (g.task (w k)).inputs.length = k.arity
  roles : ∀ k, (g.task (w k)).operator.loopRoles = if k.isHead = true then some {} else none

namespace TaskGraph.IsNested

variable {g : TaskGraph} {w : NestedLoop} (hw : g.IsNested w)
include hw

/-- The parts are different tasks. -/
theorem injective : Function.Injective w := by
  have hnodup : (Part.all.map w).Nodup := hw.perm.nodup_iff.mpr List.nodup_range
  exact fun k l h => List.inj_on_of_nodup_map hnodup k.mem_all l.mem_all h

theorem exists_part {t : TaskId} : (∃ k, w k = t) ↔ t < g.tasks.length := by
  have hmem : t ∈ Part.all.map w ↔ t < g.tasks.length := by
    rw [hw.perm.mem_iff]
    exact List.mem_range
  rw [← hmem, List.mem_map]
  exact ⟨fun ⟨k, hk⟩ => ⟨k, k.mem_all, hk⟩, fun ⟨k, _, hk⟩ => ⟨k, hk⟩⟩

theorem links_of_input {l : Part} {i : Nat} {c : ChannelId}
    (h : (g.task (w l)).inputChannel i = some c) :
    ∃ k, (k, (g.channel c).output, l, i) ∈ Part.links ∧ w k = (g.channel c).producer := by
  obtain ⟨k, l', hlink, hk, hl⟩ := (hw.joins _ _ _ _).mp (hw.built.joins_of_input h)
  obtain rfl := hw.injective hl
  exact ⟨k, hlink, hk⟩

theorem exists_input {k l : Part} {o i : Nat} (h : (k, o, l, i) ∈ Part.links) :
    ∃ c, (g.task (w l)).inputChannel i = some c ∧ (g.task (w k)).outputChannel o = some c ∧
      c < g.channels.length ∧ (g.channel c).producer = w k ∧ (g.channel c).output = o :=
  hw.built.exists_input ((hw.joins (w k) o (w l) i).mpr ⟨k, l, h, rfl, rfl⟩)

theorem isLoopHead_eq (k : Part) : (g.task (w k)).isLoopHead = k.isHead := by
  unfold Task.isLoopHead Operator.isLoopHead
  rw [hw.roles]
  cases k.isHead <;> rfl

theorem mem_bodyInputs {k : Part} {i : Nat} :
    i ∈ (g.task (w k)).operator.bodyInputs ↔ k.isHead = true ∧ (i = 2 ∨ i = 3) := by
  unfold Operator.bodyInputs
  rw [hw.roles]
  cases k.isHead <;> simp

/-- What is not feedback arrives on one of the first two inputs. -/
theorem notMem_bodyInputs {k l : Part} {o i : Nat} (h : (k, o, l, i) ∈ Part.links) :
    i ∉ (g.task (w l)).operator.bodyInputs ↔ i < 2 := by
  rw [hw.mem_bodyInputs]
  constructor
  · intro hno
    by_contra hge
    have hhead := Part.isHead_of_feedback _ h (Nat.le_of_not_lt hge)
    obtain ⟨c, hc, -⟩ := hw.exists_input h
    have hlt := lt_length_of_inputChannel hc
    rw [hw.arity] at hlt
    have harity : l.arity ≤ 4 := by cases l <;> decide
    exact hno ⟨hhead, by omega⟩
  · rintro hlt ⟨-, hi⟩
    omega

end TaskGraph.IsNested

namespace PreliminaryPlan

/-- A preliminary plan of a loop inside of a loop that asks for its sink. -/
structure PlansNested (p : PreliminaryPlan) (w : NestedLoop) : Prop where
  graph : p.graph.IsNested w
  known : p.SinksKnown
  sink : w .sink ∈ p.sinks

namespace PlansNested

variable {p : PreliminaryPlan} {w : NestedLoop} (h : p.PlansNested w)
include h

theorem needs_of_links {k l : Part} {o i : Nat} (hl : (k, o, l, i) ∈ Part.links)
    (hn : p.Needs (w l)) : p.Needs (w k) := by
  obtain ⟨c, hi, -, -, hp, -⟩ := h.graph.exists_input hl
  exact hn.of_feeds ⟨i, c, hi, hp⟩

/-- Every part is needed. -/
theorem needs (k : Part) : p.Needs (w k) := by
  have hsink : p.Needs (w .sink) := .of_sink h.sink
  have houter : p.Needs (w .outer) := h.needs_of_links (o := 2) (i := 0) (by decide) hsink
  have hclose : p.Needs (w .close) := h.needs_of_links (o := 0) (i := 2) (by decide) houter
  have hinner : p.Needs (w .inner) := h.needs_of_links (o := 2) (i := 0) (by decide) hclose
  cases k with
  | source => exact h.needs_of_links (o := 0) (i := 0) (by decide) houter
  | outer => exact houter
  | inner => exact hinner
  | step => exact h.needs_of_links (o := 0) (i := 2) (by decide) hinner
  | close => exact hclose
  | sink => exact hsink

theorem needs_iff {t : TaskId} : p.Needs t ↔ ∃ k, w k = t := by
  constructor
  · exact fun hn => h.graph.exists_part.mpr (hn.lt h.graph.built.wired h.known)
  · rintro ⟨k, rfl⟩
    exact h.needs k

/-- The parts are ordered by what waits for what. -/
theorem forward_iff {l : Part} {u : TaskId} :
    p.Forward u (w l) ↔ ∃ k, l.before = some k ∧ w k = u := by
  constructor
  · rintro ⟨-, i, c, hc, rfl, hi⟩
    obtain ⟨k, hlink, hk⟩ := h.graph.links_of_input hc
    exact ⟨k, (Part.before_iff k l).mpr
      ⟨_, hlink, rfl, rfl, (h.graph.notMem_bodyInputs hlink).mp hi⟩, hk⟩
  · rintro ⟨k, hk, rfl⟩
    obtain ⟨⟨k, o, l, i⟩, hlink, rfl, rfl, hi⟩ := (Part.before_iff k l).mp hk
    obtain ⟨c, hc, -, -, hp, -⟩ := h.graph.exists_input hlink
    exact ⟨h.needs l, i, c, hc, hp, (h.graph.notMem_bodyInputs hlink).mpr hi⟩

theorem acyclic : p.Acyclic := by
  have hlt : ∀ u t, Relation.TransGen p.Forward u t →
      ∀ k l, w k = u → w l = t → k.rank < l.rank := by
    intro u t hut
    induction hut with
    | single hf =>
      rintro k l rfl rfl
      obtain ⟨k', hk', heq⟩ := h.forward_iff.mp hf
      obtain rfl := h.graph.injective heq
      exact Part.rank_lt _ _ hk'
    | tail _ hf ih =>
      rintro k l rfl rfl
      obtain ⟨k', hk', heq⟩ := h.forward_iff.mp hf
      exact Nat.lt_trans (ih k k' rfl heq) (Part.rank_lt _ _ hk')
  intro t ht
  obtain ⟨u, -, hf⟩ := Relation.TransGen.tail'_iff.mp ht
  obtain ⟨k, rfl⟩ := h.needs_iff.mp hf.1
  exact Nat.lt_irrefl _ (hlt _ _ ht k k rfl rfl)

/-- **Every part has a stage of its own.** -/
theorem keepsApart : p.KeepsApart := by
  refine ⟨h.graph.built, h.known, fun t ht i hi => ?_, h.acyclic, fun t ht i c hc => ?_,
    fun t t' i i' c hc hc' => ?_⟩
  · obtain ⟨l, rfl⟩ := h.needs_iff.mp ht
    rw [h.graph.arity] at hi
    obtain ⟨⟨k, o, l, i⟩, hlink, rfl, rfl⟩ := Part.exists_link l i hi
    obtain ⟨c, hc, -⟩ := h.graph.exists_input hlink
    rw [hc]
    rfl
  · obtain ⟨l, rfl⟩ := h.needs_iff.mp ht
    obtain ⟨k, hlink, hk⟩ := h.graph.links_of_input hc
    rw [← hk, h.graph.isLoopHead_eq, h.graph.isLoopHead_eq]
    exact Part.isHead_or _ hlink
  · obtain ⟨l, rfl⟩ := h.graph.exists_part.mpr (TaskGraph.inputChannel_lt hc)
    obtain ⟨l', rfl⟩ := h.graph.exists_part.mpr (TaskGraph.inputChannel_lt hc')
    obtain ⟨k, hlink, hk⟩ := h.graph.links_of_input hc
    obtain ⟨k', hlink', hk'⟩ := h.graph.links_of_input hc'
    obtain rfl := h.graph.injective (hk.trans hk'.symm)
    exact congrArg w (Part.reader_unique _ hlink _ hlink' rfl rfl)

end PlansNested

end PreliminaryPlan

end Dataflow
