import Dataflow.Proofs.Plan.Partition
import Mathlib.Data.List.SplitBy

/-!
# While loops

The task graphs of while loops: a source feeds the initialization inputs of a loop head, the head
feeds a chain of tasks, the last of which feeds the body inputs of the head, and a sink reads the
result. The tasks are numbered in any order and run on any platforms.

The tasks are ranked by the stage executions that reach them: source, head, one rank for each
segment of the body that runs on one platform, sink.

* `length_splitBy`: the number of segments.
* `IsWhile.links_of_input`, `IsWhile.exists_input`: who feeds whom.
* `IsWhile.rank_lt_or_joinable`: an edge that is no feedback leads to a higher rank or lies inside a
  segment.
* `PlansWhile.inputsFed`, `PlansWhile.acyclic`: conditions for planning.
-/

namespace Dataflow

/-! ## Segments -/

section Segments

variable {α : Type} (r : α → α → Bool)

/-- How often two neighbours are not related. -/
def cuts : List α → Nat
  | [] => 0
  | [_] => 0
  | a :: b :: l => (if r a b then 0 else 1) + cuts (b :: l)

theorem length_splitBy_loop {l : List α} {a : α} {segment : List α} {segments : List (List α)} :
    (List.splitBy.loop r l a segment segments).length = segments.length + 1 + cuts r (a :: l) := by
  induction l generalizing a segment segments with
  | nil => simp [List.splitBy.loop, cuts]
  | cons b l ih =>
    unfold List.splitBy.loop cuts
    cases r a b with
    | true => simp [ih]
    | false => simp [ih]; omega

/-- There is one segment more than there are cuts. -/
theorem length_splitBy {l : List α} (hl : l ≠ []) : (l.splitBy r).length = cuts r l + 1 := by
  cases l with
  | nil => exact absurd rfl hl
  | cons a l =>
    have h : (List.splitBy.loop r l a [] []).length = _ := length_splitBy_loop r
    unfold List.splitBy
    rw [h, List.length_nil]
    omega

theorem cuts_append {before : List α} {a b : α} :
    cuts r (before ++ [a, b]) = cuts r (before ++ [a]) + if r a b then 0 else 1 := by
  induction before with
  | nil => simp [cuts]
  | cons c before ih =>
    cases before with
    | nil => simp [cuts]
    | cons d before =>
      -- the first two tasks stay the first two
      have hleft : cuts r (c :: d :: before ++ [a, b]) =
          (if r c d then 0 else 1) + cuts r (d :: before ++ [a, b]) := rfl
      have hright : cuts r (c :: d :: before ++ [a]) =
          (if r c d then 0 else 1) + cuts r (d :: before ++ [a]) := rfl
      rw [hleft, hright, ih, Nat.add_assoc]

end Segments

/-! ## The graphs -/

/-- An input reads what an output feeds. -/
def TaskGraph.Joins (g : TaskGraph) (u : TaskId) (output : Nat) (t : TaskId) (input : Nat) : Prop :=
  ∃ c, (g.task u).outputChannel output = some c ∧ (g.task t).inputChannel input = some c

namespace TaskGraph.Built

variable {g : TaskGraph} {u t : TaskId} {o i : Nat} (h : g.Built)
include h

theorem joins_of_input {c : ChannelId} (hc : (g.task t).inputChannel i = some c) :
    g.Joins (g.channel c).producer (g.channel c).output t i :=
  ⟨c, (h.wired.output_iff _ _ c).mpr ⟨((h.wired.input_iff t i c).mp hc).1, rfl, rfl⟩, hc⟩

theorem exists_input (hj : g.Joins u o t i) :
    ∃ c, (g.task t).inputChannel i = some c ∧ (g.task u).outputChannel o = some c ∧
      c < g.channels.length ∧ (g.channel c).producer = u ∧ (g.channel c).output = o := by
  obtain ⟨c, ho, hi⟩ := hj
  exact ⟨c, hi, ho, (h.wired.output_iff u o c).mp ho⟩

/-- The channel on an output has a reader. -/
theorem exists_reader {c : ChannelId} (hc : (g.task u).outputChannel o = some c) :
    ∃ t i, g.Joins u o t i ∧ (g.task t).inputChannel i = some c := by
  obtain ⟨hlt, -, -⟩ := (h.wired.output_iff _ _ _).mp hc
  obtain ⟨k, hk⟩ := List.exists_mem_of_ne_nil _ (h.consumed c hlt)
  have hin := (h.wired.input_iff k.task k.input c).mpr ⟨hlt, hk⟩
  exact ⟨k.task, k.input, ⟨c, hc, hin⟩, hin⟩

/-- The connections of a graph are those of its channels. -/
theorem joins_iff_mem {links : List (TaskId × Nat × TaskId × Nat)}
    (hchannels : ∀ c < g.channels.length, ∀ k ∈ (g.channel c).consumers,
      ((g.channel c).producer, (g.channel c).output, k.task, k.input) ∈ links)
    (hlinks : ∀ y ∈ links, ∃ c < g.channels.length, (g.task y.1).outputChannel y.2.1 = some c ∧
      (g.task y.2.2.1).inputChannel y.2.2.2 = some c) :
    g.Joins u o t i ↔ (u, o, t, i) ∈ links := by
  constructor
  · rintro ⟨c, ho, hi⟩
    obtain ⟨hlt, rfl, rfl⟩ := (h.wired.output_iff _ _ _).mp ho
    obtain ⟨-, hk⟩ := (h.wired.input_iff _ _ _).mp hi
    exact hchannels c hlt _ hk
  · intro hmem
    obtain ⟨c, -, ho, hi⟩ := hlinks _ hmem
    exact ⟨c, ho, hi⟩

end TaskGraph.Built

/-- The tasks of a while loop, the body in the order in which data pass through it. -/
structure WhileLoop where
  source : TaskId
  head : TaskId
  body : List TaskId
  sink : TaskId

namespace WhileLoop

/-- The connections of a while loop: which output feeds which input. -/
inductive Links (w : WhileLoop) : TaskId → Nat → TaskId → Nat → Prop
  | start : Links w w.source 0 w.head 0
  | startConvergence : Links w w.source 0 w.head 1
  | enter {t : TaskId} {rest : List TaskId} : w.body = t :: rest → Links w w.head 0 t 0
  | step {u t : TaskId} {before after : List TaskId} :
      w.body = before ++ u :: t :: after → Links w u 0 t 0
  | back {u : TaskId} {before : List TaskId} : w.body = before ++ [u] → Links w u 0 w.head 2
  | backConvergence {u : TaskId} {before : List TaskId} :
      w.body = before ++ [u] → Links w u 0 w.head 3
  | result : Links w w.head 2 w.sink 0

/-- All tasks of a while loop. -/
def tasks (w : WhileLoop) : List TaskId := w.source :: w.head :: w.sink :: w.body

/-- The tasks of a while loop are different tasks. -/
structure Distinct (w : WhileLoop) : Prop where
  source_ne_head : w.source ≠ w.head
  source_ne_sink : w.source ≠ w.sink
  source_notMem : w.source ∉ w.body
  head_ne_sink : w.head ≠ w.sink
  head_notMem : w.head ∉ w.body
  sink_notMem : w.sink ∉ w.body
  nodup : w.body.Nodup

/-- Whether two tasks run on one platform. -/
def samePlatform (g : TaskGraph) (t u : TaskId) : Bool :=
  (g.task t).operator.platform == (g.task u).operator.platform

/-- The maximal parts of the body that run on one platform. -/
def segments (w : WhileLoop) (g : TaskGraph) : List (List TaskId) :=
  w.body.splitBy (samePlatform g)

/-- How many stages precede that of a task on the way from the source. -/
def rank (w : WhileLoop) (g : TaskGraph) (t : TaskId) : Nat :=
  if t = w.source then 0
  else if t = w.head then 1
  else if t = w.sink then (w.segments g).length + 2
  else 2 + cuts (samePlatform g) (w.body.take (w.body.idxOf t + 1))

theorem rank_source (w : WhileLoop) (g : TaskGraph) : w.rank g w.source = 0 := if_pos rfl

theorem mem_of_step {w : WhileLoop} {u t : TaskId} {before after : List TaskId}
    (h : w.body = before ++ u :: t :: after) : u ∈ w.body ∧ t ∈ w.body := by
  rw [h]
  simp

theorem mem_head (w : WhileLoop) : w.head ∈ w.tasks := by simp [WhileLoop.tasks]

theorem mem_source (w : WhileLoop) : w.source ∈ w.tasks := by simp [WhileLoop.tasks]

theorem mem_sink (w : WhileLoop) : w.sink ∈ w.tasks := by simp [WhileLoop.tasks]

theorem mem_of_body {w : WhileLoop} {t : TaskId} (ht : t ∈ w.body) : t ∈ w.tasks := by
  simp [WhileLoop.tasks, ht]

/-- Every task of the body is fed. -/
theorem exists_links {w : WhileLoop} {t : TaskId} (ht : t ∈ w.body) : ∃ u, w.Links u 0 t 0 := by
  obtain ⟨before, after, h⟩ := List.append_of_mem ht
  rcases List.eq_nil_or_concat before with rfl | ⟨before, u, rfl⟩
  · exact ⟨w.head, .enter h⟩
  · exact ⟨u, .step (by simpa using h)⟩

/-- Both ends of a connection are tasks of the loop. -/
theorem mem_of_links {w : WhileLoop} {u t : TaskId} {o i : Nat} (h : w.Links u o t i) :
    u ∈ w.tasks ∧ t ∈ w.tasks := by
  unfold WhileLoop.tasks
  cases h with
  | start | startConvergence | result => simp
  | enter h => simp [h]
  | step h => simp [h]
  | back h | backConvergence h => simp [h]

theorem Links.cases {w : WhileLoop} {u t : TaskId} {o i : Nat} (h : w.Links u o t i) :
    (u = w.source ∧ o = 0 ∧ t = w.head) ∨
    (u = w.head ∧ o = 0 ∧ ∃ rest, w.body = t :: rest) ∨
    (∃ before after, w.body = before ++ u :: t :: after) ∨
    ((∃ before, w.body = before ++ [u]) ∧ t = w.head) ∨
    (u = w.head ∧ o = 2 ∧ t = w.sink) := by
  cases h with
  | start | startConvergence => exact Or.inl ⟨rfl, rfl, rfl⟩
  | enter h => exact Or.inr (Or.inl ⟨rfl, rfl, _, h⟩)
  | step h => exact Or.inr (Or.inr (Or.inl ⟨_, _, h⟩))
  | back h | backConvergence h => exact Or.inr (Or.inr (Or.inr (Or.inl ⟨⟨_, h⟩, rfl⟩)))
  | result => exact Or.inr (Or.inr (Or.inr (Or.inr ⟨rfl, rfl, rfl⟩)))

/-- The last task of the body. -/
theorem exists_last {w : WhileLoop} (h : w.body ≠ []) : ∃ before u, w.body = before ++ [u] := by
  rcases List.eq_nil_or_concat w.body with hnil | ⟨before, u, heq⟩
  · exact absurd hnil h
  · exact ⟨before, u, by simpa using heq⟩

end WhileLoop

/-- A graph has the tasks and the connections of a while loop. -/
structure TaskGraph.IsWhile (g : TaskGraph) (w : WhileLoop) : Prop where
  built : g.Built
  nonempty : w.body ≠ []
  /-- The tasks are numbered in any order. -/
  perm : w.tasks.Perm g.taskIds
  joins : ∀ u o t i, g.Joins u o t i ↔ w.Links u o t i
  source : (g.task w.source).inputs.length = 0
  head : (g.task w.head).inputs.length = 4
  body : ∀ t ∈ w.body, (g.task t).inputs.length = 1
  sink : (g.task w.sink).inputs.length = 1
  roles : (g.task w.head).operator.loopRoles = some {}
  plain : ∀ t ∈ w.tasks, t ≠ w.head → (g.task t).operator.loopRoles = none
  unmarked : ∀ c, (g.channel c).barrier = false

theorem idxOf_of_nodup {before after : List TaskId} {t : TaskId}
    (h : (before ++ t :: after).Nodup) : (before ++ t :: after).idxOf t = before.length := by
  have hnot : t ∉ before := fun ht =>
    (List.nodup_append.mp h).2.2 t ht t List.mem_cons_self rfl
  rw [List.idxOf_append_of_notMem hnot, List.idxOf_cons_self, Nat.add_zero]

namespace TaskGraph.IsWhile

variable {g : TaskGraph} {w : WhileLoop} (hw : g.IsWhile w)
include hw

theorem nodup : w.tasks.Nodup := hw.perm.nodup_iff.mpr List.nodup_range

theorem mem_tasks {t : TaskId} : t ∈ w.tasks ↔ t < g.tasks.length := by
  rw [hw.perm.mem_iff]
  exact List.mem_range

theorem distinct : w.Distinct := by
  have h := hw.nodup
  unfold WhileLoop.tasks at h
  simp only [List.nodup_cons, List.mem_cons, not_or] at h
  obtain ⟨⟨h1, h2, h3⟩, ⟨h4, h5⟩, h6, h7⟩ := h
  exact ⟨h1, h2, h3, h4, h5, h6, h7⟩

/-! ### Connections -/

theorem links_of_input {t : TaskId} {i : Nat} {c : ChannelId}
    (h : (g.task t).inputChannel i = some c) :
    w.Links (g.channel c).producer (g.channel c).output t i :=
  (hw.joins _ _ _ _).mp (hw.built.joins_of_input h)

theorem exists_input {u t : TaskId} {o i : Nat} (h : w.Links u o t i) :
    ∃ c, (g.task t).inputChannel i = some c ∧ (g.task u).outputChannel o = some c ∧
      c < g.channels.length ∧ (g.channel c).producer = u ∧ (g.channel c).output = o :=
  hw.built.exists_input ((hw.joins u o t i).mpr h)

theorem isLoopHead_iff {t : TaskId} (ht : t ∈ w.tasks) :
    (g.task t).isLoopHead = true ↔ t = w.head := by
  unfold Task.isLoopHead Operator.isLoopHead
  by_cases h : t = w.head
  · rw [h, hw.roles]
    simp
  · rw [hw.plain t ht h]
    simpa using h

theorem mem_bodyInputs {t : TaskId} (ht : t ∈ w.tasks) {i : Nat} :
    i ∈ (g.task t).operator.bodyInputs ↔ t = w.head ∧ (i = 2 ∨ i = 3) := by
  unfold Operator.bodyInputs
  by_cases h : t = w.head
  · rw [h, hw.roles]
    simp
  · rw [hw.plain t ht h]
    simpa using fun h' => absurd h' h

/-! ### Ranks -/

theorem rank_head : w.rank g w.head = 1 := by
  unfold WhileLoop.rank
  rw [if_neg (Ne.symm hw.distinct.source_ne_head), if_pos rfl]

theorem rank_sink : w.rank g w.sink = (w.segments g).length + 2 := by
  obtain ⟨-, h, -, h', -⟩ := hw.distinct
  unfold WhileLoop.rank
  rw [if_neg (Ne.symm h), if_neg (Ne.symm h'), if_pos rfl]

theorem rank_body {t : TaskId} {before after : List TaskId} (h : w.body = before ++ t :: after) :
    w.rank g t = 2 + cuts (WhileLoop.samePlatform g) (before ++ [t]) := by
  obtain ⟨-, -, h1, -, h2, h3, hn⟩ := hw.distinct
  have ht : t ∈ w.body := by
    rw [h]
    simp
  have hne : ∀ u, u ∉ w.body → t ≠ u := fun u hu he => hu (he ▸ ht)
  unfold WhileLoop.rank
  rw [if_neg (hne _ h1), if_neg (hne _ h2), if_neg (hne _ h3), h, idxOf_of_nodup (h ▸ hn),
    List.take_append, List.take_of_length_le (by omega)]
  simp

theorem rank_enter {t : TaskId} {rest : List TaskId} (h : w.body = t :: rest) :
    w.rank g t = 2 := by
  have h' : w.body = [] ++ t :: rest := h
  rw [hw.rank_body h']
  rfl

theorem rank_step {u t : TaskId} {before after : List TaskId}
    (h : w.body = before ++ u :: t :: after) :
    w.rank g t = w.rank g u + if WhileLoop.samePlatform g u t then 0 else 1 := by
  have h' : w.body = (before ++ [u]) ++ t :: after := by simpa using h
  rw [hw.rank_body h, hw.rank_body h', List.append_assoc, List.singleton_append, cuts_append,
    Nat.add_assoc]

theorem rank_last {u : TaskId} {before : List TaskId} (h : w.body = before ++ [u]) :
    w.rank g u = (w.segments g).length + 1 := by
  rw [hw.rank_body h]
  unfold WhileLoop.segments
  rw [length_splitBy _ hw.nonempty, h]
  omega

theorem rank_mono : ∀ {after before : List TaskId} {u v : TaskId}, w.body = before ++ u :: after →
    v ∈ after → w.rank g u ≤ w.rank g v
  | t :: after, before, u, v, h, hv => by
    have hstep := hw.rank_step h
    rcases List.mem_cons.mp hv with rfl | hv
    · omega
    · have h' : w.body = (before ++ [u]) ++ t :: after := by simpa using h
      have := rank_mono h' hv
      omega

/-- The ranks of the body lie between those of the head and of the sink. -/
theorem rank_bounds {t : TaskId} (ht : t ∈ w.body) :
    2 ≤ w.rank g t ∧ w.rank g t ≤ (w.segments g).length + 1 := by
  obtain ⟨before, after, h⟩ := List.append_of_mem ht
  refine ⟨by rw [hw.rank_body h]; omega, ?_⟩
  rcases List.eq_nil_or_concat after with rfl | ⟨after, u, rfl⟩
  · exact Nat.le_of_eq (hw.rank_last h)
  · have hlast : w.body = (before ++ t :: after) ++ [u] := by simpa using h
    rw [← hw.rank_last hlast]
    exact hw.rank_mono h (by simp)

/-- Where the body enters a segment. -/
theorem exists_step_of_lt : ∀ {after before : List TaskId} {t : TaskId} {n : Nat},
    w.body = before ++ t :: after → w.rank g t < n → n ≤ (w.segments g).length + 1 →
    ∃ before' u v after', w.body = before' ++ u :: v :: after' ∧ w.rank g u + 1 = n ∧
      w.rank g v = n
  | [], before, t, n, h, hlt, hle => by
    have := hw.rank_last h
    omega
  | v :: after, before, t, n, h, hlt, hle => by
    have hstep := hw.rank_step h
    by_cases hn : n ≤ w.rank g v
    · refine ⟨before, t, v, after, h, ?_⟩
      split at hstep
      · omega
      · omega
    · have h' : w.body = (before ++ [t]) ++ v :: after := by simpa using h
      exact exists_step_of_lt h' (by omega) hle

theorem exists_step {n : Nat} (hlt : 2 < n) (hle : n ≤ (w.segments g).length + 1) :
    ∃ before u v after, w.body = before ++ u :: v :: after ∧ w.rank g u + 1 = n ∧
      w.rank g v = n := by
  obtain ⟨t, rest, h⟩ := List.exists_cons_of_ne_nil hw.nonempty
  have h' : w.body = [] ++ t :: rest := h
  exact hw.exists_step_of_lt h' (hw.rank_enter h ▸ hlt) hle

/-- The tasks by rank. -/
theorem rank_cases {t : TaskId} (ht : t ∈ w.tasks) :
    (t = w.source ∧ w.rank g t = 0) ∨ (t = w.head ∧ w.rank g t = 1) ∨
      (t = w.sink ∧ w.rank g t = (w.segments g).length + 2) ∨
      (t ∈ w.body ∧ 2 ≤ w.rank g t ∧
        w.rank g t ≤ (w.segments g).length + 1) := by
  simp only [WhileLoop.tasks, List.mem_cons] at ht
  rcases ht with rfl | rfl | rfl | ht
  · exact Or.inl ⟨rfl, w.rank_source _⟩
  · exact Or.inr (Or.inl ⟨rfl, hw.rank_head⟩)
  · exact Or.inr (Or.inr (Or.inl ⟨rfl, hw.rank_sink⟩))
  · exact Or.inr (Or.inr (Or.inr ⟨ht, hw.rank_bounds ht⟩))

/-- The sink has the highest rank. -/
theorem rank_le {t : TaskId} (ht : t ∈ w.tasks) : w.rank g t ≤ (w.segments g).length + 2 := by
  rcases hw.rank_cases ht with ⟨-, hr⟩ | ⟨-, hr⟩ | ⟨-, hr⟩ | ⟨-, -, hr⟩ <;> omega

/-- What is not in the body is recognized by its rank. -/
theorem eq_or_mem_body {t u : TaskId} (ht : t ∈ w.tasks) (hu : u ∈ w.tasks)
    (heq : w.rank g t = w.rank g u) : t = u ∨ (t ∈ w.body ∧ u ∈ w.body) := by
  rcases hw.rank_cases ht with ⟨ht, hr⟩ | ⟨ht, hr⟩ | ⟨ht, hr⟩ | ⟨ht, hr, hr'⟩ <;>
  rcases hw.rank_cases hu with ⟨hu, hs⟩ | ⟨hu, hs⟩ | ⟨hu, hs⟩ | ⟨hu, hs, hs'⟩ <;>
  first
  | exact Or.inl (ht.trans hu.symm)
  | exact Or.inr ⟨ht, hu⟩
  | omega

theorem segments_pos : 0 < (w.segments g).length := by
  unfold WhileLoop.segments
  rw [length_splitBy _ hw.nonempty]
  omega

/-- There is a task of every rank. -/
theorem exists_rank {r : Nat} (hr : r ≤ (w.segments g).length + 2) :
    ∃ t ∈ w.tasks, w.rank g t = r := by
  match r with
  | 0 => exact ⟨_, w.mem_source, w.rank_source _⟩
  | 1 => exact ⟨_, w.mem_head, hw.rank_head⟩
  | 2 =>
    obtain ⟨t, rest, hb⟩ := List.exists_cons_of_ne_nil hw.nonempty
    exact ⟨t, WhileLoop.mem_of_body (by simp [hb]), hw.rank_enter hb⟩
  | r + 3 =>
    by_cases hsink : r + 3 = (w.segments g).length + 2
    · exact ⟨_, w.mem_sink, hw.rank_sink.trans hsink.symm⟩
    · obtain ⟨before, u, v, after, hb, -, hv⟩ :=
        hw.exists_step (n := r + 3) (by omega) (by omega)
      exact ⟨v, WhileLoop.mem_of_body (WhileLoop.mem_of_step hb).2, hv⟩

/-- A connection leads one rank on, or back to the head, or lies inside a segment. -/
theorem rank_of_links {u t : TaskId} {o i : Nat} (hl : w.Links u o t i) :
    (t = w.head ∧ ((u = w.source ∧ i < 2) ∨
        (2 ≤ i ∧ w.rank g u = (w.segments g).length + 1))) ∨
      (u = w.head ∧ t = w.sink ∧ o = 2 ∧ i = 0) ∨
      (t ∈ w.body ∧ i = 0 ∧ o = 0 ∧ (w.rank g t = w.rank g u ∨
        w.rank g t = w.rank g u + 1)) := by
  cases hl with
  | start => exact Or.inl ⟨rfl, Or.inl ⟨rfl, by omega⟩⟩
  | startConvergence => exact Or.inl ⟨rfl, Or.inl ⟨rfl, by omega⟩⟩
  | back hb => exact Or.inl ⟨rfl, Or.inr ⟨by omega, hw.rank_last hb⟩⟩
  | backConvergence hb => exact Or.inl ⟨rfl, Or.inr ⟨by omega, hw.rank_last hb⟩⟩
  | result => exact Or.inr (Or.inl ⟨rfl, rfl, rfl, rfl⟩)
  | enter hb =>
    refine Or.inr (Or.inr ⟨by simp [hb], rfl, rfl, Or.inr ?_⟩)
    rw [hw.rank_enter hb, hw.rank_head]
  | step hb =>
    refine Or.inr (Or.inr ⟨(WhileLoop.mem_of_step hb).2, rfl, rfl, ?_⟩)
    have := hw.rank_step hb
    split at this
    · exact Or.inl (by omega)
    · exact Or.inr (by omega)

/-! ### Edges -/

theorem producer_mem {t : TaskId} {i : Nat} {c : ChannelId}
    (h : (g.task t).inputChannel i = some c) : (g.channel c).producer ∈ w.tasks ∧ t ∈ w.tasks :=
  WhileLoop.mem_of_links (hw.links_of_input h)

/-- An edge that is no feedback leads to a higher rank or lies inside a segment. -/
theorem rank_lt_or_joinable {t : TaskId} {i : Nat} {c : ChannelId}
    (h : (g.task t).inputChannel i = some c) (hi : i ∉ (g.task t).operator.bodyInputs) :
    w.rank g (g.channel c).producer < w.rank g t ∨
      (w.rank g (g.channel c).producer = w.rank g t ∧ (Edge.ofInput g t i c).isJoinable = true ∧
        ∃ before after, w.body = before ++ (g.channel c).producer :: t :: after) := by
  have hlinks := hw.links_of_input h
  obtain ⟨hmem, hmem'⟩ := WhileLoop.mem_of_links hlinks
  rw [hw.mem_bodyInputs hmem'] at hi
  rw [isJoinable_ofInput]
  generalize (g.channel c).producer = u at hlinks hmem ⊢
  generalize (g.channel c).output = o at hlinks
  cases hlinks with
  | start | startConvergence => exact Or.inl (by rw [w.rank_source, hw.rank_head]; omega)
  | enter hb => exact Or.inl (by rw [hw.rank_head, hw.rank_enter hb]; omega)
  | back => exact absurd ⟨rfl, Or.inl rfl⟩ hi
  | backConvergence => exact absurd ⟨rfl, Or.inr rfl⟩ hi
  | result => exact Or.inl (by rw [hw.rank_head, hw.rank_sink]; omega)
  | step hb =>
    have hstep := hw.rank_step hb
    obtain ⟨hu, ht⟩ := WhileLoop.mem_of_step hb
    have hne : ∀ v ∈ w.body, v ≠ w.head := fun v hv =>
      ne_of_mem_of_not_mem hv hw.distinct.head_notMem
    by_cases hsame : WhileLoop.samePlatform g u t = true
    · rw [if_pos hsame] at hstep
      refine Or.inr ⟨hstep.symm, ⟨?_, ?_, ?_, ?_⟩, _, _, hb⟩
      · rwa [hw.mem_bodyInputs hmem']
      · simpa [WhileLoop.samePlatform] using hsame
      · exact Bool.eq_false_iff.mpr fun hh => hne u hu ((hw.isLoopHead_iff hmem).mp hh)
      · exact Bool.eq_false_iff.mpr fun hh => hne t ht ((hw.isLoopHead_iff hmem').mp hh)
    · rw [if_neg hsame] at hstep
      exact Or.inl (by omega)

/-- Edges that can lie inside a run do not change the rank. -/
theorem rank_eq_of_joinable {t : TaskId} {i : Nat} {c : ChannelId}
    (h : (g.task t).inputChannel i = some c) (hj : (Edge.ofInput g t i c).isJoinable = true) :
    w.rank g (g.channel c).producer = w.rank g t := by
  have hlinks := hw.links_of_input h
  obtain ⟨hmem, hmem'⟩ := WhileLoop.mem_of_links hlinks
  obtain ⟨hi, hplatform, hu, ht⟩ := isJoinable_ofInput.mp hj
  have hhead : (g.task w.head).isLoopHead = true :=
    (hw.isLoopHead_iff (by simp [WhileLoop.tasks])).mpr rfl
  generalize (g.channel c).producer = u at hlinks hmem hplatform hu ⊢
  generalize (g.channel c).output = o at hlinks
  cases hlinks with
  | start | startConvergence | back | backConvergence => simp [hhead] at ht
  | enter | result => simp [hhead] at hu
  | step hb =>
    have hstep := hw.rank_step hb
    rw [if_pos (by simpa [WhileLoop.samePlatform] using hplatform)] at hstep
    exact hstep.symm

/-- The neighbours in the body come one after the other. -/
theorem idxOf_lt {u t : TaskId} {before after : List TaskId}
    (h : w.body = before ++ u :: t :: after) : w.body.idxOf u < w.body.idxOf t := by
  have hn := hw.distinct.nodup
  have h' : w.body = (before ++ [u]) ++ t :: after := by simpa using h
  have hu : w.body.idxOf u = before.length := by
    rw [h] at hn ⊢
    exact idxOf_of_nodup hn
  have ht : w.body.idxOf t = (before ++ [u]).length := by
    rw [h'] at hn ⊢
    exact idxOf_of_nodup hn
  rw [hu, ht, List.length_append, List.length_singleton]
  omega

/-- A task of the body that feeds another one is not the last. -/
theorem ne_last {u t v : TaskId} {before after before' : List TaskId}
    (h : w.body = before ++ u :: t :: after) (h' : w.body = before' ++ [v]) : u ≠ v := by
  rintro rfl
  have hlt := hw.idxOf_lt h
  have hn := hw.distinct.nodup
  have hu : w.body.idxOf u = before'.length := by
    rw [h'] at hn ⊢
    exact idxOf_of_nodup hn
  have ht := List.idxOf_lt_length_of_mem (WhileLoop.mem_of_step h).2
  have hlen : w.body.length = before'.length + 1 := by rw [h', List.length_append]; rfl
  omega

/-- Neighbours in the body are unique. -/
theorem next_unique {u t t' : TaskId} {before after before' after' : List TaskId}
    (h : w.body = before ++ u :: t :: after) (h' : w.body = before' ++ u :: t' :: after') :
    t = t' := by
  have hn := hw.distinct.nodup
  have hidx : w.body.idxOf u = before.length := by
    rw [h] at hn ⊢
    exact idxOf_of_nodup hn
  have hidx' : w.body.idxOf u = before'.length := by
    rw [h'] at hn ⊢
    exact idxOf_of_nodup hn
  have htail := (List.append_inj (h.symm.trans h') (hidx.symm.trans hidx')).2
  exact (List.cons.inj (List.cons.inj htail).2).1

/-- An output feeds one task. -/
theorem reader_unique {u t t' : TaskId} {o i i' : Nat} (h : w.Links u o t i)
    (h' : w.Links u o t' i') : t = t' := by
  obtain ⟨hsh, -, hsb, -, hhb, -, -⟩ := hw.distinct
  have hbody : ∀ {v : TaskId}, ((∃ before after, w.body = before ++ u :: v :: after) ∨
      ∃ before, w.body = before ++ [u]) → u ≠ w.source ∧ u ≠ w.head := by
    intro v hv
    have hu : u ∈ w.body := by rcases hv with ⟨before, after, hb⟩ | ⟨before, hb⟩ <;> simp [hb]
    exact ⟨fun he => hsb (he ▸ hu), fun he => hhb (he ▸ hu)⟩
  rcases h.cases with ⟨hu, ho, ht⟩ | ⟨hu, ho, rest, hb⟩ | ⟨before, after, hb⟩ |
    ⟨⟨before, hb⟩, ht⟩ | ⟨hu, ho, ht⟩ <;>
  rcases h'.cases with ⟨hu', ho', ht'⟩ | ⟨hu', ho', rest', hb'⟩ | ⟨before', after', hb'⟩ |
    ⟨⟨before', hb'⟩, ht'⟩ | ⟨hu', ho', ht'⟩
  case inl.inl => exact ht.trans ht'.symm
  case inr.inl.inr.inl => exact (List.cons.inj (hb.symm.trans hb')).1
  case inr.inr.inl.inr.inr.inl => exact hw.next_unique hb hb'
  case inr.inr.inl.inr.inr.inr.inl => exact absurd rfl (hw.ne_last hb hb')
  case inr.inr.inr.inl.inr.inr.inl => exact absurd rfl (hw.ne_last hb' hb)
  case inr.inr.inr.inl.inr.inr.inr.inl => exact ht.trans ht'.symm
  case inr.inr.inr.inr.inr.inr.inr.inr => exact ht.trans ht'.symm
  -- no other two connections start from one output
  all_goals grind

end TaskGraph.IsWhile

namespace PreliminaryPlan

/-- A preliminary plan of a while loop that asks for the sink of the loop. -/
structure PlansWhile (p : PreliminaryPlan) (w : WhileLoop) : Prop where
  graph : p.graph.IsWhile w
  known : p.SinksKnown
  sink : w.sink ∈ p.sinks

namespace PlansWhile

variable {p : PreliminaryPlan} {w : WhileLoop}

theorem needs_of_links (h : p.PlansWhile w) {u t : TaskId} {o i : Nat} (hl : w.Links u o t i)
    (ht : p.Needs t) : p.Needs u := by
  obtain ⟨c, hi, -, -, hp, -⟩ := h.graph.exists_input hl
  exact ht.of_feeds ⟨i, c, hi, hp⟩

theorem needs_body (h : p.PlansWhile w) (hhead : p.Needs w.head) :
    ∀ {after before : List TaskId} {t : TaskId}, w.body = before ++ t :: after → p.Needs t
  | [], _, _, hb => h.needs_of_links (.back hb) hhead
  | u :: after, before, t, hb => by
    have hb' : w.body = (before ++ [t]) ++ u :: after := by simpa using hb
    exact h.needs_of_links (.step hb) (h.needs_body hhead hb')

/-- Every task of the loop is needed. -/
theorem needs_iff (h : p.PlansWhile w) {t : TaskId} : p.Needs t ↔ t ∈ w.tasks := by
  have hsink : p.Needs w.sink := .of_sink h.sink
  have hhead := h.needs_of_links .result hsink
  have hsource := h.needs_of_links .start hhead
  refine ⟨fun hn => h.graph.mem_tasks.mpr (hn.lt h.graph.built.wired h.known), fun ht => ?_⟩
  simp only [WhileLoop.tasks, List.mem_cons] at ht
  rcases ht with rfl | rfl | rfl | ht
  · exact hsource
  · exact hhead
  · exact hsink
  · obtain ⟨before, after, hb⟩ := List.append_of_mem ht
    exact h.needs_body hhead hb

theorem mem_planned (h : p.PlansWhile w) {t : TaskId} : t ∈ p.plannedTasks ↔ t ∈ w.tasks := by
  rw [mem_plannedTasks h.graph.built.wired h.known, h.needs_iff]

theorem inputsFed (h : p.PlansWhile w) : p.InputsFed := by
  have hfed : ∀ {u t : TaskId} {o i : Nat}, w.Links u o t i →
      ((p.graph.task t).inputChannel i).isSome = true := fun hl => by
    obtain ⟨c, hc, -⟩ := h.graph.exists_input hl
    rw [hc]
    rfl
  intro t ht i hi
  have hmem := h.needs_iff.mp ht
  simp only [WhileLoop.tasks, List.mem_cons] at hmem
  rcases hmem with rfl | rfl | rfl | ht
  · rw [h.graph.source] at hi
    omega
  · obtain ⟨before, u, hb⟩ := WhileLoop.exists_last h.graph.nonempty
    rw [h.graph.head] at hi
    match i with
    | 0 => exact hfed .start
    | 1 => exact hfed .startConvergence
    | 2 => exact hfed (.back hb)
    | 3 => exact hfed (.backConvergence hb)
    | i + 4 => omega
  · rw [h.graph.sink] at hi
    obtain rfl : i = 0 := by omega
    exact hfed .result
  · rw [h.graph.body t ht] at hi
    obtain rfl : i = 0 := by omega
    obtain ⟨u, hu⟩ := WhileLoop.exists_links ht
    exact hfed hu

/-- The tasks ordered by rank, and inside a segment by their place. -/
def depth (p : PreliminaryPlan) (w : WhileLoop) (t : TaskId) : Nat :=
  w.rank p.graph t * (w.body.length + 1) + w.body.idxOf t

theorem depth_lt (h : p.PlansWhile w) {u t : TaskId} (hf : p.Forward u t) :
    depth p w u < depth p w t := by
  obtain ⟨-, i, c, hc, rfl, hi⟩ := hf
  unfold depth
  rcases h.graph.rank_lt_or_joinable hc hi with hlt | ⟨heq, -, before, after, hb⟩
  · have hle := Nat.mul_le_mul_right (w.body.length + 1) (Nat.succ_le_of_lt hlt)
    have hidx : w.body.idxOf (p.graph.channel c).producer ≤ w.body.length := List.idxOf_le_length
    rw [Nat.succ_mul] at hle
    omega
  · have := h.graph.idxOf_lt hb
    rw [heq]
    omega

theorem acyclic (h : p.PlansWhile w) : p.Acyclic := by
  have hlt : ∀ u t, Relation.TransGen p.Forward u t → depth p w u < depth p w t := by
    intro u t hut
    induction hut with
    | single hf => exact h.depth_lt hf
    | tail _ hf ih => exact Nat.lt_trans ih (h.depth_lt hf)
  exact fun t ht => Nat.lt_irrefl _ (hlt t t ht)

/-- A channel has one reading task. -/
theorem consumer_eq (h : p.PlansWhile w) {t t' : TaskId} {i i' : Nat} {c : ChannelId}
    (hc : (p.graph.task t).inputChannel i = some c)
    (hc' : (p.graph.task t').inputChannel i' = some c) : t = t' := by
  have hl := h.graph.links_of_input hc
  have hl' := h.graph.links_of_input hc'
  exact h.graph.reader_unique hl hl'

end PlansWhile

end PreliminaryPlan

end Dataflow
