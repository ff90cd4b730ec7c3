import Dataflow.Proofs.Execution.Atomic
import Dataflow.Proofs.Execution.Spread

/-!
# Loop heads move on

A loop head keeps its state in a cell that is told to move to another state and refuses to go back
(`LoopState.told`). As often as it tells the cell to move, and whether the moves are refused or not, the
execution of its task leaves the cell where it was or further on (`Behaviour.KeepsCell`). This is the
life of a loop head as it is specified. It is a condition on the loop head itself, and it says nothing
of what other operators do to its state or of operators that keep their states in another way.

A stronger property of all operators of a graph is that they take no loop head back and that a loop
head starts when it is told to run (`Behaviour.Onward`). Then a stage execution takes no loop head
back either, and the loop head of a stage whose execution succeeds has started: it was initialized,
which starts it, or it was running before.

* `Moved.le_of_keepsCell`: the execution of a loop head moves its cell only forward.
* `Behaviour.onward_of_tellsCell`: cells are one way to take no loop head back.
* `feed_started`, `executeTask_started`, `seed_started`, `drain_started`: the steps.
* `push_started`: a whole push.
* **`executeStage_onward`**: a stage execution that succeeds.
-/

namespace Dataflow

/-! ## Cells -/

namespace LoopState

/-- Where a cell stands once it was told to move to some state. A move back is refused and leaves it
where it is. -/
def told (s target : LoopState) : LoopState :=
  match s.advance target with
  | .ok s' => s'
  | .error _ => s

theorem le_told (s target : LoopState) : s ≤ s.told target := by
  unfold told
  cases h : s.advance target with
  | ok s' =>
    obtain ⟨hle, rfl⟩ := advance_eq_ok_iff.mp h
    exact hle
  | error _ => exact le_refl s

theorem told_of_le {s target : LoopState} (h : s ≤ target) : s.told target = target := by
  unfold told
  rw [advance_eq_ok_iff.mpr ⟨h, rfl⟩]

/-- One move is enough to get anywhere further on, and to stay. -/
theorem exists_told {s target : LoopState} (h : s ≤ target) :
    ∃ targets : List LoopState, target = targets.foldl told s := ⟨[target], (told_of_le h).symm⟩

/-- Told to move any number of times, it does not go back. -/
theorem le_foldl_told (targets : List LoopState) (s : LoopState) : s ≤ targets.foldl told s := by
  induction targets generalizing s with
  | nil => exact le_refl s
  | cons target rest ih => exact le_trans (le_told s target) (ih (s.told target))

end LoopState

/-- Operator `k` takes the state of loop head `o` for one that is kept in a cell: all that it does to it,
and all that is done when the engine moves `k` on, is to tell the cell to move, any number of times. -/
structure Behaviour.TellsCell {ω : Type} (b : Behaviour ω) (k o : ObjectId) : Prop where
  prepare : ∀ ctx m, ∃ targets : List LoopState,
    b.loopState o (b.prepare k ctx m).memory = targets.foldl LoopState.told (b.loopState o m)
  evaluate : ∀ ctx m, ∃ targets : List LoopState,
    b.loopState o (b.evaluate k ctx m).memory = targets.foldl LoopState.told (b.loopState o m)
  advance : ∀ s m, ∃ targets : List LoopState,
    b.loopState o (b.advance k s m).2 = targets.foldl LoopState.told (b.loopState o m)

section TellsCell

variable {ω : Type} {b : Behaviour ω} {k o : ObjectId}

theorem Behaviour.TellsCell.le_prepare (h : b.TellsCell k o) (ctx : TaskContext) (m : ω) :
    b.loopState o m ≤ b.loopState o (b.prepare k ctx m).memory := by
  obtain ⟨targets, htold⟩ := h.prepare ctx m
  rw [htold]
  exact LoopState.le_foldl_told targets _

theorem Behaviour.TellsCell.le_evaluate (h : b.TellsCell k o) (ctx : TaskContext) (m : ω) :
    b.loopState o m ≤ b.loopState o (b.evaluate k ctx m).memory := by
  obtain ⟨targets, htold⟩ := h.evaluate ctx m
  rw [htold]
  exact LoopState.le_foldl_told targets _

theorem Behaviour.TellsCell.le_advance (h : b.TellsCell k o) (s : LoopState) (m : ω) :
    b.loopState o m ≤ b.loopState o (b.advance k s m).2 := by
  obtain ⟨targets, htold⟩ := h.advance s m
  rw [htold]
  exact LoopState.le_foldl_told targets _

end TellsCell

/-! ## Operators that take no loop head back -/

/-- Every loop head of a graph stands where it stood, or further on. -/
def Behaviour.Advances {ω : Type} (b : Behaviour ω) (g : TaskGraph) (m m' : ω) : Prop :=
  ∀ t, (g.task t).isLoopHead = true → g.loopState b m t ≤ g.loopState b m' t

/-- No operator of a graph takes a loop head back, and a loop head that is told to run does. -/
structure Behaviour.Onward {ω : Type} (b : Behaviour ω) (g : TaskGraph) : Prop where
  prepare : ∀ t ctx m, b.Advances g m (b.prepare (g.task t).operator.object ctx m).memory
  evaluate : ∀ t ctx m, b.Advances g m (b.evaluate (g.task t).operator.object ctx m).memory
  advance : ∀ t m, b.Advances g m (b.advance (g.task t).operator.object .running m).2
  runs : ∀ t m m' old, (g.task t).isLoopHead = true →
    b.advance (g.task t).operator.object .running m = (.ok old, m') →
      .running ≤ g.loopState b m' t

section Onward

variable {ω : Type} {p : Plan} {b : Behaviour ω} {g : TaskGraph} {m m₁ m' : ω} {t : TaskId}
  {activation : Activation}

/-- Loop heads are not taken back if every operator takes their states for kept in cells. -/
theorem Behaviour.onward_of_tellsCell (hcell : ∀ k o, b.TellsCell k o)
    (hruns : ∀ t m m' old, (g.task t).isLoopHead = true →
      b.advance (g.task t).operator.object .running m = (.ok old, m') →
        .running ≤ g.loopState b m' t) : b.Onward g where
  prepare := fun _ ctx m _ _ => (hcell _ _).le_prepare ctx m
  evaluate := fun _ ctx m _ _ => (hcell _ _).le_evaluate ctx m
  advance := fun _ m _ _ => (hcell _ _).le_advance .running m
  runs := hruns

theorem Behaviour.Advances.refl : b.Advances g m m := fun _ _ => LoopState.le_refl _

theorem Behaviour.Advances.trans (h : b.Advances g m m₁) (h' : b.Advances g m₁ m') :
    b.Advances g m m' := fun t ht => LoopState.le_trans (h t ht) (h' t ht)

/-- It is the operators alone that this is about. -/
theorem Behaviour.Onward.congr {g' : TaskGraph} (h : b.Onward g)
    (hop : ∀ t, (g'.task t).operator = (g.task t).operator) : b.Onward g' := by
  have hhead : ∀ t, (g'.task t).isLoopHead = (g.task t).isLoopHead := fun t =>
    congrArg Operator.isLoopHead (hop t)
  have hstate : ∀ m t, g'.loopState b m t = g.loopState b m t := fun m t => by
    unfold TaskGraph.loopState
    rw [hop]
  have hadvances : ∀ {m m'}, b.Advances g m m' → b.Advances g' m m' := fun hon t ht => by
    rw [hstate, hstate]
    exact hon t ((hhead t).symm.trans ht)
  refine ⟨fun t ctx m => hadvances ?_, fun t ctx m => hadvances ?_, fun t m => hadvances ?_,
    fun t m m' old ht hadvance => ?_⟩
  · exact hop t ▸ h.prepare t ctx m
  · exact hop t ▸ h.evaluate t ctx m
  · exact hop t ▸ h.advance t m
  · rw [hop] at hadvance
    rw [hstate]
    exact h.runs t m m' old ((hhead t).symm.trans ht) hadvance

namespace Workspace

/-- Executing a task takes no loop head back. -/
theorem Moved.advances (hb : b.Onward p.graph) (h : Moved p b t activation m m') :
    b.Advances p.graph m m' := by
  obtain ⟨m₁, ⟨ctx, ctx', rfl⟩, hlate⟩ := h
  refine ((hb.prepare t ctx m).trans (hb.evaluate t ctx' _)).trans ?_
  unfold Followed at hlate
  split at hlate
  · split at hlate
    · obtain ⟨old, hadvance⟩ := hlate
      have hmoved := hb.advance t (b.evaluate (p.graph.task t).operator.object ctx'
        (b.prepare (p.graph.task t).operator.object ctx m).memory).memory
      rwa [hadvance] at hmoved
    · exact hlate ▸ Behaviour.Advances.refl
  · exact hlate ▸ Behaviour.Advances.refl

/-- A loop head that was executed has started, if it was initialized or had started before. -/
theorem Moved.started (hb : b.Onward p.graph) (h : Moved p b t activation m m')
    (hhead : (p.graph.task t).isLoopHead = true)
    (hready : activation = .loopInitialization ∨ .running ≤ p.loopState b m t) :
    .running ≤ p.loopState b m' t := by
  rcases hready with hinit | hrunning
  · obtain ⟨m₁, -, hlate⟩ := h
    rw [if_pos hhead] at hlate
    unfold Followed at hlate
    split at hlate
    · obtain ⟨old, hadvance⟩ := hlate
      exact hb.runs t m₁ m' old hhead hadvance
    · rename_i hnot
      subst hlate
      exact LoopState.running_le fun hstate => hnot ⟨hinit, hstate⟩
  · exact LoopState.le_trans hrunning (h.advances hb t hhead)

/-- A push that began with the memory `m₀` has taken no loop head back. Those that are ready are to be
initialized or have started, and those that were executed have started. -/
structure Started (p : Plan) (b : Behaviour ω) (m₀ : ω) (w : Workspace ω) : Prop where
  onward : b.Advances p.graph m₀ w.memory
  ready : ∀ r ∈ w.run.ready, (p.graph.task r.1.task).isLoopHead = true →
    r.2 = .loopInitialization ∨ .running ≤ p.loopState b w.memory r.1.task
  executed : ∀ x ∈ w.run.executed, (p.graph.task x.task).isLoopHead = true →
    .running ≤ p.loopState b w.memory x.task

/-- A computation of a push that has taken no loop head back takes none back if it succeeds. -/
def Starts {α : Type} (p : Plan) (b : Behaviour ω) (m₀ : ω) (x : WorkspaceM ω α) (w : Workspace ω) :
    Prop :=
  Ends x w (fun _ w' => Started p b m₀ w') fun _ _ => True

variable {s : StageId} {state : ExecutionState} {m₀ : ω} {w : Workspace ω} {a : Activator}

theorem Started.ledger (h : Started p b m₀ w) (l : Ledger) :
    Started p b m₀ { w with ledger := l } := ⟨h.onward, h.ready, h.executed⟩

/-- A loop head becomes ready when it is to be initialized or has started. -/
theorem initialization_or_running (h : a.readiness p.graph b m = some activation)
    (hhead : (p.graph.task a.task).isLoopHead = true) :
    activation = .loopInitialization ∨ .running ≤ p.loopState b m a.task := by
  by_cases hstate : p.graph.loopState b m a.task = .notStarted
  · obtain ⟨roles, hroles⟩ := Option.isSome_iff_exists.mp hhead
    unfold Activator.readiness readiness at h
    rw [hroles, hstate] at h
    simp only at h
    split at h
    · exact Or.inl (Option.some.inj h).symm
    · exact absurd h (by simp)
  · exact Or.inr (LoopState.running_le hstate)

theorem Started.makeReady (h : Started p b m₀ w) {r : StageRun}
    (hready : ∀ x ∈ r.ready, x ∈ w.run.ready ∨ (x.1 = a ∧
      a.readiness p.graph b w.memory = some x.2)) (hexecuted : r.executed = w.run.executed) :
    Started p b m₀ { w with run := r } := by
  refine ⟨h.onward, fun x hx hhead => ?_, fun x hx => h.executed x (hexecuted ▸ hx)⟩
  rcases hready x hx with hx | ⟨rfl, hnext⟩
  · exact h.ready x hx hhead
  · exact initialization_or_running hnext hhead

/-! ## Feeding -/

theorem feed_started {t : TaskId} {input : Nat} {x : InstanceId} (h : Started p b m₀ w) :
    Starts p b m₀ (feed p b state t input x) w := by
  refine feed_ends (fun {a w₁ l} hw _ _ => ?_) fun _ _ _ => trivial
  have h₁ : Started p b m₀ w₁ := by
    cases hw with
    | found => exact h
    | made => exact ⟨h.onward, h.ready, h.executed⟩
  exact (h₁.ledger l).makeReady (fun y hy => mem_ready_settle.mp hy) executed_settle

theorem feedEach_started {x : InstanceId} : ∀ {ks : List Consumer} {w : Workspace ω},
    Started p b m₀ w → Starts p b m₀ (feedEach p b state x ks) w
  | [], _, h => Ends.pure h
  | _ :: _, _, h => Ends.bind (feed_started h) fun _ _ h' => feedEach_started h'

theorem feedAll_started : ∀ {xs : List InstanceId} {w : Workspace ω}, Started p b m₀ w →
    Starts p b m₀ (feedAll p b s state xs) w
  | [], _, h => Ends.pure h
  | x :: xs, w, h => by
    unfold feedAll
    refine Ends.bind Succeeds.get.ends ?_
    rintro _ _ ⟨rfl, rfl⟩
    exact Ends.bind (feedEach_started h) fun _ _ h' => feedAll_started h'

/-! ## The whole push -/

/-- Executing the first ready activator. -/
theorem executeTask_started (hw : p.graph.Wired) (hb : b.Onward p.graph) (h : Started p b m₀ w)
    {rest : List (Activator × Activation)} (hready : w.run.ready = (a, activation) :: rest) :
    Starts p b m₀ (executeTask p b s state a activation)
      { w with run := { w.run with ready := rest } } := by
  refine executeTask_ends hw (fun is w' hd => ?_) fun _ _ _ => trivial
  have hon := hd.moved.advances hb
  refine feedAll_started ⟨h.onward.trans hon, fun r hr hhead => ?_, fun x hx hhead => ?_⟩
  · rw [hd.run] at hr
    refine (h.ready r (hready ▸ List.mem_cons_of_mem _ hr) hhead).imp_right fun hle => ?_
    exact LoopState.le_trans hle (hon _ hhead)
  · rw [hd.run] at hx
    rcases List.mem_append.mp hx with hx | hx
    · exact LoopState.le_trans (h.executed x hx hhead) (hon _ hhead)
    · obtain rfl := List.mem_singleton.mp hx
      exact hd.moved.started hb hhead (h.ready _ (hready ▸ List.mem_cons_self) hhead)

/-- Making start tasks ready. -/
theorem seed_started {ts : List TaskId} (h : Started p b m₀ w) :
    Starts p b m₀ (seed p b s state ts) w := by
  refine seed_ends (I := fun _ w => Started p b m₀ w) ?_ (fun _ _ _ _ => trivial) h
  intro _ w a l activation h _ _ hnext
  refine (h.ledger l).makeReady (a := a) (fun x hx => ?_) rfl
  refine (List.mem_append.mp hx).imp_right fun hx => ?_
  obtain rfl := List.mem_singleton.mp hx
  exact ⟨rfl, hnext⟩

/-- Executing ready activators. -/
theorem drain_started (hw : p.graph.Wired) (hb : b.Onward p.graph) {fuel : Nat}
    (h : Started p b m₀ w) : Starts p b m₀ (drain p b s state fuel) w := by
  refine (drain_ends (I := fun _ w => Started p b m₀ w)
    (fun h hready => executeTask_started hw hb h hready) h).mono ?_ fun _ _ he => he
  rintro _ w' ⟨-, h', -⟩
  exact h'

/-- **A push takes no loop head back**, and those that it executes have started. -/
theorem push_started (hw : p.graph.Wired) (hb : b.Onward p.graph) (hrun : w.run = {}) :
    Starts p b w.memory (push p b s state) w := by
  have hstart : Started p b w.memory w := by
    refine ⟨Behaviour.Advances.refl, ?_, ?_⟩ <;> rw [hrun] <;> exact nofun
  exact Ends.bind (seed_started hstart) fun _ _ h => drain_started hw hb h

end Workspace

/-! ## A whole stage execution -/

variable {s : StageId} {config : ExecutorConfig} {before after : Machine ω}

/-- **A stage execution takes no loop head back**, and the loop head of a stage whose execution
succeeds has started. -/
theorem executeStage_onward (hp : p.IsOrderly s) (hb : b.Onward p.graph) {report : StageReport}
    (hrun : p.executeStage b config s before = (.ok report, after)) :
    b.Advances p.graph before.memory after.memory ∧
      ∀ t ∈ (p.stage s).tasks, (p.graph.task t).isLoopHead = true →
        .running ≤ p.loopState b after.memory t := by
  have hending := executeStage_ending p b config s before
  rw [hrun] at hending
  cases hending with
  | @completes w m₁ m₂ hpush hpublish hrelease =>
    obtain ⟨done, hw⟩ := (Workspace.push_spread hp rfl).ok hpush
    have hstarted := (Workspace.push_started hp.wired hb rfl).ok hpush
    obtain ⟨-, -, ho⟩ := publish_overrides hp hpush hpublish
    obtain ⟨-, -, hmemory⟩ := (Machine.giveBack_ends w.run m₁).ok hrelease
    have hsame : m₂.memory = w.memory := hmemory.trans ho.memory
    change b.Advances p.graph before.memory m₂.memory ∧
      ∀ t ∈ (p.stage s).tasks, _ → .running ≤ p.loopState b m₂.memory t
    rw [hsame]
    refine ⟨hstarted.onward, fun t ht hhead => ?_⟩
    have hstart : t ∈ (p.stage s).startTasks := by
      by_contra hno
      have hroles := hp.plain t ht hno
      unfold Task.isLoopHead Operator.isLoopHead at hhead
      rw [hroles] at hhead
      exact absurd hhead (by simp)
    have hdone := hw.spread.started t hstart
    rw [hw.ready, List.map_nil, List.append_nil, ← hw.once.executed] at hdone
    obtain ⟨x, hx, rfl⟩ := List.mem_map.mp hdone
    exact hstarted.executed x hx hhead

end Onward

end Dataflow
