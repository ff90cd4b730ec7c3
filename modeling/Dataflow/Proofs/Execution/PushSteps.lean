import Dataflow.Proofs.Execution.StageRun
import Dataflow.Proofs.Plan.StageGraph

/-!
# The steps of a push

What each step of a push does, whatever the operators do, in the form in which an invariant of a
push is proved: it is enough to look at the workspaces that the step can lead to.

A step is stated as follows: if the workspace before it is such and such, and a property holds of each
workspace that can come next, then the property holds when the step has ended. What can come next is
said by a relation for each step (`Waiting`, `Delivers`, `Refused`), so that an invariant is proved
from the relation and the program is not unfolded again. All invariants of pushes that fail, or whose
operators do as they like, are proved in this way.

* `bindInput_ends`, `feed_ends`: an activator binds one more input.
* `feedEach_ends`, `feedAll_ends`: instances are fed to their readers.
* `executeTask_ends`: the first ready activator is executed.
* `seed_ends`: start tasks are made ready.
* **`drain_ends`**: ready activators are executed, one after the other.
* `push_fails`: what a push fails with.

The tasks of a stage may be ready in any order here. In `executeTask_ends` the operator is asked
twice, to get ready and to compute, and in between other operators are not: what it has replied is a
function of the memory before (`Computes`, `Moved`).
-/

namespace Dataflow

namespace StageRun

/-- Putting a waiting activator in place leaves those of other tasks. -/
theorem filter_stage (r : StageRun) (a : Activator) :
    ((r.stage a).staged.filter fun x => x.task != a.task).Perm
      (r.staged.filter fun x => x.task != a.task) := by
  refine ((Workspace.perm_stage r a).filter _).trans ?_
  rw [List.filter_cons_of_neg (by simp), List.filter_filter]
  simp

end StageRun

namespace Workspace

/-- An activator has bound the inputs that are fed through the state to what is published, and no
others than those and the ones that were fed. -/
structure Binds (p : Plan) (state : ExecutionState) (fed : Consumer → Prop) (a : Activator) :
    Prop where
  length : a.inputs.length = (p.graph.task a.task).inputs.length
  external : ∀ i, p.isFedExternally a.task i = true →
    a.inputs[i]? = some (((p.graph.task a.task).inputChannel i).bind state.get?)
  inner : ∀ i, a.isBound i = true → p.isFedExternally a.task i = true ∨ fed ⟨a.task, i⟩

section Steps

variable {ω : Type} {p : Plan} {b : Behaviour ω} {s : StageId} {state : ExecutionState}
  {fed fed' : Consumer → Prop} {done : List TaskId} {w : Workspace ω} {a : Activator}

theorem Binds.mono (h : Binds p state fed a) (hfed : ∀ k, fed k → fed' k) :
    Binds p state fed' a := ⟨h.length, h.external, fun i hi => (h.inner i hi).imp_right (hfed _)⟩

/-- An activator that has gathered its external inputs. -/
theorem binds_ofState {t : TaskId} (htask : a.task = t)
    (hlen : a.inputs.length = (p.graph.task t).inputs.length)
    (hin : ∀ j < (p.graph.task t).inputs.length, a.inputs[j]? = some
      (if p.isFedExternally t j then ((p.graph.task t).inputChannel j).bind state.get? else none)) :
    Binds p state fed a := by
  subst htask
  refine ⟨hlen, fun i hi => ?_, fun i hi => ?_⟩
  · have hlt : i < (p.graph.task a.task).inputs.length := by
      cases hc : (p.graph.task a.task).inputChannel i with
      | none =>
        unfold Plan.isFedExternally at hi
        simp only [hc] at hi
        exact absurd hi (by simp)
      | some c => exact lt_length_of_inputChannel hc
    rw [hin i hlt, if_pos hi]
  · refine Or.inl ?_
    by_contra hx
    unfold Activator.isBound at hi
    by_cases hlt : i < (p.graph.task a.task).inputs.length
    · rw [hin i hlt, if_neg hx] at hi
      exact absurd hi (by simp)
    · rw [List.getElem?_eq_none (hlen ▸ Nat.le_of_not_lt hlt)] at hi
      exact absurd hi (by simp)

theorem Binds.bind (h : Binds p state fed a) {input : Nat} (x : InstanceId)
    (hinner : p.isFedExternally a.task input = false) :
    Binds p state (andFed fed ⟨a.task, input⟩) (a.bind input x) := by
  refine ⟨List.length_set.trans h.length, fun i hi => ?_, fun i hi => ?_⟩
  · have hne : input ≠ i := by
      rintro rfl
      rw [show p.isFedExternally a.task input = true from hi] at hinner
      exact absurd hinner (by simp)
    exact (List.getElem?_set_ne hne).trans (h.external i hi)
  · by_cases he : i = input
    · exact Or.inr (Or.inr (by rw [he]; rfl))
    · have hi' : a.isBound i = true := by
        unfold Activator.isBound Activator.bind at hi
        rwa [List.getElem?_set_ne (Ne.symm he)] at hi
      exact (h.inner i hi').imp_right Or.inl

theorem onLedger_ends {α : Type} {x : LedgerM α} {Q : α → Ledger → Prop}
    {E : SchedulingError → Ledger → Prop} (h : Ends x w.ledger Q E) :
    Ends (onLedger x) w (fun a w' => ∃ l, Q a l ∧ w' = { w with ledger := l })
      fun e w' => ∃ e' l, E e' l ∧ e = .scheduling e' ∧ w' = { w with ledger := l } := by
  unfold Ends at h ⊢
  unfold onLedger
  cases hx : x w.ledger <;> simp only [hx] at h ⊢
  · exact ⟨_, h, rfl⟩
  · exact ⟨_, _, h, rfl, rfl⟩

/-! ## Feeding -/

/-- The activators but for the waiting one of a task. -/
def others (r : StageRun) (t : TaskId) : List Activator :=
  (r.staged.filter fun x => x.task != t) ++ r.ready.map Prod.fst

theorem activators_stage (r : StageRun) (a : Activator) :
    (r.stage a).activators.Perm (a :: others r a.task) :=
  (perm_stage r a).append_right _

theorem others_stage (r : StageRun) (a : Activator) :
    (others (r.stage a) a.task).Perm (others r a.task) :=
  (StageRun.filter_stage r a).append_right _

theorem activators_makeReady (r : StageRun) (a : Activator) (activation : Activation) :
    (r.makeReady a activation).activators.Perm (a :: others r a.task) := by
  unfold StageRun.activators StageRun.makeReady others
  rw [List.map_append, ← List.append_assoc]
  exact List.perm_append_comm

/-- The waiting activators after one was put among them. -/
theorem mem_staged_stage {r : StageRun} {x : Activator} (hx : x ∈ (r.stage a).staged) :
    (x ∈ r.staged ∧ x.task ≠ a.task) ∨ x = a := by
  rcases List.mem_cons.mp ((perm_stage r a).mem_iff.mp hx) with rfl | hx
  · exact Or.inr rfl
  · obtain ⟨hx, hne⟩ := List.mem_filter.mp hx
    exact Or.inl ⟨hx, bne_iff_ne.mp hne⟩

/-- An activator takes the place of the waiting one of its task, and becomes ready if there is an
activation for it. -/
def settle (r : StageRun) (a : Activator) : Option Activation → StageRun
  | some activation => (r.stage a).makeReady a activation
  | none => r.stage a

section Settle

variable {r : StageRun} {next : Option Activation}

@[simp] theorem executed_settle : (settle r a next).executed = r.executed := by cases next <;> rfl

@[simp] theorem instances_settle : (settle r a next).instances = r.instances := by
  cases next <;> rfl

theorem activators_settle : (settle r a next).activators.Perm (a :: others r a.task) := by
  cases next with
  | none => exact activators_stage r a
  | some activation =>
    exact (activators_makeReady _ a activation).trans (List.Perm.cons _ (others_stage r a))

theorem mem_ready_settle {x : Activator × Activation} : x ∈ (settle r a next).ready ↔
    x ∈ r.ready ∨ (x.1 = a ∧ next = some x.2) := by
  obtain ⟨y, activation⟩ := x
  cases next with
  | none => exact (or_iff_left fun h => absurd h.2 nofun).symm
  | some activation' =>
    refine List.mem_append.trans (or_congr_right ?_)
    rw [List.mem_singleton, Prod.mk.injEq, Option.some.injEq, eq_comm (a := activation)]

theorem mem_staged_settle {x : Activator} (hx : x ∈ (settle r a next).staged) :
    (x ∈ r.staged ∧ x.task ≠ a.task) ∨ (x = a ∧ next = none) := by
  cases next with
  | none => exact (mem_staged_stage hx).imp_right fun heq => ⟨heq, rfl⟩
  | some activation =>
    obtain ⟨hx, hne⟩ := List.mem_filter.mp hx
    refine Or.inl ((mem_staged_stage hx).resolve_right ?_)
    rintro rfl
    exact absurd hne (by simp)

end Settle

/-- Binding one more input of an activator that waits. -/
theorem bindInput_ends {input : Nat} {i : InstanceId} {Q : Activator → Ledger → Prop}
    {E : SchedulingError → Ledger → Prop} (h : Ends (a.accept input i) w.ledger Q E) :
    Ends (bindInput p b a input i) w
      (fun _ w' => ∃ a' l, Q a' l ∧ w' = { w with
        ledger := l
        run := settle w.run a' (a'.readiness p.graph b w.memory) })
      fun e w' => ∃ e' l, E e' l ∧ e = .scheduling e' ∧ w' = { w with ledger := l } := by
  unfold bindInput
  refine Ends.bind (onLedger_ends h) ?_
  rintro a' _ ⟨l, ha', rfl⟩
  refine Ends.bind (modifyRun_spec _).ends ?_
  rintro _ _ rfl
  refine Ends.bind Succeeds.get.ends ?_
  rintro _ _ ⟨rfl, rfl⟩
  cases hready : a'.readiness p.graph b w.memory with
  | some activation =>
    simp only
    refine ((modifyRun_spec _).mono ?_).ends
    rintro _ _ rfl
    exact ⟨a', l, ha', by rw [hready]; rfl⟩
  | none =>
    simp only
    exact Ends.pure ⟨a', l, ha', by rw [hready]; rfl⟩

/-- The activator of a task that an input is fed to: the one that waits already, or a new one. -/
inductive Waiting (p : Plan) (state : ExecutionState) (w : Workspace ω) (t : TaskId) :
    Activator → Workspace ω → Prop where
  | found {a : Activator} (h : w.run.find? t = some a) : Waiting p state w t a w
  | made {a : Activator} {l : Ledger} (h : w.run.find? t = none) (htask : a.task = t)
      (hb : ∀ fed, Binds p state fed a) (hl : w.ledger.Later l) :
      Waiting p state w t a { w with ledger := l, run := w.run.stage a }

theorem Waiting.later {t : TaskId} {w₁ : Workspace ω} (h : Waiting p state w t a w₁) :
    w.ledger.Later w₁.ledger := by
  cases h with
  | found => exact Ledger.Later.refl _
  | made _ _ _ hl => exact hl

theorem Waiting.memory {t : TaskId} {w₁ : Workspace ω} (h : Waiting p state w t a w₁) :
    w₁.memory = w.memory := by
  cases h <;> rfl

theorem Waiting.ready {t : TaskId} {w₁ : Workspace ω} (h : Waiting p state w t a w₁) :
    w₁.run.ready = w.run.ready := by
  cases h <;> rfl

theorem Waiting.executed {t : TaskId} {w₁ : Workspace ω} (h : Waiting p state w t a w₁) :
    w₁.run.executed = w.run.executed := by
  cases h <;> rfl

/-- Feeding an input of a task. -/
theorem feed_ends {t : TaskId} {input : Nat} {x : InstanceId} {Q : Workspace ω → Prop}
    {E : ExecutionError → Workspace ω → Prop}
    (hbound : ∀ {a : Activator} {w₁ : Workspace ω} {l : Ledger}, Waiting p state w t a w₁ →
      w₁.ledger.Later l → a.inputs[input]? = some none →
      Q { w₁ with
        ledger := l
        run := settle w₁.run (a.bind input x)
          ((a.bind input x).readiness p.graph b w₁.memory) })
    (hfail : ∀ {e : ExecutionError} {w' : Workspace ω}, e.IsOfStage → w.ledger.Later w'.ledger →
      w'.memory = w.memory → E e w') : Ends (feed p b state t input x) w (fun _ w' => Q w') E := by
  have hbind : ∀ {a : Activator} {w₁ : Workspace ω}, Waiting p state w t a w₁ →
      Ends (bindInput p b a input x) w₁ (fun _ w' => Q w') E := by
    intro a w₁ hw
    refine (bindInput_ends Activator.accept_ends).mono ?_ ?_
    · rintro _ _ ⟨_, l, ⟨rfl, hfree, -, hl⟩, rfl⟩
      exact hbound hw hl hfree
    · rintro _ _ ⟨_, _, ⟨rfl, -⟩, rfl, rfl⟩
      exact hfail trivial hw.later hw.memory
  unfold feed
  refine Ends.bind Succeeds.get.ends ?_
  rintro _ _ ⟨rfl, rfl⟩
  cases hfind : w.run.find? t with
  | some a => exact hbind (.found hfind)
  | none =>
    refine Ends.bind ((onLedger_ends Activator.ofState_ends).mono (fun _ _ h => h) ?_) ?_
    · rintro _ _ ⟨_, _, hl, rfl, rfl⟩
      exact hfail trivial hl rfl
    rintro a _ ⟨l, ⟨htask, hlen, hin, hl⟩, rfl⟩
    refine Ends.bind (modifyRun_spec _).ends ?_
    rintro _ _ rfl
    exact hbind (.made hfind htask (fun _ => binds_ofState htask hlen hin) hl)

/-- A connected input that is fed inside the stage and was not fed yet. -/
structure Awaited (p : Plan) (s : StageId) (fed : Consumer → Prop) (c : ChannelId) (k : Consumer) :
    Prop where
  mem : k.task ∈ (p.stage s).tasks
  channel : (p.graph.task k.task).inputChannel k.input = some c
  inner : p.isFedExternally k.task k.input = false
  unfed : ¬ fed k

/-- A task that such an input belongs to has no loop roles. -/
theorem Awaited.plain (hp : p.IsOrderly s) {c : ChannelId} {k : Consumer}
    (hk : Awaited p s fed c k) : (p.graph.task k.task).operator.loopRoles = none := by
  refine hp.plain _ hk.mem fun hstart => ?_
  have hx := hp.external _ hstart _ _ hk.channel
  rw [hk.inner] at hx
  exact absurd hx (by simp)

/-- What is kept by feeding one reader is kept by feeding an instance to some readers, each of which
waits for it. -/
theorem feedEach_ends {I : (Consumer → Prop) → Workspace ω → Prop}
    {E : ExecutionError → Workspace ω → Prop} {x : InstanceId} {c : ChannelId}
    (hstep : ∀ {fed : Consumer → Prop} {w : Workspace ω} {k : Consumer}, I fed w →
      Awaited p s fed c k → Ends (feed p b state k.task k.input x) w
        (fun _ w' => I (andFed fed k) w' ∧ Frame w w') E) :
    ∀ {ks : List Consumer} {fed : Consumer → Prop} {w : Workspace ω}, ks.Nodup →
      (∀ k ∈ ks, Awaited p s fed c k) → I fed w → Ends (feedEach p b state x ks) w
        (fun _ w' => I (fun k => fed k ∨ k ∈ ks) w' ∧ Frame w w') E
  | [], fed, w, _, _, h => by
    refine Ends.pure ⟨?_, Ledger.Later.refl _, rfl⟩
    simpa using h
  | k :: ks, fed, w, hn, hks, h => by
    obtain ⟨hnot, hn⟩ := List.nodup_cons.mp hn
    refine Ends.bind (hstep h (hks k List.mem_cons_self)) ?_
    rintro _ w₁ ⟨h₁, hframe⟩
    have hks₁ : ∀ j ∈ ks, Awaited p s (andFed fed k) c j := fun j hj => by
      have hj' := hks j (List.mem_cons_of_mem _ hj)
      refine ⟨hj'.mem, hj'.channel, hj'.inner, ?_⟩
      rintro (hf | rfl)
      · exact hj'.unfed hf
      · exact hnot hj
    refine (feedEach_ends hstep hn hks₁ h₁).mono ?_ fun _ _ he => he
    rintro _ w₂ ⟨h₂, hframe₂⟩
    refine ⟨?_, hframe.trans hframe₂⟩
    unfold andFed at h₂
    simpa only [List.mem_cons, or_assoc] using h₂

/-- What is kept by feeding one reader is kept by feeding instances of different channels to all
their readers inside the stage. -/
theorem feedAll_ends (hp : p.IsOrderly s) {I : (Consumer → Prop) → Workspace ω → Prop}
    {E : ExecutionError → Workspace ω → Prop} :
    ∀ {xs : List InstanceId} {fed : Consumer → Prop} {w : Workspace ω},
      (∀ {fed : Consumer → Prop} {w : Workspace ω} {c : ChannelId} {k : Consumer}
        {x : InstanceId}, x ∈ xs → I fed w → Awaited p s fed c k →
        Ends (feed p b state k.task k.input x) w
          (fun _ w' => I (andFed fed k) w' ∧ Frame w w') E) →
      (xs.map fun x => (w.ledger.get x).channel).Nodup → (∀ x ∈ xs, x < w.ledger.cells.size) →
      (∀ x ∈ xs, ∀ k ∈ innerConsumers p s (w.ledger.get x).channel,
        Awaited p s fed (w.ledger.get x).channel k) → I fed w →
      Ends (feedAll p b s state xs) w (fun _ w' => I
        (fun k => fed k ∨ ∃ x ∈ xs, k ∈ innerConsumers p s (w.ledger.get x).channel) w' ∧
          Frame w w') E
  | [], _, w, _, _, _, _, h => by
    refine Ends.pure ⟨?_, Ledger.Later.refl _, rfl⟩
    simpa using h
  | x :: xs, fed, w, hstep, hn, hlt, hks, h => by
    obtain ⟨hnot, hn⟩ := List.nodup_cons.mp hn
    have hconsumers : (innerConsumers p s (w.ledger.get x).channel).Nodup := by
      unfold innerConsumers
      simp only
      split
      · exact List.nodup_nil
      · exact (hp.wired.nodup _).filter _
    unfold feedAll
    refine Ends.bind Succeeds.get.ends ?_
    rintro _ _ ⟨rfl, rfl⟩
    refine Ends.bind (feedEach_ends (hstep List.mem_cons_self) hconsumers
      (hks x List.mem_cons_self) h) ?_
    rintro _ w₁ ⟨h₁, hframe⟩
    have hchannel : ∀ y ∈ xs, (w₁.ledger.get y).channel = (w.ledger.get y).channel := fun y hy =>
      hframe.later.channel y (hlt y (List.mem_cons_of_mem _ hy))
    have hmap : xs.map (fun y => (w₁.ledger.get y).channel) =
        xs.map fun y => (w.ledger.get y).channel := List.map_congr_left hchannel
    refine (feedAll_ends hp (fun hy => hstep (List.mem_cons_of_mem _ hy)) (hmap ▸ hn)
      (fun y hy => ?_) (fun y hy k hk => ?_) h₁).mono ?_ fun _ _ he => he
    · exact Nat.lt_of_lt_of_le (hlt y (List.mem_cons_of_mem _ hy)) hframe.later.size
    · rw [hchannel y hy] at hk ⊢
      have hky := hks y (List.mem_cons_of_mem _ hy) k hk
      refine ⟨hky.mem, hky.channel, hky.inner, ?_⟩
      rintro (hf | hx)
      · exact hky.unfed hf
      · -- an input is fed by one channel
        have heq := hky.channel.symm.trans (hks x List.mem_cons_self k hx).channel
        exact hnot (List.mem_map.mpr ⟨y, hy, Option.some.inj heq⟩)
    · rintro _ w₂ ⟨h₂, hframe₂⟩
      refine ⟨?_, hframe.trans hframe₂⟩
      have heq : (fun k => (fed k ∨ k ∈ innerConsumers p s (w.ledger.get x).channel) ∨
          ∃ y ∈ xs, k ∈ innerConsumers p s (w₁.ledger.get y).channel) =
          fun k => fed k ∨ ∃ y ∈ x :: xs, k ∈ innerConsumers p s (w.ledger.get y).channel := by
        funext k
        simp only [List.mem_cons, exists_eq_or_imp, or_assoc]
        refine propext (or_congr_right (or_congr_right (exists_congr fun y =>
          and_congr_right fun hy => ?_)))
        rw [hchannel y hy]
      exact heq ▸ h₂

/-! ## Executing a task -/

/-- The operator of a task succeeds with some emissions for an activation. -/
def Replies (p : Plan) (b : Behaviour ω) (t : TaskId) (activation : Activation) (out : Emissions) :
    Prop :=
  ∃ ctx m, ctx.task = t ∧ ctx.activation = activation ∧
    ctx.outputCount = (p.graph.task t).outputs.length ∧
    (b.evaluate (p.graph.task t).operator.object ctx m).result = .ok () ∧
    (b.evaluate (p.graph.task t).operator.object ctx m).emissions = out

/-- The operators' memory after that of a task was asked to get ready and to compute. -/
def Consulted (p : Plan) (b : Behaviour ω) (t : TaskId) (m m' : ω) : Prop :=
  ∃ ctx ctx', m' = (b.evaluate (p.graph.task t).operator.object ctx'
    (b.prepare (p.graph.task t).operator.object ctx m).memory).memory

/-- What an activation shows to the operator of its task. -/
structure Shown (p : Plan) (a : Activator) (activation : Activation) (l : Ledger)
    (ctx : TaskContext) : Prop where
  task : ctx.task = a.task
  activation : ctx.activation = activation
  outputCount : ctx.outputCount = (p.graph.task a.task).outputs.length
  inputs : ctx.inputs = boundInputs l a.inputs

/-- How an activation goes: the operator of the task is asked to get ready, and if it succeeds it is
asked to compute. -/
inductive Computes (p : Plan) (b : Behaviour ω) (a : Activator) (activation : Activation)
    (w w' : Workspace ω) : Except OperatorError Emissions → Prop
  | prepared {ctx : TaskContext} {cause : OperatorError} (hshown : Shown p a activation w.ledger ctx)
      (hresult : (b.prepare (p.graph.task a.task).operator.object ctx w.memory).result =
        .error cause)
      (hmemory : w'.memory = (b.prepare (p.graph.task a.task).operator.object ctx w.memory).memory) :
      Computes p b a activation w w' (.error cause)
  | evaluated {ctx ctx' : TaskContext} {l : Ledger} {m : ω} {r : Reply ω}
      (hshown : Shown p a activation w.ledger ctx)
      (hresult : (b.prepare (p.graph.task a.task).operator.object ctx w.memory).result = .ok ())
      (hm : m = (b.prepare (p.graph.task a.task).operator.object ctx w.memory).memory)
      (hl : w.ledger.Later l) (hbalanced : b.Careful p.graph a.task → ∀ own held,
        w.ledger.Balanced own held → l.Balanced own held) (hshown' : Shown p a activation l ctx')
      (hr : r = b.evaluate (p.graph.task a.task).operator.object ctx' m)
      (hmemory : w'.memory = r.memory) :
      Computes p b a activation w w' (r.result.map fun _ => r.emissions)

/-- Whatever the operator of a task does. -/
theorem activate_computes {stage : Stage} {activation : Activation} :
    Succeeds (activate p b stage a activation) w fun reply w' =>
      w'.run = w.run ∧ w.ledger.Later w'.ledger ∧ Computes p b a activation w w' reply := by
  unfold activate
  refine Succeeds.bind consult_replies.known ?_
  rintro e w₁ ⟨hconsult, rfl, hm₁, hrun₁, hl₁⟩
  cases hresult : (b.prepare (p.graph.task a.task).operator.object _ w.memory).result with
  | error cause =>
    exact Succeeds.pure ⟨hrun₁, hl₁, .prepared ⟨rfl, rfl, rfl, rfl⟩ hresult hm₁⟩
  | ok _ =>
    refine consult_replies.mono ?_
    rintro reply w₂ ⟨rfl, hm₂, hrun₂, hl₂⟩
    refine ⟨hrun₂.trans hrun₁, hl₁.trans hl₂, .evaluated ⟨rfl, rfl, rfl, rfl⟩ hresult hm₁ hl₁
      (fun hb own held hc => ?_) ⟨rfl, rfl, rfl, rfl⟩ rfl hm₂⟩
    exact ((consult_balanced hb.prepare hc).ends (E := fun _ _ => True)).ok hconsult

/-- What an operator has computed is what it replied. -/
theorem Computes.replies {activation : Activation} {w' : Workspace ω} {out : Emissions}
    (h : Computes p b a activation w w' (.ok out)) :
    Replies p b a.task activation out ∧ Consulted p b a.task w.memory w'.memory := by
  generalize hreply : Except.ok out = reply at h
  cases h with
  | prepared => exact absurd hreply nofun
  | evaluated hshown hresult hm hl hbalanced hshown' hr hmemory =>
    obtain ⟨hok, hout⟩ := map_eq_ok hreply.symm
    subst hm hr
    exact ⟨⟨_, _, hshown'.task, hshown'.activation, hshown'.outputCount, hok, hout.symm⟩, _, _,
      hmemory⟩

/-- The operators' memory after a loop head was seen to have started: a loop head that was
initialized and has not is told to run, and does. -/
def Followed (p : Plan) (b : Behaviour ω) (t : TaskId) (activation : Activation) (m m' : ω) : Prop :=
  if activation = .loopInitialization ∧
      b.loopState (p.graph.task t).operator.object m = .notStarted then
    ∃ old, b.advance (p.graph.task t).operator.object .running m = (.ok old, m')
  else m' = m

/-- Following a loop head changes neither instances nor activators, and it fails only if the loop
head had to be started and could not. -/
theorem followLoopHead_ends {t : TaskId} {activation : Activation} {before : LoopState} :
    Ends (followLoopHead p b t activation before) w
      (fun _ w' => w'.ledger = w.ledger ∧ w'.run = w.run ∧
        Followed p b t activation w.memory w'.memory) fun e w' => w'.ledger = w.ledger ∧
        w'.run = w.run ∧ activation = .loopInitialization ∧
        b.loopState (p.graph.task t).operator.object w.memory = .notStarted ∧
        ∃ cause, e = .illegalState cause ∧
          b.advance (p.graph.task t).operator.object .running w.memory =
            (.error cause, w'.memory) := by
  have htell : ∀ w' : Workspace ω, w'.ledger = w.ledger → w'.run = w.run →
      Followed p b t activation w.memory w'.memory → Succeeds (do
        let after := b.loopState (p.graph.task t).operator.object (← get).memory
        if after ≠ before then emit (.loopStateChanged t before after) : WorkspaceM ω Unit) w'
        fun _ w' => w'.ledger = w.ledger ∧ w'.run = w.run ∧
          Followed p b t activation w.memory w'.memory := by
    intro w' hl hr hm
    refine Succeeds.bind Succeeds.get ?_
    rintro _ _ ⟨rfl, rfl⟩
    simp only
    split
    · exact (emit_spec _).mono fun _ _ ⟨_, h⟩ => h ▸ ⟨hl, hr, hm⟩
    · exact Succeeds.pure ⟨hl, hr, hm⟩
  unfold followLoopHead
  refine Ends.bind Succeeds.get.ends ?_
  rintro _ _ ⟨rfl, rfl⟩
  split
  · rename_i h
    refine Ends.bind Succeeds.get.ends ?_
    rintro _ _ ⟨rfl, rfl⟩
    rcases hadvance : b.advance (p.graph.task t).operator.object .running w.memory with
      ⟨outcome, memory⟩
    have hset : Succeeds (set { w with memory } : WorkspaceM ω PUnit) w
        fun _ w' => w' = { w with memory } := ⟨_, _, rfl, rfl⟩
    refine Ends.bind hset.ends ?_
    rintro _ _ rfl
    cases outcome with
    | ok old => exact (htell { w with memory } rfl rfl ((if_pos h).mpr ⟨old, hadvance⟩)).ends
    | error e => exact Ends.throw ⟨rfl, rfl, h.1, h.2, e, rfl, rfl⟩
  · rename_i h
    exact (htell w rfl rfl ((if_neg h).mpr rfl)).ends

/-- The instances that the execution of a task has produced. -/
structure Yields (p : Plan) (t : TaskId) (l l' : Ledger) (is : List InstanceId) : Prop where
  channels : (is.map fun i => (l'.get i).channel).Nodup
  fresh : ∀ i ∈ is, l.cells.size ≤ i ∧ i < l'.cells.size
  producer : ∀ i ∈ is, (l'.get i).channel < p.graph.channels.length ∧
    (p.graph.channel (l'.get i).channel).producer = t
  data : ∀ i ∈ is, (l'.get i).references ≠ 0 → (l'.get i).payload ≠ none

/-- What a task emitted becomes instances of its channels. -/
theorem produce_yields (hw : p.graph.Wired) {t : TaskId} {out : Emissions} :
    Succeeds (produce p t 0 out) w fun is w' =>
      w'.run = w.run ∧ w'.memory = w.memory ∧ w.ledger.Later w'.ledger ∧
        Yields p t w.ledger w'.ledger is ∧
        is.map (fun i => (w'.ledger.get i).channel) = (emitted p t 0 out).map Prod.fst := by
  refine produce_makes.mono ?_
  rintro is w' ⟨hcarry, h⟩
  refine ⟨h.run, h.memory, h.later, ⟨?_, h.fresh, fun i hi => ?_, fun i hi _ => ?_⟩,
    hcarry.map_channel⟩
  · rw [hcarry.map_channel]
    exact nodup_emitted hw
  · obtain ⟨⟨c, x⟩, hcx, hlive⟩ := hcarry.exists_of_mem hi
    obtain ⟨j, e, -, hc, -⟩ := mem_emitted.mp hcx
    obtain ⟨hlt, hprod, -⟩ := (hw.output_iff _ _ _).mp hc
    rw [hlive.1]
    exact ⟨hlt, hprod⟩
  · obtain ⟨_, -, hlive⟩ := hcarry.exists_of_mem hi
    rw [hlive.2]
    exact nofun

theorem Yields.later {t : TaskId} {l l' l'' : Ledger} {is : List InstanceId}
    (h : Yields p t l l' is) (hl : l'.Later l'') : Yields p t l l'' is := by
  have hchannel : ∀ i ∈ is, (l''.get i).channel = (l'.get i).channel := fun i hi =>
    hl.channel i (h.fresh i hi).2
  refine ⟨?_, fun i hi => ?_, fun i hi => ?_, fun i hi hr => ?_⟩
  · rw [List.map_congr_left hchannel]
    exact h.channels
  · exact ⟨(h.fresh i hi).1, Nat.lt_of_lt_of_le (h.fresh i hi).2 hl.size⟩
  · rw [hchannel i hi]
    exact h.producer i hi
  · obtain ⟨hr', hpayload⟩ := hl.payload i (h.fresh i hi).2 hr
    rw [hpayload]
    exact h.data i hi hr'

theorem Yields.earlier {t : TaskId} {l l' l'' : Ledger} {is : List InstanceId}
    (h : Yields p t l' l'' is) (hl : l.Later l') : Yields p t l l'' is :=
  ⟨h.channels, fun i hi => ⟨Nat.le_trans hl.size (h.fresh i hi).1, (h.fresh i hi).2⟩, h.producer,
    h.data⟩

/-- A reader inside the stage of what a task has produced waits for it. -/
theorem awaited_of_yields (hp : p.IsOrderly s) {t : TaskId} (ht : t ∈ (p.stage s).tasks)
    (hnew : t ∉ done) {l l' : Ledger} {is : List InstanceId} (his : Yields p t l l' is)
    {x : InstanceId} (hx : x ∈ is) {k : Consumer}
    (hk : k ∈ innerConsumers p s (l'.get x).channel) :
    Awaited p s (fedBy p s done) (l'.get x).channel k := by
  obtain ⟨hlt, hprod⟩ := his.producer x hx
  obtain ⟨hstage, hc, hb⟩ := (mem_innerConsumers hp.wired hlt).mp hk
  refine ⟨(hp.placed _).mp hstage, hc, ?_, ?_⟩
  · rw [isFedExternally_eq hc, hb, hprod, hstage, (hp.placed t).mpr ht]
    simp
  · rintro ⟨-, d, hd, -, hdone⟩
    rw [hc] at hd
    obtain rfl := Option.some.inj hd
    exact hnew (hprod ▸ hdone)

/-- What becomes of the operators' memory when a task is executed. -/
def Moved (p : Plan) (b : Behaviour ω) (t : TaskId) (activation : Activation) (m m' : ω) : Prop :=
  ∃ m₁, Consulted p b t m m₁ ∧
    if (p.graph.task t).isLoopHead then Followed p b t activation m₁ m' else m' = m₁

/-- The execution of a ready activator up to what its operator has emitted: a loop head is seen to
have started. -/
def Performs (p : Plan) (b : Behaviour ω) (a : Activator) (activation : Activation)
    (w : Workspace ω) (out : Emissions) (m : ω) : Prop :=
  ∃ w₁, Computes p b a activation w w₁ (.ok out) ∧
    if (p.graph.task a.task).isLoopHead then Followed p b a.task activation w₁.memory m
    else m = w₁.memory

/-- What the execution of a ready activator leaves to be fed: the instances `is`, made of what the
operator of the task replied. -/
structure Delivers (p : Plan) (b : Behaviour ω) (a : Activator) (activation : Activation)
    (rest : List (Activator × Activation)) (w : Workspace ω) (is : List InstanceId)
    (w' : Workspace ω) : Prop where
  run : w'.run = { w.run with
    ready := rest
    instances := w.run.instances ++ is
    executed := w.run.executed ++ [⟨a.task, activation⟩] }
  later : w.ledger.Later w'.ledger
  yields : Yields p a.task w.ledger w'.ledger is
  balanced : b.Careful p.graph a.task → ∀ own held, w.ledger.Balanced own (a.bound ++ held) →
    w'.ledger.Balanced own (is ++ held)
  performs : ∃ out, Performs p b a activation w out w'.memory ∧
    is.map (fun i => (w'.ledger.get i).channel) = (emitted p a.task 0 out).map Prod.fst

section Delivers

variable {activation : Activation} {rest : List (Activator × Activation)} {is : List InstanceId}
  {w' : Workspace ω}

theorem Delivers.moved (h : Delivers p b a activation rest w is w') :
    Moved p b a.task activation w.memory w'.memory := by
  obtain ⟨out, ⟨w₁, hcomputes, hfollowed⟩, -⟩ := h.performs
  exact ⟨_, hcomputes.replies.2, hfollowed⟩

theorem Delivers.replied (h : Delivers p b a activation rest w is w') :
    ∃ out, Replies p b a.task activation out ∧
      is.map (fun i => (w'.ledger.get i).channel) = (emitted p a.task 0 out).map Prod.fst := by
  obtain ⟨out, ⟨w₁, hcomputes, -⟩, hchannels⟩ := h.performs
  exact ⟨out, hcomputes.replies.1, hchannels⟩

end Delivers

/-- How the execution of a ready activator fails before its results are fed: the operator fails, a
loop head that has to be started is not, or an input cannot be given back. -/
inductive Refuses (p : Plan) (b : Behaviour ω) (s : StageId) (a : Activator)
    (activation : Activation) (w : Workspace ω) (m : ω) : ExecutionError → Prop
  | operator {cause : OperatorError} {w₁ : Workspace ω}
      (hcomputes : Computes p b a activation w w₁ (.error cause)) (hm : m = w₁.memory) :
      Refuses p b s a activation w m
        (.task a.task (p.graph.task a.task).operator.name s cause)
  | start {out : Emissions} {w₁ : Workspace ω} {cause : IllegalStateError}
      (hcomputes : Computes p b a activation w w₁ (.ok out))
      (hhead : (p.graph.task a.task).isLoopHead = true) (hinit : activation = .loopInitialization)
      (hstate : b.loopState (p.graph.task a.task).operator.object w₁.memory = .notStarted)
      (hadvance : b.advance (p.graph.task a.task).operator.object .running w₁.memory =
        (.error cause, m)) :
      Refuses p b s a activation w m (.illegalState cause)
  | giveBack {cause : OperatorError} {w₁ : Workspace ω} {c : ChannelId}
      (hcomputes : Computes p b a activation w w₁ (.error cause)) (hm : m = w₁.memory) :
      Refuses p b s a activation w m (.scheduling (.doubleRelease c))
  | giveBackDone {out : Emissions} {c : ChannelId} (hperforms : Performs p b a activation w out m) :
      Refuses p b s a activation w m (.scheduling (.doubleRelease c))

/-- What is left when the execution of a ready activator has failed before its results were fed. -/
structure Refused (p : Plan) (b : Behaviour ω) (s : StageId) (a : Activator)
    (activation : Activation) (rest : List (Activator × Activation)) (w : Workspace ω)
    (e : ExecutionError) (w' : Workspace ω) : Prop where
  refuses : Refuses p b s a activation w w'.memory e
  run : w'.run = { w.run with ready := rest }
  later : w.ledger.Later w'.ledger
  /-- An operator that leaves references alone is the only reason. -/
  balanced : b.Careful p.graph a.task → ∀ own held, w.ledger.Balanced own (a.bound ++ held) →
    w'.ledger.Balanced own held ∧
      ∃ cause, e = .task a.task (p.graph.task a.task).operator.name s cause

theorem Refused.isOfStage {activation : Activation} {rest : List (Activator × Activation)}
    {e : ExecutionError} {w' : Workspace ω} (h : Refused p b s a activation rest w e w') :
    e.IsOfStage := by
  cases h.refuses <;> exact trivial

/-- What follows when the task of a ready activator has computed. -/
theorem deliver_ends (hw : p.graph.Wired) {activation : Activation}
    {rest : List (Activator × Activation)} {Q : Unit → Workspace ω → Prop}
    {E : ExecutionError → Workspace ω → Prop}
    (hfeed : ∀ is w', Delivers p b a activation rest w is w' → Ends (feedAll p b s state is) w' Q E)
    (hfail : ∀ e w', Refused p b s a activation rest w e w' → E e w')
    {w₁ : Workspace ω} {out : Emissions} {e : ExecutionEvent}
    (hrun₁ : w₁.run = { w.run with ready := rest }) (hl₁ : w.ledger.Later w₁.ledger)
    (hbalanced₁ : b.Careful p.graph a.task → ∀ own held, w.ledger.Balanced own held →
      w₁.ledger.Balanced own held)
    (hperforms : Performs p b a activation w out w₁.memory) : Ends (do
      let produced ← produce p a.task 0 out
      onLedger a.dispose
      modifyRun fun r => { r with
        instances := r.instances ++ produced
        executed := r.executed ++ [⟨a.task, activation⟩] }
      emit e
      feedAll p b s state produced) w₁ Q E := by
  refine Ends.bind (produce_yields hw).known.ends ?_
  rintro is w₂ ⟨hproduce, hrun₂, hmemory, hl₂, his, hchannels⟩
  have hl := hl₁.trans hl₂
  have hbalanced₂ : b.Careful p.graph a.task → ∀ own held,
      w.ledger.Balanced own (a.bound ++ held) → w₂.ledger.Balanced own (a.bound ++ (is ++ held)) :=
    fun hb own held hc => ((produce_balanced (hbalanced₁ hb own _ hc)).ends (E := fun _ _ => True)
      |>.ok hproduce).perm (List.perm_append_comm_assoc _ _ _)
  rw [← hmemory] at hperforms
  refine Ends.bind ((onLedger_ends Ledger.releaseEach_ends.known).mono (fun _ _ h => h) ?_) ?_
  · rintro _ _ ⟨_, l₃, ⟨hrelease, hl₃, c, rfl⟩, rfl, rfl⟩
    refine hfail _ _ ⟨.giveBackDone hperforms, hrun₂.trans hrun₁, hl.trans hl₃, fun hb own held hc => ?_⟩
    exact (((hbalanced₂ hb own held hc).releaseEach.ends (E := fun _ _ => False)).error hrelease).elim
  rintro _ _ ⟨l₃, ⟨hrelease, hl₃⟩, rfl⟩
  refine Ends.bind (modifyRun_spec _).ends ?_
  rintro _ _ rfl
  refine Ends.bind (emit_spec _).ends ?_
  rintro _ _ ⟨events, rfl⟩
  refine hfeed is _ ⟨?_, hl.trans hl₃, (his.later hl₃).earlier hl₁, fun hb own held hc => ?_, out,
    hperforms, ?_⟩
  · change StageRun.mk _ _ _ _ = _
    rw [hrun₂, hrun₁]
  · exact (((hbalanced₂ hb own held hc).releaseEach.ends (E := fun _ _ => True)).ok hrelease).2
  · rw [← hchannels]
    exact List.map_congr_left fun i hi => hl₃.channel i (his.fresh i hi).2

/-- Executing the first ready activator. -/
theorem executeTask_ends (hw : p.graph.Wired) {activation : Activation}
    {rest : List (Activator × Activation)} {Q : Unit → Workspace ω → Prop}
    {E : ExecutionError → Workspace ω → Prop}
    (hfeed : ∀ is w', Delivers p b a activation rest w is w' → Ends (feedAll p b s state is) w' Q E)
    (hfail : ∀ e w', Refused p b s a activation rest w e w' → E e w') :
    Ends (executeTask p b s state a activation) { w with run := { w.run with ready := rest } }
      Q E := by
  unfold executeTask
  refine Ends.bind Succeeds.get.ends ?_
  rintro _ _ ⟨rfl, rfl⟩
  refine Ends.bind activate_computes.known.ends ?_
  rintro reply w₁ ⟨hactivate, hrun₁, hl₁, hreply⟩
  have hbalanced₁ : b.Careful p.graph a.task → ∀ own held, w.ledger.Balanced own held →
      w₁.ledger.Balanced own held := fun hb own held hc =>
    ((activate_balanced (w := { w with run := { w.run with ready := rest } }) hb hc).ends
      (E := fun _ _ => True)).ok hactivate
  have hcomputes : Computes p b a activation w w₁ reply := by
    cases hreply with
    | prepared hshown hresult hm => exact .prepared hshown hresult hm
    | evaluated hshown hresult hm hl hbalanced hshown' hr hm' =>
      exact .evaluated hshown hresult hm hl hbalanced hshown' hr hm'
  cases reply with
  | error cause =>
    refine Ends.bind ((onLedger_ends Ledger.releaseEach_ends.known).mono (fun _ _ h => h) ?_) ?_
    · rintro _ _ ⟨_, l₂, ⟨hrelease, hl₂, c, rfl⟩, rfl, rfl⟩
      refine hfail _ _ ⟨.giveBack hcomputes rfl, hrun₁, hl₁.trans hl₂, fun hb own held hc => ?_⟩
      exact (((hbalanced₁ hb own _ hc).releaseEach.ends (E := fun _ _ => False)).error hrelease).elim
    rintro _ _ ⟨l₂, ⟨hrelease, hl₂⟩, rfl⟩
    refine Ends.throw (hfail _ _ ⟨.operator hcomputes rfl, hrun₁, hl₁.trans hl₂,
      fun hb own held hc => ⟨?_, cause, rfl⟩⟩)
    exact (((hbalanced₁ hb own _ hc).releaseEach.ends (E := fun _ _ => True)).ok hrelease).2
  | ok out =>
    simp only
    split
    · rename_i hhead
      refine Ends.bind (followLoopHead_ends.mono (fun _ _ h => h) ?_) ?_
      · rintro _ w₂ ⟨hl₂, hrun₂, hinit, hstate, cause, rfl, hadvance⟩
        refine hfail _ _ ⟨.start hcomputes hhead hinit hstate hadvance, hrun₂.trans hrun₁,
          hl₂ ▸ hl₁, fun hb => ?_⟩
        have hok := ((hb.cell hhead).advance .running w₁.memory (hstate ▸ Nat.zero_le _)).1
        rw [hadvance] at hok
        exact absurd hok nofun
      rintro _ w₂ ⟨hl₂, hrun₂, hfollowed⟩
      exact deliver_ends hw hfeed hfail (hrun₂.trans hrun₁) (hl₂ ▸ hl₁) (hl₂ ▸ hbalanced₁)
        ⟨w₁, hcomputes, (if_pos hhead).mpr hfollowed⟩
    · rename_i hhead
      exact deliver_ends hw hfeed hfail hrun₁ hl₁ hbalanced₁
        ⟨w₁, hcomputes, (if_neg hhead).mpr rfl⟩

/-! ## The whole push -/

/-- What becomes of start tasks that are made ready. -/
theorem seed_ends {I : List TaskId → Workspace ω → Prop} {E : ExecutionError → Workspace ω → Prop}
    (hready : ∀ {ts : List TaskId} {w : Workspace ω} {a : Activator} {l : Ledger}
      {activation : Activation}, I (a.task :: ts) w → (∀ fed, Binds p state fed a) →
      w.ledger.Later l → a.readiness p.graph b w.memory = some activation →
      I ts { w with ledger := l, run := { w.run with ready := w.run.ready ++ [(a, activation)] } })
    (hfail : ∀ {ts : List TaskId} {e : ExecutionError} {w w' : Workspace ω}, I ts w → e.IsOfStage →
      w.ledger.Later w'.ledger → w'.memory = w.memory → E e w') :
    ∀ {ts : List TaskId} {w : Workspace ω}, I ts w →
      Ends (seed p b s state ts) w (fun _ w' => I [] w') E
  | [], _, h => Ends.pure h
  | t :: ts, w, h => by
    unfold seed
    refine Ends.bind ((onLedger_ends Activator.ofState_ends).mono (fun _ _ h => h) ?_) ?_
    · rintro _ _ ⟨_, _, hl, rfl, rfl⟩
      exact hfail h trivial hl rfl
    rintro a _ ⟨l, ⟨rfl, hlen, hin, hl⟩, rfl⟩
    refine Ends.bind Succeeds.get.ends ?_
    rintro _ _ ⟨rfl, rfl⟩
    cases hactivation : a.readiness p.graph b w.memory with
    | none =>
      simp only
      refine Ends.bind ((onLedger_ends Ledger.releaseEach_ends).mono (fun _ _ h => h) ?_) ?_
      · rintro _ _ ⟨_, _, ⟨hl', -⟩, rfl, rfl⟩
        exact hfail h trivial (hl.trans hl') rfl
      rintro _ _ ⟨l', hl', rfl⟩
      exact Ends.throw (hfail h trivial (hl.trans hl') rfl)
    | some activation =>
      simp only
      refine Ends.bind (modifyRun_spec _).ends ?_
      rintro _ _ rfl
      exact seed_ends hready hfail
        (hready (w := w) h (fun _ => binds_ofState rfl hlen hin) hl hactivation)

/-- **What the execution of the first ready activator keeps is kept** until none is ready any more or
the fuel is spent. -/
theorem drain_ends {I : Nat → Workspace ω → Prop} {E : ExecutionError → Workspace ω → Prop}
    (hstep : ∀ {fuel : Nat} {w : Workspace ω} {a : Activator} {activation : Activation}
      {rest : List (Activator × Activation)}, I (fuel + 1) w →
      w.run.ready = (a, activation) :: rest → Ends (executeTask p b s state a activation)
        { w with run := { w.run with ready := rest } } (fun _ w' => I fuel w') E) :
    ∀ {fuel : Nat} {w : Workspace ω}, I fuel w → Ends (drain p b s state fuel) w
      (fun _ w' => ∃ left, I left w' ∧ (left = 0 ∨ w'.run.ready = [])) E
  | 0, _, h => Ends.pure ⟨0, h, Or.inl rfl⟩
  | fuel + 1, w, h => by
    unfold drain
    refine Ends.bind Succeeds.get.ends ?_
    rintro _ _ ⟨rfl, rfl⟩
    cases hready : w.run.ready with
    | nil => exact Ends.pure ⟨_, h, Or.inr hready⟩
    | cons r rest =>
      obtain ⟨a, activation⟩ := r
      simp only
      refine Ends.bind (modifyRun_spec _).ends ?_
      rintro _ _ rfl
      exact Ends.bind (hstep h hready) fun _ _ h' => drain_ends hstep h'

/-! ## How a push fails -/

theorem feedEach_fails {x : InstanceId} : ∀ {ks : List Consumer} {w : Workspace ω},
    Ends (feedEach p b state x ks) w (fun _ _ => True) fun e _ => e.IsOfStage
  | [], _ => Ends.pure trivial
  | _ :: _, _ => Ends.bind (feed_ends (Q := fun _ => True) (fun _ _ _ => trivial) fun he _ _ => he)
      fun _ _ _ => feedEach_fails

theorem feedAll_fails : ∀ {xs : List InstanceId} {w : Workspace ω},
    Ends (feedAll p b s state xs) w (fun _ _ => True) fun e _ => e.IsOfStage
  | [], _ => Ends.pure trivial
  | _ :: _, w => by
    unfold feedAll
    refine Ends.bind Succeeds.get.ends ?_
    rintro _ _ ⟨rfl, rfl⟩
    exact Ends.bind feedEach_fails fun _ _ _ => feedAll_fails

/-- A push does not fail like a whole plan. -/
theorem push_fails (hw : p.graph.Wired) :
    Ends (push p b s state) w (fun _ _ => True) fun e _ => e.IsOfStage := by
  refine Ends.bind (seed_ends (I := fun _ _ => True) (fun _ _ _ _ => trivial)
    (fun _ he _ _ => he) trivial) fun _ _ _ => ?_
  refine (drain_ends (I := fun _ _ => True) (fun _ _ => ?_) trivial).mono (fun _ _ _ => trivial)
    fun _ _ he => he
  exact executeTask_ends hw (fun _ _ _ => feedAll_fails) fun _ _ hr => hr.isOfStage

end Steps

end Workspace

end Dataflow
