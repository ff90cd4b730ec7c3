import Dataflow.Proofs.Execution.PushSteps

/-!
# Each task once

Whatever the operators of a stage do, a push activates each task of the stage at most once: a task
that is ready has been fed by all its producers inside the stage, and nothing is left to feed it.
`Once` says so at any moment of a push, together with what follows from it: the instances are new
and of different channels, and what an activator reads through the state is what is published.

That a task is fed by its producers, and each of its inputs once, rests on the graph: an input has one
channel and a channel one producer. So by induction on the push each task that is executed was not
executed before, and feeds inputs that were not fed before.

* `feed_once`, `executeTask_once`, `seed_once`: the steps.
* `Once.feedAll_ends`: what else is kept when an executed task feeds its readers.
* **`push_once`**: a whole push.
-/

namespace Dataflow

namespace Workspace

/-- Every connected input of a task is fed through the state or was fed inside the stage. -/
def Filled (p : Plan) (fed : Consumer → Prop) (t : TaskId) : Prop :=
  ∀ i c, (p.graph.task t).inputChannel i = some c →
    p.isFedExternally t i = true ∨ fed ⟨t, i⟩

/-- A push that began with the ledger `l₀`, has fed the inputs `fed` and executed the tasks
`done`. -/
structure Once {ω : Type} (p : Plan) (s : StageId) (state : ExecutionState) (l₀ : Ledger)
    (fed : Consumer → Prop) (done : List TaskId) (w : Workspace ω) : Prop where
  nodup : (done ++ w.run.activators.map Activator.task).Nodup
  tasks : ∀ t ∈ done ++ w.run.activators.map Activator.task, t ∈ (p.stage s).tasks
  filled : ∀ t ∈ done ++ w.run.ready.map (fun r => r.1.task), Filled p fed t
  binds : ∀ a ∈ w.run.activators, Binds p state fed a
  executed : w.run.executed.map ExecutedTask.task = done
  channels : (w.run.instances.map fun i => (w.ledger.get i).channel).Nodup
  fresh : ∀ i ∈ w.run.instances, l₀.cells.size ≤ i ∧ i < w.ledger.cells.size
  produced : ∀ i ∈ w.run.instances, (p.graph.channel (w.ledger.get i).channel).producer ∈ done
  later : l₀.Later w.ledger

section Once

variable {ω : Type} {p : Plan} {b : Behaviour ω} {s : StageId} {state : ExecutionState}
  {l₀ : Ledger} {fed fed' : Consumer → Prop} {done : List TaskId} {w : Workspace ω} {a : Activator}

theorem Once.mono (h : Once p s state l₀ fed done w) (hfed : ∀ k, fed k → fed' k) :
    Once p s state l₀ fed' done w :=
  ⟨h.nodup, h.tasks, fun t ht i c hc => (h.filled t ht i c hc).imp_right (hfed _),
    fun a ha => (h.binds a ha).mono hfed, h.executed, h.channels, h.fresh, h.produced, h.later⟩

/-- The instances of a push keep their channels. -/
theorem Once.channel_eq (h : Once p s state l₀ fed done w) {l : Ledger} (hl : w.ledger.Later l) :
    ∀ i ∈ w.run.instances, (l.get i).channel = (w.ledger.get i).channel :=
  fun i hi => hl.channel i (h.fresh i hi).2

theorem Once.ledger (h : Once p s state l₀ fed done w) {l : Ledger} (hl : w.ledger.Later l) :
    Once p s state l₀ fed done { w with ledger := l } := by
  have hchannel := h.channel_eq hl
  refine ⟨h.nodup, h.tasks, h.filled, h.binds, h.executed, ?_, fun i hi => ?_, fun i hi => ?_,
    h.later.trans hl⟩
  · change (w.run.instances.map fun i => (l.get i).channel).Nodup
    rw [List.map_congr_left hchannel]
    exact h.channels
  · exact ⟨(h.fresh i hi).1, Nat.lt_of_lt_of_le (h.fresh i hi).2 hl.size⟩
  · change (p.graph.channel (l.get i).channel).producer ∈ done
    rw [hchannel i hi]
    exact h.produced i hi

/-! ## Feeding -/

/-- An activator of a task that is neither executed nor ready is put in place of the waiting one, or
becomes ready. -/
theorem Once.put (h : Once p s state l₀ fed done w) {r : StageRun}
    (hperm : r.activators.Perm (a :: others w.run a.task))
    (hready : ∀ x ∈ r.ready, x ∈ w.run.ready ∨ (x.1 = a ∧ Filled p fed a.task))
    (hinstances : r.instances = w.run.instances) (hexecuted : r.executed = w.run.executed)
    (htask : a.task ∈ (p.stage s).tasks)
    (hnew : a.task ∉ done ++ w.run.ready.map fun r => r.1.task) (hb : Binds p state fed a) :
    Once p s state l₀ fed done { w with run := r } := by
  have hsub : ∀ x ∈ others w.run a.task, x ∈ w.run.activators := fun x hx =>
    (List.mem_append.mp hx).elim (fun hx => List.mem_append_left _ (List.mem_filter.mp hx).1)
      fun hx => List.mem_append_right _ hx
  have hothers : a.task ∉ (others w.run a.task).map Activator.task := by
    unfold others
    rw [List.map_append, List.mem_append, mem_map_filter_task, List.map_map]
    rintro (⟨-, hne⟩ | hmem)
    · exact hne rfl
    · exact hnew (List.mem_append_right _ hmem)
  have htasks : (r.activators.map Activator.task).Perm
      (a.task :: (others w.run a.task).map Activator.task) := hperm.map _
  refine {
    nodup := ?nodup
    tasks := fun t ht => ?tasks
    filled := fun t ht => ?filled
    binds := fun x hx => ?binds
    executed := hexecuted ▸ h.executed
    channels := hinstances ▸ h.channels
    fresh := hinstances ▸ h.fresh
    produced := hinstances ▸ h.produced
    later := h.later }
  case nodup =>
    refine ((htasks.append_left done).trans List.perm_middle).nodup_iff.mpr
      (List.nodup_cons.mpr ⟨fun hm => ?_, h.nodup.sublist ?_⟩)
    · exact (List.mem_append.mp hm).elim (fun hm => hnew (List.mem_append_left _ hm)) hothers
    · exact (((List.filter_sublist.append_right _).map _).append_left _)
  case tasks =>
    rcases List.mem_append.mp ht with ht | ht
    · exact h.tasks t (List.mem_append_left _ ht)
    · rcases List.mem_cons.mp (htasks.mem_iff.mp ht) with rfl | ht
      · exact htask
      · obtain ⟨x, hx, rfl⟩ := List.mem_map.mp ht
        exact h.tasks _ (List.mem_append_right _ (List.mem_map_of_mem (hsub x hx)))
  case filled =>
    rcases List.mem_append.mp ht with ht | ht
    · exact h.filled t (List.mem_append_left _ ht)
    · obtain ⟨x, hx, rfl⟩ := List.mem_map.mp ht
      rcases hready x hx with hx | ⟨heq, hfilled⟩
      · exact h.filled _ (List.mem_append_right _ (List.mem_map_of_mem hx))
      · rw [heq]
        exact hfilled
  case binds =>
    rcases List.mem_cons.mp (hperm.mem_iff.mp hx) with rfl | hx
    · exact hb
    · exact h.binds x (hsub x hx)

/-- The task of such an input is not ready. -/
theorem Once.not_mem_of_awaited (h : Once p s state l₀ fed done w) {c : ChannelId} {k : Consumer}
    (hk : Awaited p s fed c k) : k.task ∉ done ++ w.run.ready.map fun r => r.1.task := fun hm => by
  rcases h.filled _ hm _ _ hk.channel with hx | hf
  · rw [hk.inner] at hx
    exact absurd hx (by simp)
  · exact hk.unfed hf

/-- A task without loop roles that is ready has been fed all its inputs. -/
theorem Binds.filled (h : Binds p state fed a)
    (hplain : (p.graph.task a.task).operator.loopRoles = none) {m : ω} {activation : Activation}
    (hr : a.readiness p.graph b m = some activation) : Filled p fed a.task := by
  intro i c hc
  unfold Activator.readiness Dataflow.readiness at hr
  rw [hplain] at hr
  simp only at hr
  split at hr
  · rename_i hall
    exact h.inner i (List.all_eq_true.mp hall i (List.mem_range.mpr (lt_length_of_inputChannel hc)))
  · exact absurd hr (by simp)

/-- Nothing is done twice when an activator starts to wait. -/
theorem Once.waiting (h : Once p s state l₀ fed done w) {c : ChannelId} {k : Consumer}
    (hk : Awaited p s fed c k) {w₁ : Workspace ω} (hw : Waiting p state w k.task a w₁) :
    a.task = k.task ∧ Binds p state fed a ∧ Once p s state l₀ fed done w₁ ∧ Frame w w₁ := by
  cases hw with
  | found hfind =>
    have hmem : a ∈ w.run.activators := List.mem_append_left _ (List.mem_of_find?_eq_some hfind)
    exact ⟨by simpa using List.find?_some hfind, h.binds a hmem, h, Ledger.Later.refl _, rfl⟩
  | made _ htask hb hl =>
    exact ⟨htask, hb fed, (h.ledger hl).put (activators_stage w.run a) (fun y hy => Or.inl hy) rfl rfl
      (htask ▸ hk.mem) (htask ▸ h.not_mem_of_awaited hk) (hb fed), hl, rfl⟩

/-- Feeding an input that waits for it. -/
theorem feed_once (hp : p.IsOrderly s) {c : ChannelId} {k : Consumer} {x : InstanceId}
    (h : Once p s state l₀ fed done w) (hk : Awaited p s fed c k) :
    Ends (feed p b state k.task k.input x) w
      (fun _ w' => Once p s state l₀ (andFed fed k) done w' ∧ Frame w w')
      fun _ w' => l₀.Later w'.ledger := by
  refine feed_ends (fun {a w₁ l} hw hl _ => ?_) fun _ hl _ => h.later.trans hl
  obtain ⟨htask, hb, h₁, hframe⟩ := h.waiting hk hw
  obtain ⟨t, input⟩ := k
  obtain rfl : a.task = t := htask
  have hb' := hb.bind x hk.inner
  have hfed : Once p s state l₀ (andFed fed ⟨a.task, input⟩) done { w₁ with ledger := l } :=
    (h₁.ledger hl).mono fun _ => Or.inl
  refine ⟨hfed.put activators_settle (fun y hy => ?_) instances_settle executed_settle hk.mem
    (h₁.not_mem_of_awaited hk) hb', hframe.later.trans hl, instances_settle.trans hframe.instances⟩
  refine (mem_ready_settle.mp hy).imp_right fun hnext => ⟨hnext.1, ?_⟩
  exact hb'.filled (hk.plain hp) hnext.2

/-! ## Executing a task -/

/-- The inputs that a task's results have fed. -/
theorem fedBy_of_produced (hp : p.IsOrderly s) {t : TaskId} {l : Ledger} {is : List InstanceId}
    (his : ∀ i ∈ is, (l.get i).channel < p.graph.channels.length ∧
      (p.graph.channel (l.get i).channel).producer = t) {k : Consumer}
    (hk : fedBy p s done k ∨ ∃ x ∈ is, k ∈ innerConsumers p s (l.get x).channel) :
    fedBy p s (done ++ [t]) k := by
  rcases hk with ⟨hs, c, hc, hb, hd⟩ | ⟨x, hx, hk⟩
  · exact ⟨hs, c, hc, hb, List.mem_append_left _ hd⟩
  · obtain ⟨hlt, hprod⟩ := his x hx
    obtain ⟨hs, hc, hb⟩ := (mem_innerConsumers hp.wired hlt).mp hk
    exact ⟨hs, _, hc, hb, List.mem_append_right _ (List.mem_singleton.mpr hprod)⟩

/-- The first ready activator is that of a task that was not executed yet. -/
theorem Once.head_ready (h : Once p s state l₀ fed done w) {activation : Activation}
    {rest : List (Activator × Activation)} (hready : w.run.ready = (a, activation) :: rest) :
    a ∈ w.run.activators ∧ a.task ∈ (p.stage s).tasks ∧
      (done ++ [a.task] ++ (w.run.staged ++ rest.map Prod.fst).map Activator.task).Nodup := by
  have hmem : a ∈ w.run.activators := by
    unfold StageRun.activators
    rw [hready]
    exact List.mem_append_right _ List.mem_cons_self
  refine ⟨hmem, h.tasks _ (List.mem_append_right _ (List.mem_map_of_mem hmem)), ?_⟩
  have hperm : (done ++ w.run.activators.map Activator.task).Perm
      (done ++ [a.task] ++ (w.run.staged ++ rest.map Prod.fst).map Activator.task) := by
    unfold StageRun.activators
    rw [hready, List.append_assoc]
    exact (List.perm_middle.map Activator.task).append_left done
  exact hperm.nodup_iff.mp h.nodup

/-- The first ready activator is of a task that has not been executed. -/
theorem Once.head_new (h : Once p s state l₀ fed done w) {activation : Activation}
    {rest : List (Activator × Activation)} (hready : w.run.ready = (a, activation) :: rest) :
    a.task ∉ done := fun hm =>
  (List.nodup_append.mp (List.nodup_append.mp (h.head_ready hready).2.2).1).2.2 _ hm _
    List.mem_cons_self rfl

/-- When the first ready activator has been executed, but for what its results feed. -/
theorem Once.executed_next (h : Once p s state l₀ fed done w) {activation : Activation}
    {rest : List (Activator × Activation)} (hready : w.run.ready = (a, activation) :: rest)
    {w' : Workspace ω} {is : List InstanceId} (hd : Delivers p b a activation rest w is w') :
    Once p s state l₀ fed (done ++ [a.task]) w' := by
  obtain ⟨hrun, hlater, his, -, -⟩ := hd
  obtain ⟨-, hmem, hnodup⟩ := h.head_ready hready
  have hinstances : w'.run.instances = w.run.instances ++ is := by rw [hrun]
  have hactivators : w'.run.activators = w.run.staged ++ rest.map Prod.fst := by
    rw [hrun]
    rfl
  have hsub : ∀ x ∈ w.run.staged ++ rest.map Prod.fst, x ∈ w.run.activators := fun x hx => by
    unfold StageRun.activators
    rw [hready]
    exact (List.mem_append.mp hx).elim (fun h => List.mem_append_left _ h)
      fun h => List.mem_append_right _ (List.mem_cons_of_mem _ h)
  have hold := h.channel_eq hlater
  refine {
    nodup := hactivators ▸ hnodup
    tasks := fun t ht => ?tasks
    filled := fun t ht => ?filled
    binds := fun x hx => h.binds x (hsub x (hactivators ▸ hx))
    executed := ?executed
    channels := ?channels
    fresh := fun i hi => ?fresh
    produced := fun i hi => ?produced
    later := h.later.trans hlater }
  case tasks =>
    rw [hactivators, List.mem_append, List.mem_append, List.mem_singleton] at ht
    rcases ht with (ht | rfl) | ht
    · exact h.tasks t (List.mem_append_left _ ht)
    · exact hmem
    · obtain ⟨x, hx, rfl⟩ := List.mem_map.mp ht
      exact h.tasks _ (List.mem_append_right _ (List.mem_map_of_mem (hsub x hx)))
  case filled =>
    refine h.filled t ?_
    rw [hready, List.map_cons]
    rw [hrun] at ht
    simpa using ht
  case executed =>
    rw [hrun]
    simp [h.executed]
  case channels =>
    rw [hinstances, List.map_append, List.map_congr_left hold]
    refine List.nodup_append.mpr ⟨h.channels, his.channels, fun c hc d hd => ?_⟩
    rintro rfl
    obtain ⟨i, hi, rfl⟩ := List.mem_map.mp hc
    obtain ⟨j, hj, heq⟩ := List.mem_map.mp hd
    have hprod := (his.producer j hj).2
    rw [heq] at hprod
    exact h.head_new hready (hprod ▸ h.produced i hi)
  case fresh =>
    rw [hinstances] at hi
    rcases List.mem_append.mp hi with hi | hi
    · exact ⟨(h.fresh i hi).1, Nat.lt_of_lt_of_le (h.fresh i hi).2 hlater.size⟩
    · exact ⟨Nat.le_trans h.later.size (his.fresh i hi).1, (his.fresh i hi).2⟩
  case produced =>
    rw [hinstances] at hi
    rcases List.mem_append.mp hi with hi | hi
    · rw [hold i hi]
      exact List.mem_append_left _ (h.produced i hi)
    · exact List.mem_append_right _ (List.mem_singleton.mpr (his.producer i hi).2)

/-- A reader inside the stage of what an executed task has produced waits for it. -/
theorem Once.awaited_of_delivers (hp : p.IsOrderly s)
    (h : Once p s state l₀ (fedBy p s done) done w) {activation : Activation}
    {rest : List (Activator × Activation)} (hready : w.run.ready = (a, activation) :: rest)
    {is : List InstanceId} {w' : Workspace ω} (hd : Delivers p b a activation rest w is w')
    {x : InstanceId} (hx : x ∈ is) {k : Consumer}
    (hk : k ∈ innerConsumers p s (w'.ledger.get x).channel) :
    Awaited p s (fedBy p s done) (w'.ledger.get x).channel k :=
  awaited_of_yields hp (h.head_ready hready).2.1 (h.head_new hready) hd.yields hx hk

/-- Whatever feeding one reader keeps is kept when all readers inside the stage are fed with what an
executed task has produced. -/
theorem Once.feedAll_ends (hp : p.IsOrderly s) (h : Once p s state l₀ (fedBy p s done) done w)
    {activation : Activation} {rest : List (Activator × Activation)}
    (hready : w.run.ready = (a, activation) :: rest) {is : List InstanceId} {w' : Workspace ω}
    (hd : Delivers p b a activation rest w is w') {I : (Consumer → Prop) → Workspace ω → Prop}
    {E : ExecutionError → Workspace ω → Prop}
    (hstep : ∀ {fed : Consumer → Prop} {w : Workspace ω} {c : ChannelId} {k : Consumer}
      {x : InstanceId}, x ∈ is → Once p s state l₀ fed (done ++ [a.task]) w → I fed w →
      Awaited p s fed c k → Ends (feed p b state k.task k.input x) w
        (fun _ w' => I (andFed fed k) w') E)
    (hI : I (fedBy p s done) w') :
    Ends (feedAll p b s state is) w' (fun _ w'' =>
      Once p s state l₀ (fedBy p s (done ++ [a.task])) (done ++ [a.task]) w'' ∧
      I (fun k => fedBy p s done k ∨ ∃ x ∈ is, k ∈ innerConsumers p s (w'.ledger.get x).channel) w'' ∧
      Frame w' w'') E := by
  refine (Workspace.feedAll_ends hp (I := fun fed w => Once p s state l₀ fed (done ++ [a.task]) w ∧
    I fed w) (E := E) (fun hx ho hk => ?_) hd.yields.channels (fun x hx => (hd.yields.fresh x hx).2)
    (fun x hx k hk => h.awaited_of_delivers hp hready hd hx hk)
    ⟨h.executed_next hready hd, hI⟩).mono ?_ fun _ _ he => he
  · refine ((feed_once hp ho.1 hk).and (hstep hx ho.1 ho.2 hk)).mono ?_ fun _ _ he => he.2
    rintro _ w₁ ⟨⟨h₁, hframe⟩, hI₁⟩
    exact ⟨⟨h₁, hI₁⟩, hframe⟩
  · rintro _ w'' ⟨⟨hw'', hI''⟩, hframe⟩
    exact ⟨hw''.mono fun k hk => fedBy_of_produced hp hd.yields.producer hk, hI'', hframe⟩

/-- Executing the first ready activator once. -/
theorem executeTask_once (hp : p.IsOrderly s) (h : Once p s state l₀ (fedBy p s done) done w)
    {activation : Activation} {rest : List (Activator × Activation)}
    (hready : w.run.ready = (a, activation) :: rest) :
    Ends (executeTask p b s state a activation) { w with run := { w.run with ready := rest } }
      (fun _ w' => Once p s state l₀ (fedBy p s (done ++ [a.task])) (done ++ [a.task]) w')
      fun _ w' => l₀.Later w'.ledger := by
  refine executeTask_ends hp.wired (fun is w' hd => ?_) fun _ _ hr => h.later.trans hr.later
  refine (h.feedAll_ends hp hready hd (I := fun _ _ => True) (fun _ ho _ hk => ?_) trivial).mono
    (fun _ _ h' => h'.1) fun _ _ hl => hl
  exact (feed_once hp ho hk).mono (fun _ _ _ => trivial) fun _ _ hl => hl

/-! ## The whole push -/

/-- Making start tasks ready. -/
theorem seed_once (hp : p.IsOrderly s) {ts : List TaskId} (hts : ∀ t ∈ ts, t ∈ (p.stage s).startTasks)
    (hn : (w.run.ready.map (fun r => r.1.task) ++ ts).Nodup) (hstaged : w.run.staged = [])
    (h : Once p s state l₀ fed [] w) : Ends (seed p b s state ts) w
      (fun _ w' => Once p s state l₀ fed [] w') fun _ w' => l₀.Later w'.ledger := by
  refine (seed_ends (I := fun ts w => (∀ t ∈ ts, t ∈ (p.stage s).startTasks) ∧
    (w.run.ready.map (fun r => r.1.task) ++ ts).Nodup ∧ w.run.staged = [] ∧
    Once p s state l₀ fed [] w) ?_ ?_ ⟨hts, hn, hstaged, h⟩).mono (fun _ _ h => h.2.2.2)
    fun _ _ h => h
  · rintro ts w a l activation ⟨hts, hn, hstaged, h⟩ hb hl -
    have hstart := hts a.task List.mem_cons_self
    have hnew : a.task ∉ [] ++ w.run.ready.map fun r => r.1.task := fun hm =>
      (List.nodup_append.mp hn).2.2 _ hm _ List.mem_cons_self rfl
    have hperm : (StageRun.activators { w.run with
        ready := w.run.ready ++ [(a, activation)] }).Perm (a :: others w.run a.task) := by
      unfold StageRun.activators others
      simp only [hstaged, List.map_append, List.nil_append, List.filter_nil]
      exact List.perm_append_comm
    have hfilled : Filled p fed a.task := fun i c hc => Or.inl (hp.external _ hstart i c hc)
    refine ⟨fun u hu => hts u (List.mem_cons_of_mem _ hu), ?_, hstaged, (h.ledger hl).put hperm
      (fun x hx => ?_) rfl rfl (hp.start _ hstart) hnew (hb fed)⟩
    · rw [List.map_append, List.append_assoc]
      exact hn
    · refine (List.mem_append.mp hx).imp_right fun hx => ?_
      rw [List.mem_singleton.mp hx]
      exact ⟨rfl, hfilled⟩
  · rintro ts e w w' ⟨-, -, -, h⟩ - hl -
    exact h.later.trans hl

/-- Executing ready activators. -/
theorem drain_once (hp : p.IsOrderly s) {fuel : Nat} (h : Once p s state l₀ (fedBy p s done) done w) :
    Ends (drain p b s state fuel) w
      (fun _ w' => ∃ done', Once p s state l₀ (fedBy p s done') done' w')
      fun _ w' => l₀.Later w'.ledger := by
  refine (drain_ends (I := fun _ w => ∃ done, Once p s state l₀ (fedBy p s done) done w) ?_
    ⟨done, h⟩).mono ?_ fun _ _ hl => hl
  · rintro _ w a activation rest ⟨done, h⟩ hready
    exact (executeTask_once hp h hready).mono (fun _ _ h' => ⟨_, h'⟩) fun _ _ hl => hl
  · rintro _ w' ⟨-, h', -⟩
    exact h'

/-- Nothing has been done yet. -/
theorem once_start (hrun : w.run = {}) : Once p s state w.ledger fed [] w := by
  refine ⟨?_, ?_, ?_, ?_, ?_, ?_, ?_, ?_, Ledger.Later.refl _⟩ <;> rw [hrun]
  · exact List.nodup_nil
  · exact nofun
  · exact nofun
  · exact nofun
  · rfl
  · exact List.nodup_nil
  · exact nofun
  · exact nofun

/-- Making all start tasks ready. -/
theorem seed_start (fed : Consumer → Prop) (hp : p.IsOrderly s) (hrun : w.run = {}) :
    Ends (seed p b s state (p.stage s).startTasks) w (fun _ w' => Once p s state w.ledger fed [] w')
      fun _ w' => w.ledger.Later w'.ledger := by
  refine seed_once hp (fun t ht => ht) ?_ ?_ (once_start hrun)
  · rw [hrun]
    exact hp.nodup_start
  · rw [hrun]

/-- **A push activates each task at most once**, whatever the operators do. It is looked at after any
number of activations. -/
theorem push_once (hp : p.IsOrderly s) (hrun : w.run = {}) {fuel : Nat} : Ends (do
      seed p b s state (p.stage s).startTasks
      drain p b s state fuel : WorkspaceM ω Unit) w
      (fun _ w' => ∃ done, Once p s state w.ledger (fedBy p s done) done w')
      fun _ w' => w.ledger.Later w'.ledger :=
  Ends.bind (seed_start _ hp hrun) fun _ _ h => drain_once hp h

/-- When as many tasks were executed as there are, none is ready. -/
theorem Once.ready_eq_nil (h : Once p s state l₀ fed done w)
    (hlen : (p.stage s).tasks.length ≤ done.length) : w.run.ready = [] := by
  have hle := Digraph.length_le_of_subset h.nodup h.tasks
  unfold StageRun.activators at hle
  simp only [List.length_append, List.length_map] at hle
  exact List.eq_nil_of_length_eq_zero (by omega)

end Once

end Workspace

end Dataflow
