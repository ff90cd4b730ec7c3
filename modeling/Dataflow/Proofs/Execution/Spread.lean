import Dataflow.Proofs.Execution.Once

/-!
# How far a push gets

Nothing that a push feeds gets lost: the task that was fed has been executed, is ready, or waits for
an input that it lacks (`Spread`). So when no task is ready any more, the tasks that were not
executed are those that an input is missing for. In a plain stage there are none, provided that what
it reads from other stages is published and that its operators emit on all their outputs.

`Spread` speaks of each input that was fed: its task is accounted for. It holds of operators of any
kind, and it says nothing yet of what a stage execution comes to, because a task may wait for ever.
What it comes to follows at the end, from the inputs that are missing.

* `feed_spread`, `executeTask_spread`, `drain_spread`: the steps.
* **`push_spread`**: a whole push.
* **`Spent.all_done`**: every task is executed.

In a stage without cycle the tasks that were not executed lead back to one for which nothing is
missing inside, and such a task is executed. The condition on emissions is asked for the tasks that
were executed only: what the others would have emitted makes no difference.
-/

namespace Dataflow

/-- Whenever the operator of a task succeeds, it emits on every output that feeds a channel. -/
def Behaviour.EmitsAll {ω : Type} (b : Behaviour ω) (g : TaskGraph) (t : TaskId) : Prop :=
  ∀ ctx m, ctx.task = t → ctx.outputCount = (g.task t).outputs.length →
    (b.evaluate (g.task t).operator.object ctx m).result = .ok () →
    ∀ o c, (g.task t).outputChannel o = some c →
      ∃ e, (b.evaluate (g.task t).operator.object ctx m).emissions[o]? = some (some e)

namespace Workspace

variable {ω : Type}

/-- The inputs that are fed inside the stage by what a stage execution has produced. -/
def Fed (p : Plan) (s : StageId) (w : Workspace ω) (k : Consumer) : Prop :=
  ∃ i ∈ w.run.instances, k ∈ innerConsumers p s (w.ledger.get i).channel

/-- A push that has made the tasks `starts` ready, has fed the inputs `fed` and executed the tasks
`done` has lost none of them. -/
structure Spread (p : Plan) (starts : List TaskId) (fed : Consumer → Prop) (done : List TaskId)
    (w : Workspace ω) : Prop where
  started : ∀ t ∈ starts, t ∈ done ++ w.run.ready.map fun r => r.1.task
  met : ∀ k, fed k → k.task ∈ done ++ w.run.activators.map Activator.task
  bound : ∀ a ∈ w.run.staged, ∀ i, fed ⟨a.task, i⟩ → a.isBound i = true
  lacking : ∀ a ∈ w.run.staged, ∃ i < (p.graph.task a.task).inputs.length, a.isBound i = false

/-- There is an instance for each channel of the executed tasks whose operators emit on all
outputs. -/
def Emitted (p : Plan) (b : Behaviour ω) (done : List TaskId) (w : Workspace ω) : Prop :=
  ∀ t ∈ done, b.EmitsAll p.graph t → ∀ o c, (p.graph.task t).outputChannel o = some c →
    ∃ i ∈ w.run.instances, (w.ledger.get i).channel = c

section Spread

variable {p : Plan} {b : Behaviour ω} {s : StageId} {state : ExecutionState} {l₀ : Ledger}
  {starts : List TaskId} {fed got got' : Consumer → Prop} {done : List TaskId} {w : Workspace ω}
  {a : Activator}

theorem Spread.anti (h : Spread p starts got done w) (hgot : ∀ k, got' k → got k) :
    Spread p starts got' done w :=
  ⟨h.started, fun k hk => h.met k (hgot k hk), fun a ha i hi => h.bound a ha i (hgot _ hi), h.lacking⟩

/-! ## Feeding -/

theorem isBound_bind {input i : Nat} (x : InstanceId) (hfree : a.inputs[input]? = some none)
    (h : a.isBound i = true ∨ i = input) : (a.bind input x).isBound i = true := by
  have hlt : input < a.inputs.length := by
    by_contra hge
    rw [List.getElem?_eq_none (Nat.le_of_not_lt hge)] at hfree
    exact absurd hfree nofun
  unfold Activator.isBound Activator.bind at *
  by_cases hi : input = i
  · rw [← hi, List.getElem?_set_self hlt]
    rfl
  · rw [List.getElem?_set_ne hi]
    exact h.resolve_right (Ne.symm hi)

/-- A task without loop roles that is not ready lacks an input. -/
theorem lacks_of_readiness (hplain : (p.graph.task a.task).operator.loopRoles = none) {m : ω}
    (hr : a.readiness p.graph b m = none) :
    ∃ i < (p.graph.task a.task).inputs.length, a.isBound i = false := by
  unfold Activator.readiness Dataflow.readiness at hr
  rw [hplain] at hr
  by_contra hall
  push Not at hall
  refine absurd ((if_pos ?_).symm.trans hr) nofun
  exact List.all_eq_true.mpr fun i hi => by simpa using hall i (List.mem_range.mp hi)

/-- The activator of a task is put in place of the waiting one, or becomes ready. -/
theorem Spread.put (h : Spread p starts got done w) {l : Ledger} {r : StageRun}
    (hperm : r.activators.Perm (a :: others w.run a.task))
    (hready : ∀ x ∈ w.run.ready, x ∈ r.ready)
    (hstaged : ∀ x ∈ r.staged, (x ∈ w.run.staged ∧ x.task ≠ a.task) ∨
      (x = a ∧ ∃ i < (p.graph.task a.task).inputs.length, a.isBound i = false))
    (hbound : ∀ i, got' ⟨a.task, i⟩ → a.isBound i = true)
    (hgot : ∀ k, got' k → got k ∨ k.task = a.task) :
    Spread p starts got' done { w with ledger := l, run := r } := by
  refine ⟨fun t ht => ?_, fun k hk => ?_, fun x hx i hi => ?_, fun x hx => ?_⟩
  · refine (List.mem_append.mp (h.started t ht)).elim (fun hd => List.mem_append_left _ hd)
      fun hr => ?_
    obtain ⟨x, hx, rfl⟩ := List.mem_map.mp hr
    exact List.mem_append_right _ (List.mem_map_of_mem (hready x hx))
  · have hmem : ∀ x, x = a ∨ x ∈ others w.run a.task →
        x.task ∈ done ++ r.activators.map Activator.task := fun x hx =>
      List.mem_append_right _ (List.mem_map_of_mem (hperm.mem_iff.mpr (List.mem_cons.mpr hx)))
    by_cases hka : k.task = a.task
    · exact hka ▸ hmem a (Or.inl rfl)
    · refine (List.mem_append.mp (h.met k ((hgot k hk).resolve_right hka))).elim
        (fun hd => List.mem_append_left _ hd) fun ha => ?_
      obtain ⟨x, hx, hxk⟩ := List.mem_map.mp ha
      refine hxk ▸ hmem x (Or.inr ?_)
      refine List.mem_append.mpr ((List.mem_append.mp hx).imp_left fun hx => ?_)
      exact List.mem_filter.mpr ⟨hx, bne_iff_ne.mpr (hxk ▸ hka)⟩
  · rcases hstaged x hx with ⟨hx, hne⟩ | ⟨rfl, -⟩
    · exact h.bound x hx i ((hgot _ hi).resolve_right hne)
    · exact hbound i hi
  · rcases hstaged x hx with ⟨hx, -⟩ | ⟨rfl, hlacks⟩
    · exact h.lacking x hx
    · exact hlacks

/-- Nothing is lost when an activator starts to wait. -/
theorem Spread.waiting (h : Spread p starts got done w) {c : ChannelId} {k : Consumer}
    (ho : Once p s state l₀ fed done w) (hk : Awaited p s fed c k) {w₁ : Workspace ω}
    (hw : Waiting p state w k.task a w₁) :
    Spread p starts got done w₁ ∧ ∀ i, got ⟨a.task, i⟩ → a.isBound i = true := by
  cases hw with
  | found hfind => exact ⟨h, h.bound a (List.mem_of_find?_eq_some hfind)⟩
  | made hfind htask hb hl =>
    -- a task that does not wait, is not ready and was not executed has not been fed
    have hnew : ∀ i, ¬ got ⟨a.task, i⟩ := fun i hi => by
      rcases List.mem_append.mp (h.met _ hi) with hd | ha
      · exact ho.not_mem_of_awaited hk (List.mem_append_left _ (htask ▸ hd))
      · obtain ⟨y, hy, hya⟩ := List.mem_map.mp ha
        rcases List.mem_append.mp hy with hy | hy
        · have hne := List.find?_eq_none.mp hfind y hy
          exact hne (beq_iff_eq.mpr (hya.trans htask))
        · obtain ⟨z, hz, rfl⟩ := List.mem_map.mp hy
          refine ho.not_mem_of_awaited hk (List.mem_append_right _ (List.mem_map.mpr ⟨z, hz, ?_⟩))
          exact hya.trans htask
    have hlacks : ¬ a.isBound k.input = true := fun hbound => by
      have hx := ((hb fun _ => False).inner _ hbound).resolve_right id
      rw [htask, hk.inner] at hx
      exact absurd hx (by simp)
    refine ⟨h.put (activators_stage w.run a) (fun y hy => hy) (fun y hy => ?_)
      (fun i hi => absurd hi (hnew i)) (fun k hk => Or.inl hk), fun i hi => absurd hi (hnew i)⟩
    refine (mem_staged_stage hy).imp_right fun heq => ⟨heq, k.input, ?_, Bool.eq_false_iff.mpr hlacks⟩
    exact htask ▸ lt_length_of_inputChannel hk.channel

/-- Feeding an input that waits for it. -/
theorem feed_spread (hp : p.IsOrderly s) {c : ChannelId} {k : Consumer} {x : InstanceId}
    (ho : Once p s state l₀ fed done w) (h : Spread p starts got done w)
    (hk : Awaited p s fed c k) : Ends (feed p b state k.task k.input x) w
      (fun _ w' => Spread p starts (andFed got k) done w') fun _ _ => True := by
  refine feed_ends (fun {a w₁ l} hw _ hfree => ?_) fun _ _ _ => trivial
  obtain ⟨htask, -⟩ := ho.waiting hk hw
  obtain ⟨h₁, hbound⟩ := h.waiting ho hk hw
  obtain ⟨t, input⟩ := k
  obtain rfl : a.task = t := htask
  refine h₁.put (a := a.bind input x) activators_settle
    (fun y hy => mem_ready_settle.mpr (Or.inl hy)) (fun y hy => ?_) ?_ ?_
  · exact (mem_staged_settle hy).imp_right fun hnext =>
      ⟨hnext.1, lacks_of_readiness (hk.plain hp) hnext.2⟩
  · rintro i (hi | hi)
    · exact isBound_bind x hfree (Or.inl (hbound i hi))
    · exact isBound_bind x hfree (Or.inr (Consumer.mk.inj hi).2)
  · rintro k (hk | rfl)
    · exact Or.inl hk
    · exact Or.inr rfl

/-! ## Executing a task -/

/-- Only channels of the graph have readers. -/
theorem lt_of_mem_innerConsumers {c : ChannelId} {k : Consumer} (hk : k ∈ innerConsumers p s c) :
    c < p.graph.channels.length := by
  by_contra hc
  unfold innerConsumers at hk
  rw [TaskGraph.channel_of_le (Nat.le_of_not_lt hc)] at hk
  exact absurd hk List.not_mem_nil

/-- What was fed comes from an executed task. -/
theorem Once.fedBy_of_fed (hp : p.IsOrderly s) (ho : Once p s state l₀ fed done w) {k : Consumer}
    (hk : Fed p s w k) : fedBy p s done k := by
  obtain ⟨i, hi, hk⟩ := hk
  obtain ⟨hs, hc, hb⟩ := (mem_innerConsumers hp.wired (lt_of_mem_innerConsumers hk)).mp hk
  exact ⟨hs, _, hc, hb, ho.produced i hi⟩

/-- What is fed when an executed task has fed its readers. -/
theorem Once.fed_next (ho : Once p s state l₀ fed done w) {activation : Activation}
    {rest : List (Activator × Activation)} {is : List InstanceId} {w' w'' : Workspace ω}
    (hd : Delivers p b a activation rest w is w') (hframe : Frame w' w'') {k : Consumer} :
    Fed p s w'' k ↔ Fed p s w k ∨ ∃ i ∈ is, k ∈ innerConsumers p s (w'.ledger.get i).channel := by
  unfold Fed
  rw [hframe.instances, hd.run]
  simp only [List.mem_append, or_and_right, exists_or]
  refine or_congr (exists_congr fun i => and_congr_right fun hi => ?_)
    (exists_congr fun i => and_congr_right fun hi => ?_)
  · rw [ho.channel_eq (hd.later.trans hframe.later) i hi]
  · rw [hframe.later.channel i (hd.yields.fresh i hi).2]

/-- When the first ready activator has been executed, but for what its results feed. -/
theorem Spread.executed_next (h : Spread p starts got done w) {activation : Activation}
    {rest : List (Activator × Activation)} (hready : w.run.ready = (a, activation) :: rest)
    {w' : Workspace ω} (hstaged : w'.run.staged = w.run.staged) (hrest : w'.run.ready = rest) :
    Spread p starts got (done ++ [a.task]) w' := by
  refine ⟨fun t ht => ?_, fun k hk => ?_, ?_, ?_⟩
  · have hmem := h.started t ht
    rw [hready] at hmem
    rw [hrest]
    simpa using hmem
  · have hmem := h.met k hk
    unfold StageRun.activators at hmem ⊢
    rw [hready] at hmem
    rw [hstaged, hrest]
    simp only [List.mem_append, List.map_append, List.map_cons, List.mem_cons, List.not_mem_nil,
      or_false] at hmem ⊢
    tauto
  · rw [hstaged]
    exact h.bound
  · rw [hstaged]
    exact h.lacking

theorem Emitted.next (h : Emitted p b done w) {l₁ : Ledger} (ho : Once p s state l₁ fed done w)
    {activation : Activation} {rest : List (Activator × Activation)} {is : List InstanceId}
    {w' w'' : Workspace ω} (hd : Delivers p b a activation rest w is w') (hframe : Frame w' w'') :
    Emitted p b (done ++ [a.task]) w'' := by
  have hinstances : w''.run.instances = w.run.instances ++ is := by
    rw [hframe.instances, hd.run]
  have hchannel : ∀ i ∈ is, (w''.ledger.get i).channel = (w'.ledger.get i).channel := fun i hi =>
    hframe.later.channel i (hd.yields.fresh i hi).2
  intro t ht hemits o c hc
  rcases List.mem_append.mp ht with ht | ht
  · obtain ⟨i, hi, rfl⟩ := h t ht hemits o c hc
    exact ⟨i, hinstances ▸ List.mem_append_left _ hi,
      ho.channel_eq (hd.later.trans hframe.later) i hi⟩
  · obtain rfl := List.mem_singleton.mp ht
    obtain ⟨out, ⟨ctx, m, htask, -, hcount, hresult, rfl⟩, hmap⟩ := hd.replied
    obtain ⟨e, he⟩ := hemits ctx m htask hcount hresult o c hc
    have hmem : c ∈ is.map fun i => (w'.ledger.get i).channel := by
      rw [hmap]
      exact List.mem_map.mpr ⟨(c, e.payload), mem_emitted.mpr ⟨o, e, he, by rwa [Nat.zero_add], rfl⟩,
        rfl⟩
    obtain ⟨i, hi, rfl⟩ := List.mem_map.mp hmem
    exact ⟨i, hinstances ▸ List.mem_append_right _ hi, hchannel i hi⟩

/-- Executing the first ready activator. -/
theorem executeTask_spread (hp : p.IsOrderly s) (ho : Once p s state l₀ (fedBy p s done) done w)
    (h : Spread p starts (Fed p s w) done w) (he : Emitted p b done w) {activation : Activation}
    {rest : List (Activator × Activation)} (hready : w.run.ready = (a, activation) :: rest) :
    Ends (executeTask p b s state a activation) { w with run := { w.run with ready := rest } }
      (fun _ w' => Spread p starts (Fed p s w') (done ++ [a.task]) w' ∧
        Emitted p b (done ++ [a.task]) w') fun _ _ => True := by
  refine executeTask_ends hp.wired (fun is w' hd => ?_) fun _ _ _ => trivial
  -- the inputs that executed tasks could have fed, but did not emit for, are left out
  let lost (k : Consumer) : Prop := fedBy p s done k ∧ ¬ Fed p s w k
  have hstart : Spread p starts (fun k => fedBy p s done k ∧ ¬ lost k) (done ++ [a.task]) w' := by
    refine (h.executed_next hready (by rw [hd.run]) (by rw [hd.run])).anti fun k hk => ?_
    by_contra hno
    exact hk.2 ⟨hk.1, hno⟩
  refine (ho.feedAll_ends hp hready hd (I := fun fed w =>
    Spread p starts (fun k => fed k ∧ ¬ lost k) (done ++ [a.task]) w) (E := fun _ _ => True)
    (fun _ ho' hspread hk => ?_) hstart).mono ?_ fun _ _ _ => trivial
  · refine (feed_spread hp ho' hspread hk).mono (fun _ w'' hspread => ?_) fun _ _ _ => trivial
    exact hspread.anti fun j hj => hj.1.imp_left fun hf => ⟨hf, hj.2⟩
  · rintro _ w'' ⟨-, hspread, hframe⟩
    refine ⟨hspread.anti fun k hk => ?_, he.next ho hd hframe⟩
    rcases (ho.fed_next hd hframe).mp hk with hfed | ⟨i, hi, hk⟩
    · exact ⟨Or.inl (ho.fedBy_of_fed hp hfed), fun hlost => hlost.2 hfed⟩
    · exact ⟨Or.inr ⟨i, hi, hk⟩, fun hlost =>
        (ho.awaited_of_delivers hp hready hd hi hk).unfed hlost.1⟩

/-! ## The whole push -/

/-- Making start tasks ready. -/
theorem seed_spread {ts : List TaskId} : Ends (seed p b s state ts) w
    (fun _ w' => w'.run.staged = w.run.staged ∧ w'.run.instances = w.run.instances ∧
      ∀ t ∈ ts, t ∈ w'.run.ready.map fun r => r.1.task) fun _ _ => True := by
  refine (seed_ends (I := fun left w' => w'.run.staged = w.run.staged ∧
    w'.run.instances = w.run.instances ∧
    ∀ t ∈ ts, t ∈ left ∨ t ∈ w'.run.ready.map fun r => r.1.task) ?_ (fun _ _ _ _ => trivial)
    ⟨rfl, rfl, fun t ht => Or.inl ht⟩).mono ?_ fun _ _ h => h
  · rintro left w' a l activation ⟨hstaged, hinstances, hall⟩ - - -
    refine ⟨hstaged, hinstances, fun t ht => ?_⟩
    rw [List.map_append, List.mem_append]
    rcases hall t ht with ht | ht
    · rcases List.mem_cons.mp ht with rfl | ht
      · exact Or.inr (Or.inr List.mem_cons_self)
      · exact Or.inl ht
    · exact Or.inr (Or.inl ht)
  · rintro _ w' ⟨hstaged, hinstances, hall⟩
    exact ⟨hstaged, hinstances, fun t ht => (hall t ht).resolve_left List.not_mem_nil⟩

/-- What a push is when no task is ready any more. -/
structure Spent (p : Plan) (b : Behaviour ω) (s : StageId) (state : ExecutionState) (l₀ : Ledger)
    (done : List TaskId) (w : Workspace ω) : Prop where
  once : Once p s state l₀ (fedBy p s done) done w
  spread : Spread p (p.stage s).startTasks (Fed p s w) done w
  emitted : Emitted p b done w
  ready : w.run.ready = []

/-- Executing ready activators: the fuel is enough. -/
theorem drain_spread (hp : p.IsOrderly s) {fuel : Nat}
    (ho : Once p s state l₀ (fedBy p s done) done w)
    (h : Spread p (p.stage s).startTasks (Fed p s w) done w) (he : Emitted p b done w)
    (hfuel : (p.stage s).tasks.length ≤ done.length + fuel) : Ends (drain p b s state fuel) w
      (fun _ w' => ∃ done', Spent p b s state l₀ done' w') fun _ _ => True := by
  refine (drain_ends (I := fun fuel w => ∃ done, Once p s state l₀ (fedBy p s done) done w ∧
    Spread p (p.stage s).startTasks (Fed p s w) done w ∧ Emitted p b done w ∧
    (p.stage s).tasks.length ≤ done.length + fuel) ?_ ⟨done, ho, h, he, hfuel⟩).mono ?_
    fun _ _ h => h
  · rintro fuel w a activation rest ⟨done, ho, h, he, hfuel⟩ hready
    refine ((executeTask_once hp ho hready).and (executeTask_spread hp ho h he hready)).mono ?_
      fun _ _ _ => trivial
    rintro _ w' ⟨ho', h', he'⟩
    refine ⟨_, ho', h', he', ?_⟩
    rw [List.length_append, List.length_singleton]
    omega
  · rintro _ w' ⟨left, ⟨done', ho', h', he', hleft⟩, hend⟩
    exact ⟨done', ho', h', he', hend.elim (fun hspent => ho'.ready_eq_nil (by omega)) id⟩

/-- **A push ends with no task ready**, and what it has fed is not lost. -/
theorem push_spread (hp : p.IsOrderly s) (hrun : w.run = {}) : Ends (push p b s state) w
    (fun _ w' => ∃ done, Spent p b s state w.ledger done w') fun _ _ => True := by
  refine Ends.bind (((seed_start (fedBy p s []) hp hrun).and seed_spread).mono (fun _ _ h => h)
    fun _ _ _ => trivial) ?_
  rintro _ w' ⟨ho, hstaged, hinstances, hready⟩
  rw [hrun] at hstaged hinstances
  refine drain_spread hp ho ⟨hready, ?_, ?_, ?_⟩ ?_ (Nat.le_add_left _ _)
  · rintro k ⟨i, hi, -⟩
    rw [hinstances] at hi
    exact absurd hi List.not_mem_nil
  · rw [hstaged]
    exact nofun
  · rw [hstaged]
    exact nofun
  · exact nofun

/-- In a plain stage a task is executed for which nothing is missing: what other stages feed is
published, and the rest was fed. -/
theorem Spent.mem_done (hp : p.IsPlain s) (h : Spent p b s state l₀ done w) {t : TaskId}
    (ht : t ∈ (p.stage s).tasks)
    (hpublished : ∀ i c, (p.graph.task t).inputChannel i = some c → p.isFedExternally t i = true →
      (state.get? c).isSome = true)
    (hfed : ∀ i c, (p.graph.task t).inputChannel i = some c → p.isFedExternally t i = false →
      Fed p s w ⟨t, i⟩) : t ∈ done := by
  have hactivators : w.run.activators = w.run.staged := by
    unfold StageRun.activators
    rw [h.ready]
    exact List.append_nil _
  by_cases hstart : t ∈ (p.stage s).startTasks
  · have hmem := h.spread.started t hstart
    rwa [h.ready, List.map_nil, List.append_nil] at hmem
  · have hinner : ∃ i c, (p.graph.task t).inputChannel i = some c ∧
        p.isFedExternally t i = false := by
      by_contra hno
      push Not at hno
      refine hstart ((hp.start t).mpr ⟨ht, fun i hi => ?_⟩)
      obtain ⟨c, hc⟩ := hp.fed t ht i hi
      simpa using hno i c hc
    obtain ⟨i, c, hc, hx⟩ := hinner
    rcases List.mem_append.mp (h.spread.met _ (hfed i c hc hx)) with hd | hw
    · exact hd
    · -- a task that waits lacks an input, but none is missing
      rw [hactivators] at hw
      obtain ⟨a, ha, rfl⟩ := List.mem_map.mp hw
      obtain ⟨j, hj, hunbound⟩ := h.spread.lacking a ha
      obtain ⟨d, hd⟩ := hp.fed _ ht j hj
      have hbound : a.isBound j = true := by
        cases hxj : p.isFedExternally a.task j with
        | false => exact h.spread.bound a ha j (hfed j d hd hxj)
        | true =>
          have hb := (h.once.binds a (hactivators ▸ ha)).external j hxj
          unfold Activator.isBound
          rw [hb, hd]
          exact hpublished j d hd hxj
      rw [hunbound] at hbound
      exact absurd hbound (by simp)

/-- **In a plain stage every task is executed**, provided that what other stages feed is published
and that what was executed has emitted on all outputs. -/
theorem Spent.all_done (hp : p.IsPlain s) (h : Spent p b s state l₀ done w)
    (hpublished : ∀ t ∈ (p.stage s).tasks, ∀ i c, (p.graph.task t).inputChannel i = some c →
      p.isFedExternally t i = true → (state.get? c).isSome = true)
    (hemits : ∀ t ∈ done, ∀ o c, (p.graph.task t).outputChannel o = some c →
      ∃ i ∈ w.run.instances, (w.ledger.get i).channel = c) : done.Perm (p.stage s).tasks := by
  have hnodup := (List.nodup_append.mp h.once.nodup).1
  have hsub : ∀ t ∈ done, t ∈ (p.stage s).tasks := fun t ht =>
    h.once.tasks t (List.mem_append_left _ ht)
  refine (List.perm_ext_iff_of_nodup hnodup hp.nodup).mpr fun t => ⟨hsub t, fun ht => ?_⟩
  -- along the edges inside the stage: what feeds a task was executed, so nothing is missing
  refine (hp.grounded t ht).induction (C := fun t => t ∈ (p.stage s).tasks → t ∈ done) ?_ ht
  intro t ih ht
  refine h.mem_done hp ht (hpublished t ht) fun i c hc hx => ?_
  have heq := isFedExternally_eq hc
  rw [hx, eq_comm, Bool.or_eq_false_iff, bne_eq_false_iff_eq] at heq
  have hprod := (hp.placed _).mp (heq.2.trans ((hp.placed t).mpr ht))
  have hdone := ih _ (Relation.TransGen.single (mem_innerProducers.mpr ⟨i, c, hc, hx, rfl⟩)) hprod
  obtain ⟨hlt, -⟩ := (hp.wired.input_iff t i c).mp hc
  obtain ⟨x, hx', rfl⟩ := hemits _ hdone _ c ((hp.wired.output_iff _ _ c).mpr ⟨hlt, rfl, rfl⟩)
  exact ⟨x, hx', (mem_innerConsumers hp.wired hlt).mpr ⟨(hp.placed t).mpr ht, hc, heq.1⟩⟩

end Spread

end Workspace

end Dataflow
