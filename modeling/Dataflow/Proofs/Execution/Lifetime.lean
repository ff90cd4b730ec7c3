import Dataflow.Execution.Instance
import Mathlib.Data.List.Count

/-!
# The lifetime of an instance

The calls that its holders make on an instance (`Request`), one after the other, whether they
succeed or not. The calls change two counters, the data and the measured cardinality separately,
each under a condition of its own; what they answer tells how the four stand (`Course`). An instance
lives until its references are used up, and it is not revived.

The invariant of single calls relates the four parts of an instance to the answers so far, and answers
are what a caller sees. It is proved for one call and composed (`Course.trans`), so it holds of any
sequence, and from any point of one on.

* `step_handle`: everything that a call can do.
* `Step.course`, `Course.trans`: one call, and calls that follow on others.
* **`handleAll_counted`**: the counters, the data and the measured cardinality after any calls.

The counters are natural numbers and the engine has 64 bits for each. They agree as long as fewer
references are obtained than fit, since a counter rises by obtaining only. What is said of one
sequence of calls is said of calls that come one after the other; calls at the same time are out of
scope.
-/

namespace Dataflow

namespace Instance

/-! ## Calls -/

/-- A call on an instance. -/
inductive Request where
  | obtain
  | release
  | data
  | annotate (cardinality : Nat)
  deriving DecidableEq, Repr

/-- What a call answers. -/
inductive Answer where
  | obtained
  | released (last : Bool)
  | data (payload : Payload)
  | noted (first : Bool)
  | refused (e : SchedulingError)
  deriving DecidableEq, Repr

/-- Carry out a call. A call that is refused changes nothing. -/
def handle (x : Instance) : Request → Answer × Instance
  | .obtain =>
    match x.obtain with
    | .ok y => (.obtained, y)
    | .error e => (.refused e, x)
  | .release =>
    match x.release with
    | .ok (last, y) => (.released last, y)
    | .error e => (.refused e, x)
  | .data =>
    match x.data with
    | .ok p => (.data p, x)
    | .error e => (.refused e, x)
  | .annotate n =>
    let (first, y) := x.annotate n
    (.noted first, y)

/-- The answers to calls that are made one after the other, and the instance after them. -/
def handleAll (x : Instance) : List Request → List Answer × Instance
  | [] => ([], x)
  | request :: requests =>
    let (answer, y) := x.handle request
    let (answers, z) := y.handleAll requests
    (answer :: answers, z)

/-- How many references were obtained. -/
def obtains (answers : List Answer) : Nat := answers.count .obtained

/-- How many references were given back. -/
def releases (answers : List Answer) : Nat :=
  answers.count (.released false) + answers.count (.released true)

/-- The cardinality that a call notes. -/
def Request.cardinality? : Request → Option Nat
  | .annotate n => some n
  | .obtain | .release | .data => none

/-! ## One call -/

variable {x y z : Instance} {p : Payload} {request : Request} {answer : Answer}
  {requests requests' : List Request} {answers answers' : List Answer}

/-- What a call does, by what it answers. -/
inductive Step (x : Instance) : Request → Answer → Instance → Prop
  | obtained (live : x.references ≠ 0) : Step x .obtain .obtained
      { x with references := x.references + 1, obtained := x.obtained + 1 }
  | tooLate (disposed : x.references = 0) :
      Step x .obtain (.refused (.useAfterRelease x.channel)) x
  | released {n : Nat} (shared : x.references = n + 2) : Step x .release (.released false)
      { x with references := n + 1 }
  | disposed (last : x.references = 1) : Step x .release (.released true)
      { x with references := 0, payload := none }
  | releasedTwice (disposed : x.references = 0) :
      Step x .release (.refused (.doubleRelease x.channel)) x
  | read {p : Payload} (there : x.payload = some p) : Step x .data (.data p) x
  | gone (there : x.payload = none) : Step x .data (.refused (.useAfterRelease x.channel)) x
  | noted {n : Nat} (first : x.cardinality = none) : Step x (.annotate n) (.noted true)
      { x with cardinality := some n }
  | knownBefore {n m : Nat} (known : x.cardinality = some m) : Step x (.annotate n) (.noted false) x

theorem step_handle (x : Instance) (request : Request) :
    x.Step request (x.handle request).1 (x.handle request).2 := by
  cases request with
  | obtain =>
    by_cases h : x.references = 0
    · have hobtain : x.obtain = .error (.useAfterRelease x.channel) := if_pos h
      simp only [handle, hobtain]
      exact .tooLate h
    · have hobtain : x.obtain =
          .ok { x with references := x.references + 1, obtained := x.obtained + 1 } := if_neg h
      simp only [handle, hobtain]
      exact .obtained h
  | release =>
    match h : x.references with
    | 0 =>
      simp only [handle, Instance.release, h]
      exact .releasedTwice h
    | 1 =>
      simp only [handle, Instance.release, h]
      exact .disposed h
    | n + 2 =>
      simp only [handle, Instance.release, h]
      exact .released h
  | data =>
    cases h : x.payload with
    | none =>
      simp only [handle, Instance.data, h]
      exact .gone h
    | some q =>
      simp only [handle, Instance.data, h]
      exact .read h
  | annotate n =>
    cases h : x.cardinality with
    | none =>
      simp only [handle, Instance.annotate, h, Option.isSome_none, Bool.false_eq_true, if_false]
      exact .noted h
    | some m =>
      simp only [handle, Instance.annotate, h, Option.isSome_some, if_true]
      exact .knownBefore h

/-- A release tells whether it leaves no references. -/
theorem Step.last_iff (h : x.Step .release answer y) :
    answer = .released true ↔ 0 < x.references ∧ y.references = 0 := by
  cases h with
  | released shared => simp
  | disposed last => simp [last]
  | releasedTwice disposed => simp [disposed]

/-! ## Calls one after the other -/

/-- The data of an instance is there as long as it has references. -/
def Holds (x : Instance) (p : Payload) : Prop :=
  x.payload = if x.references = 0 then none else some p

/-- How an instance stands after calls with these answers. -/
structure Course (x : Instance) (requests : List Request) (answers : List Answer) (y : Instance) :
    Prop where
  channel : y.channel = x.channel
  holds : ∀ p, x.Holds p → y.Holds p
  references : y.references + releases answers = x.references + obtains answers
  obtained : y.obtained = x.obtained + obtains answers
  disposed : x.references = 0 → y.references = 0
  last : answers.count (.released true) = if x.references ≠ 0 ∧ y.references = 0 then 1 else 0
  cardinality : y.cardinality = x.cardinality.or (requests.findSome? Request.cardinality?)

theorem Step.course (h : x.Step request answer y) : x.Course [request] [answer] y := by
  cases h with
  | obtained live =>
    refine ⟨rfl, fun p hp => ?_, rfl, rfl, fun h0 => absurd h0 live, ?_, ?_⟩
    · unfold Holds at hp ⊢
      rw [if_neg live] at hp
      exact hp
    · simp
    · simp [Request.cardinality?]
  | tooLate disposed =>
    exact ⟨rfl, fun _ => id, rfl, rfl, id, by simp [disposed], by simp [Request.cardinality?]⟩
  | @released n shared =>
    have hlive : x.references ≠ 0 := by rw [shared]; exact Nat.succ_ne_zero _
    refine ⟨rfl, fun p hp => ?_, ?_, rfl, fun h0 => absurd h0 hlive, by simp, ?_⟩
    · unfold Holds at hp ⊢
      rw [if_neg hlive] at hp
      exact hp
    · simp [releases, obtains, shared]
    · simp [Request.cardinality?]
  | disposed last =>
    refine ⟨rfl, fun p _ => rfl, ?_, rfl, fun _ => rfl, by simp [last], ?_⟩
    · simp [releases, obtains, last]
    · simp [Request.cardinality?]
  | releasedTwice disposed =>
    exact ⟨rfl, fun _ => id, rfl, rfl, id, by simp [disposed], by simp [Request.cardinality?]⟩
  | read there =>
    exact ⟨rfl, fun _ => id, rfl, rfl, id, by simp, by simp [Request.cardinality?]⟩
  | gone there =>
    exact ⟨rfl, fun _ => id, rfl, rfl, id, by simp, by simp [Request.cardinality?]⟩
  | noted first =>
    exact ⟨rfl, fun _ => id, rfl, rfl, id, by simp, by simp [first, Request.cardinality?]⟩
  | knownBefore known =>
    exact ⟨rfl, fun _ => id, rfl, rfl, id, by simp, by simp [known]⟩

theorem Course.refl (x : Instance) : x.Course [] [] x :=
  ⟨rfl, fun _ => id, rfl, rfl, id, by simp, by simp⟩

theorem Course.trans (h : x.Course requests answers y) (h' : y.Course requests' answers' z) :
    x.Course (requests ++ requests') (answers ++ answers') z := by
  refine ⟨h'.channel.trans h.channel, fun p hp => h'.holds p (h.holds p hp), ?_, ?_,
    fun h0 => h'.disposed (h.disposed h0), ?_, ?_⟩
  · have := h.references
    have := h'.references
    simp only [releases, obtains, List.count_append] at *
    omega
  · rw [h'.obtained, h.obtained]
    simp only [obtains, List.count_append]
    omega
  · -- the last reference goes in the first part, in the second part or in neither
    rw [List.count_append, h.last, h'.last]
    have := h.disposed
    have := h'.disposed
    split_ifs <;> omega
  · rw [h'.cardinality, h.cardinality, List.findSome?_append, Option.or_assoc]

theorem course_handleAll (x : Instance) (requests : List Request) :
    x.Course requests (x.handleAll requests).1 (x.handleAll requests).2 := by
  induction requests generalizing x with
  | nil => exact .refl x
  | cons request requests ih =>
    exact (step_handle x request).course.trans (ih (x.handle request).2)

/-! ## From the beginning -/

/-- **The counters of an instance**: after any calls the references are the producer's and those
that were obtained, less those given back. The data is there as long as there are references. The
release that leaves none says so, and no other does; there is at most one, and whatever is obtained
or released behind it is refused. The first cardinality that is noted stays. Both counters fit in
64 bits unless that many references are obtained. -/
theorem handleAll_counted (c : ChannelId) (t : TaskId) (p : Payload) (marked : Bool)
    (requests : List Request) :
    let answers := ((create c t p marked).handleAll requests).1
    let x := ((create c t p marked).handleAll requests).2
    x.references + releases answers = 1 + obtains answers ∧
      x.obtained = obtains answers ∧
      (obtains answers < UInt64.size - 1 →
        x.references < UInt64.size ∧ x.obtained < UInt64.size) ∧
      x.data = (if 0 < x.references then .ok p else .error (.useAfterRelease c)) ∧
      ((x.handle .release).1 = .released true ↔
        0 < x.references ∧ (x.handle .release).2.references = 0) ∧
      answers.count (.released true) ≤ 1 ∧
      (.released true ∈ answers →
        x.references = 0 ∧ x.handle .obtain = (.refused (.useAfterRelease c), x) ∧
          x.handle .release = (.refused (.doubleRelease c), x)) ∧
      x.cardinality = requests.findSome? Request.cardinality? := by
  intro answers x
  have h : (create c t p marked).Course requests answers x := course_handleAll _ requests
  have hchannel : x.channel = c := h.channel
  have hholds : x.Holds p := h.holds p rfl
  have hreferences : x.references + releases answers = 1 + obtains answers := h.references
  have hobtained : x.obtained = obtains answers := h.obtained.trans (Nat.zero_add _)
  have hlast : answers.count (.released true) = if x.references = 0 then 1 else 0 := by
    rw [h.last]
    simp [create]
  refine ⟨hreferences, hobtained, fun hlt => by omega, ?_, ?_, ?_, fun hmem => ?_, ?_⟩
  · unfold Holds at hholds
    unfold data
    by_cases h0 : x.references = 0
    · rw [if_pos h0] at hholds
      rw [hholds, if_neg (Nat.not_lt_of_le (Nat.le_of_eq h0)), hchannel]
    · rw [if_neg h0] at hholds
      rw [hholds, if_pos (Nat.pos_of_ne_zero h0)]
  · exact (step_handle x .release).last_iff
  · rw [hlast]
    split <;> decide
  · have h0 : x.references = 0 := by
      by_contra hne
      rw [if_neg hne] at hlast
      exact List.count_eq_zero.mp hlast hmem
    refine ⟨h0, ?_, ?_⟩
    · simp [handle, Instance.obtain, h0, hchannel]
    · simp [handle, Instance.release, h0, hchannel]
  · rw [h.cardinality]
    rfl

/-- An instance that is shared once, measured twice and then used for too long. -/
def sharedOnce : List Request :=
  [.obtain, .annotate 10, .release, .annotate 20, .data, .release, .data, .obtain, .release]

theorem sharedOnce_counted :
    let answers := ((create 3 0 (.number 7) true).handleAll sharedOnce).1
    let x := ((create 3 0 (.number 7) true).handleAll sharedOnce).2
    answers = [.obtained, .noted true, .released false, .noted false, .data (.number 7),
        .released true, .refused (.useAfterRelease 3), .refused (.useAfterRelease 3),
        .refused (.doubleRelease 3)] ∧
      obtains answers < UInt64.size - 1 ∧ x.references < UInt64.size ∧
      .released true ∈ answers ∧ x.handle .release = (.refused (.doubleRelease 3), x) ∧
      x.cardinality = some 10 := by
  obtain ⟨-, -, hfits, -, -, -, hlate, hcardinality⟩ :=
    handleAll_counted 3 0 (.number 7) true sharedOnce
  have hfew : obtains ((create 3 0 (.number 7) true).handleAll sharedOnce).1 < UInt64.size - 1 := by
    decide
  have hmem : .released true ∈ ((create 3 0 (.number 7) true).handleAll sharedOnce).1 := by decide
  exact ⟨by decide, hfew, (hfits hfew).1, hmem, (hlate hmem).2.2, hcardinality⟩

end Instance

end Dataflow
