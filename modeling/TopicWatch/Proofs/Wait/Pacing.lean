import Mathlib.Data.List.Chain
import TopicWatch.Proofs.Wait.Passes
import TopicWatch.Wait.Commit
import TopicWatch.Wait.FailureExpectation

/-!
# How often a wait looks

A wait that no pass decides comes to an end whatever its timeout and its interval are. The
instants of its passes depend on nothing that the passes find: they are at most an interval
apart, and only the last one is not before the deadline.
-/

namespace TopicWatch.Wait

open Duration

theorem wholeMillisecond_lt (t : Nat) : wholeMillisecond t < t + millisecond := by
  simp only [wholeMillisecond, millisecond]
  omega

namespace Pace

variable {p : Pace} {now later : Nat}

/-- How long a wait lasts at least if no pass decides it. -/
def patience (p : Pace) : Nat := if p.start + p.timeout < clockEnd then p.timeout else farFuture

theorem deadline_eq (p : Pace) : p.deadline = p.start + p.patience := by
  rw [deadline, patience]
  split <;> rfl

/-- A timeout is shortened to one that the clock can count, but never made longer. -/
theorem patience_le_timeout (hclock : p.deadline < clockEnd) : p.patience ≤ p.timeout := by
  rw [deadline_eq] at hclock
  rw [patience] at hclock ⊢
  split at hclock
  · next hfits => rw [if_pos hfits]
  · next hfits =>
      rw [if_neg hfits]
      omega

/-- One pass of a wait and the next one. There is time left before the next one, which comes
an interval later or at the deadline, at the next whole millisecond in either case. -/
structure Follows (p : Pace) (now later : Nat) : Prop where
  early : now < p.deadline
  slept : later = wholeMillisecond (now + min p.step (p.deadline - now))
  increasing : now < later
  near : later ≤ now + wholeMillisecond p.step

theorem follows_of_next? (h : p.next? now = some later) (htick : millisecond ∣ now) :
    p.Follows now later := by
  obtain ⟨hlater, hearly⟩ := lt_of_next? h
  refine ⟨hearly, ?_, hlater, le_add_step_of_next? h htick⟩
  rw [next?, if_neg (Nat.not_le.2 hearly)] at h
  exact (Option.some.inj h).symm

/-- After a sleep that the deadline does not cut short a whole interval has passed. -/
theorem add_step_le_of_next? (h : p.next? now = some later) (hearly : later < p.deadline) :
    now + p.step ≤ later := by
  rw [next?, if_neg (Nat.not_le.2 (lt_of_next? h).2)] at h
  have hle := le_wholeMillisecond (now + min p.step (p.deadline - now))
  have heq := Option.some.inj h
  omega

theorem head?_passesFrom (p : Pace) (now : Nat) : (p.passesFrom now).head? = some now := by
  cases h : p.next? now with
  | none => rw [passesFrom_of_none h, List.head?_cons]
  | some later => rw [passesFrom_of_some h, List.head?_cons]

theorem isChain_passesFrom (htick : millisecond ∣ now) :
    (p.passesFrom now).IsChain p.Follows := by
  induction now using p.passesFrom_induction with
  | last now h =>
      rw [passesFrom_of_none h]
      exact List.isChain_singleton now
  | next now later h ih =>
      rw [passesFrom_of_some h, List.isChain_cons, head?_passesFrom]
      refine ⟨?_, ih (dvd_of_next? h)⟩
      rintro _ ⟨⟩
      exact follows_of_next? h htick

theorem exists_passesFrom_eq (p : Pace) (now : Nat) :
    ∃ early, p.passesFrom now = early ++ [p.lastFrom now] ∧ ∀ t ∈ early, t < p.deadline := by
  induction now using p.passesFrom_induction with
  | last now h => exact ⟨[], by simp [passesFrom_of_none h, lastFrom_of_none h], by simp⟩
  | next now later h ih =>
      obtain ⟨early, heq, hearly⟩ := ih
      refine ⟨now :: early, ?_, List.forall_mem_cons.2 ⟨(lt_of_next? h).2, hearly⟩⟩
      rw [passesFrom_of_some h, heq, lastFrom_of_some h, List.cons_append]

theorem deadline_le_lastFrom (p : Pace) (now : Nat) : p.deadline ≤ p.lastFrom now := by
  rw [lastFrom]
  split
  · assumption
  · exact le_wholeMillisecond _

/-- Every pass but the last two is followed by a whole interval before the deadline. -/
theorem length_passesFrom_le (p : Pace) (now : Nat) :
    (p.passesFrom now).length ≤ 2 + (p.deadline - now) / p.step := by
  induction now using p.passesFrom_induction with
  | last now h =>
      rw [passesFrom_of_none h, List.length_singleton]
      exact Nat.le_trans (by decide) (Nat.le_add_right 2 _)
  | next now later h ih =>
      rw [passesFrom_of_some h, List.length_cons]
      -- the next pass is the last one, or a whole interval is gone before it
      by_cases hlast : p.deadline ≤ later
      · rw [passesFrom_of_none (if_pos hlast), List.length_singleton]
        exact Nat.le_add_right 2 _
      · have hslept := add_step_le_of_next? h (Nat.not_le.1 hlast)
        have hshare : 1 + (p.deadline - later) / p.step ≤ (p.deadline - now) / p.step := by
          rw [Nat.add_comm, ← Nat.add_div_right _ p.step_pos]
          exact Nat.div_le_div_right (by omega)
        calc (p.passesFrom later).length + 1
            ≤ 2 + (p.deadline - later) / p.step + 1 := Nat.succ_le_succ ih
          _ = 2 + (1 + (p.deadline - later) / p.step) := by rw [Nat.add_assoc, Nat.add_comm _ 1]
          _ ≤ 2 + (p.deadline - now) / p.step := Nat.add_le_add_left hshare 2

/-- When a wait that no pass decides makes its passes, and how many. -/
structure Paced (p : Pace) : Prop where
  begins : p.passes.head? = some p.start
  follow : p.passes.IsChain p.Follows
  increasing : p.passes.Pairwise (· < ·)
  ends : ∃ early, p.passes = early ++ [p.lastPass] ∧ ∀ t ∈ early, t < p.deadline
  late : p.deadline ≤ p.lastPass
  deadline : p.deadline = p.start + p.patience
  waited : p.patience ≤ p.lastPass - p.start
  overtime : p.lastPass - p.start < p.patience + millisecond
  few : p.passes.length ≤ 2 + p.patience / p.step
  fewer : p.deadline < clockEnd → p.passes.length ≤ 2 + p.timeout / p.step
  once : p.deadline < clockEnd → p.timeout = 0 → p.next? p.start = none ∧ p.passes = [p.start]

/-- Without any time to wait there is one pass and no sleep. -/
theorem next?_start_of_zero (hclock : p.deadline < clockEnd) (hzero : p.timeout = 0) :
    p.next? p.start = none := by
  have hpatience := patience_le_timeout hclock
  rw [next?, if_pos]
  rw [deadline_eq]
  omega

theorem paced_of_dvd (htick : millisecond ∣ p.start) : p.Paced := by
  have hlate : p.deadline ≤ p.lastPass := p.deadline_le_lastFrom p.start
  have hsoon : p.lastPass < p.deadline + millisecond := by
    rw [lastPass_of_dvd htick]
    exact wholeMillisecond_lt _
  have hfew : p.passes.length ≤ 2 + p.patience / p.step := by
    have hle := p.length_passesFrom_le p.start
    rwa [deadline_eq, Nat.add_sub_cancel_left] at hle
  have hfollow : p.passes.IsChain p.Follows := isChain_passesFrom htick
  have hincreasing : p.passes.IsChain (· < ·) := hfollow.imp fun _ _ h => h.increasing
  rw [deadline_eq] at hlate hsoon
  constructor
  case begins => exact p.head?_passesFrom p.start
  case follow => exact hfollow
  case increasing => exact List.isChain_iff_pairwise.1 hincreasing
  case ends => exact p.exists_passesFrom_eq p.start
  case late => exact p.deadline_eq ▸ hlate
  case deadline => exact p.deadline_eq
  case waited => omega
  case overtime => omega
  case few => exact hfew
  case fewer =>
    intro hclock
    calc p.passes.length ≤ 2 + p.patience / p.step := hfew
      _ ≤ 2 + p.timeout / p.step :=
        Nat.add_le_add_left (Nat.div_le_div_right (patience_le_timeout hclock)) 2
  case once =>
    intro hclock hzero
    have hnone := next?_start_of_zero hclock hzero
    exact ⟨hnone, passesFrom_of_none hnone⟩

section Undecided

variable {σ β : Type} (pass : Nat → σ → Option β × σ)

/-- No pass at one of some instants decides, each from the state that the one before left. -/
def Undecided : List Nat → σ → Prop
  | [], _ => True
  | t :: later, state => (pass t state).1 = none ∧ Undecided later (pass t state).2

/-- The state after passes at some instants. -/
def stateAfter (passes : List Nat) (state : σ) : σ := passes.foldl (fun s t => (pass t s).2) state

variable {pass}

theorem undecided_of_forall {passes : List Nat}
    (h : ∀ t ∈ passes, ∀ state, (pass t state).1 = none) (state : σ) :
    Undecided pass passes state := by
  induction passes generalizing state with
  | nil => trivial
  | cons t later ih =>
      obtain ⟨hfirst, hlater⟩ := List.forall_mem_cons.1 h
      exact ⟨hfirst state, ih hlater _⟩

/-- A wait makes all of its passes, one after the other, when none of them decides. -/
theorem run_of_undecided {state : σ} (h : Undecided pass (p.passesFrom now) state) :
    p.run none pass now state =
      (.expired (p.lastFrom now), stateAfter pass (p.passesFrom now) state) := by
  induction now using p.passesFrom_induction generalizing state with
  | last now hnext =>
      rw [passesFrom_of_none hnext] at h ⊢
      rw [run_of_last h.1 hnext, lastFrom_of_none hnext]
      rfl
  | next now later hnext ih =>
      rw [passesFrom_of_some hnext] at h ⊢
      rw [run_of_next h.1 hnext, ih h.2, lastFrom_of_some hnext]
      rfl

end Undecided

end Pace

/-- One pass of an expectation over a store that changes with time. -/
def Expectation.pass {α σ : Type} (e : Expectation) (c : Criterion α σ) (order : Nat → Order)
    (world : Nat → Store) (now : Nat) (state : σ) : Option (Except Failure (Observed α)) × σ :=
  verdict (e.evaluate c (order now) (world now) state)

/-- One pass of a failure expectation over a store that changes with time. -/
def FailureExpectation.pass {α σ : Type} (e : FailureExpectation) (c : Criterion α σ)
    (order : Nat → Order) (world : Nat → Store) (now : Nat) (state : σ) :
    Option (Except Failure (ObservedFailure α)) × σ :=
  verdict (e.evaluate c (order now) (world now) state)

/-- The pace at which a commit is waited for. -/
def CommitExpectation.pace (e : CommitExpectation) (start : Nat) : Pace :=
  ⟨start, e.timeout, e.interval⟩

/-- One pass of a wait for a commit over a store that changes with time. -/
def CommitExpectation.pass (e : CommitExpectation) (world : Nat → Store) (now : Nat) (_ : Unit) :
    Option (Except Failure Unit) × Unit :=
  verdict (.ok (e.evaluate (world now)), ())

open Pace (Undecided stateAfter)

variable {α σ : Type} {c : Criterion α σ} {order : Nat → Order} {world : Nat → Store}
  {start : Nat} {state : σ}

/-- What becomes of a wait that no pass decides. -/
theorem outcome_of_undecided {β : Type} {p : Pace}
    {pass : Nat → σ → Option (Except Failure β) × σ} (timedOut : Nat → Failure)
    (h : Undecided pass p.passes state) :
    (outcome? timedOut (p.run none pass p.start state).1, (p.run none pass p.start state).2) =
      (some ⟨p.lastPass, .error (timedOut p.lastPass)⟩, stateAfter pass p.passes state) := by
  have hrun : p.run none pass p.start state = _ := Pace.run_of_undecided h
  rw [hrun]
  rfl

theorem Expectation.run_of_undecided {e : Expectation}
    (h : Undecided (e.pass c order world) (e.pace start).passes state) :
    let last := (e.pace start).lastPass
    e.run c order world none start state =
      (some ⟨last, .error (e.timedOut (world last) (last - start))⟩,
        stateAfter (e.pass c order world) (e.pace start).passes state) :=
  outcome_of_undecided (fun t => e.timedOut (world t) (t - start)) h

theorem FailureExpectation.run_of_undecided {e : FailureExpectation}
    (h : Undecided (e.pass c order world) (e.settings.pace start).passes state) :
    let last := (e.settings.pace start).lastPass
    e.run c order world none start state =
      (some ⟨last, .error (e.settings.timedOut (world last) (last - start))⟩,
        stateAfter (e.pass c order world) (e.settings.pace start).passes state) :=
  outcome_of_undecided (fun t => e.settings.timedOut (world t) (t - start)) h

theorem CommitExpectation.run_of_undecided {e : CommitExpectation}
    (h : ∀ t ∈ (e.pace start).passes, e.evaluate (world t) = none) :
    let last := (e.pace start).lastPass
    e.run world none start = some ⟨last, .error (e.timedOut (world last) (last - start))⟩ := by
  intro last
  have hundecided : Undecided (e.pass world) (e.pace start).passes () := by
    apply Pace.undecided_of_forall
    intro t ht _
    rw [pass, h t ht]
    rfl
  have houtcome := outcome_of_undecided (fun t => e.timedOut (world t) (t - start)) hundecided
  exact congrArg Prod.fst houtcome

/-- A wait that begins at a whole millisecond and that no pass decides comes to an end,
whatever its timeout and its interval are. It makes all of its passes, each from the state that
the one before left, and fails with a timeout. The passes begin at once, follow one another
strictly, and are at most the interval, or a millisecond if that is longer, apart, rounded up to
whole milliseconds. What is left of the time is only asked for before the deadline. Only the
last pass is not before the deadline, less than a millisecond after which it comes. If the clock
reaches the deadline there are at most two more passes than intervals in the timeout, and a wait
without any time makes one pass and does not sleep. This is the same for records, for failures
and for commits. -/
theorem waits_keep_pace (α σ : Type) (tick timeout interval : Nat) :
    let start := tick * millisecond
    let p : Pace := ⟨start, timeout, interval⟩
    let last := p.lastPass
    p.Paced ∧
      (∀ (e : Expectation) (c : Criterion α σ) order world state, e.pace start = p →
        Undecided (e.pass c order world) p.passes state →
        e.run c order world none start state =
          (some ⟨last, .error (e.timedOut (world last) (last - start))⟩,
            stateAfter (e.pass c order world) p.passes state)) ∧
      (∀ (e : FailureExpectation) (c : Criterion α σ) order world state,
        e.settings.pace start = p → Undecided (e.pass c order world) p.passes state →
        e.run c order world none start state =
          (some ⟨last, .error (e.settings.timedOut (world last) (last - start))⟩,
            stateAfter (e.pass c order world) p.passes state)) ∧
      ∀ (e : CommitExpectation) world, e.pace start = p →
        (∀ t ∈ p.passes, e.evaluate (world t) = none) →
        e.run world none start =
          some ⟨last, .error (e.timedOut (world last) (last - start))⟩ := by
  intro start p last
  refine ⟨Pace.paced_of_dvd (Nat.dvd_mul_left millisecond tick), ?_, ?_, ?_⟩
  · intro e c order world state hpace hundecided
    rw [← hpace] at hundecided
    have hrun := Expectation.run_of_undecided hundecided
    rwa [hpace] at hrun
  · intro e c order world state hpace hundecided
    rw [← hpace] at hundecided
    have hrun := FailureExpectation.run_of_undecided hundecided
    rwa [hpace] at hrun
  · intro e world hpace hundecided
    rw [← hpace] at hundecided
    have hrun := CommitExpectation.run_of_undecided hundecided
    rwa [hpace] at hrun

/-- Without an interval, a wait of one and a half milliseconds over a store that stays empty
lasts two. -/
theorem waits_keep_pace_between_milliseconds :
    let e : Expectation := ⟨.published, "order", 1500000, 0, false, 1⟩
    let p : Pace := ⟨3 * millisecond, 1500000, 0⟩
    let c : Criterion Bytes Unit := .pure some fun _ => true
    Undecided (e.pass c (fun _ => .stored) fun _ => .empty) p.passes () ∧
      (e.run c (fun _ => .stored) (fun _ => .empty) none (3 * millisecond) ()).1 =
        some ⟨5 * millisecond, .error (e.timedOut .empty (2 * millisecond))⟩ ∧
      p.passes.length ≤ 3 := by
  intro e p c
  obtain ⟨hpaced, hexpectation, -⟩ := waits_keep_pace Bytes Unit 3 1500000 0
  have hundecided : Undecided (e.pass c (fun _ => .stored) fun _ => .empty) p.passes () :=
    Pace.undecided_of_forall (fun _ _ _ => rfl) ()
  have hrun := hexpectation e c (fun _ => .stored) (fun _ => .empty) () rfl hundecided
  exact ⟨hundecided, congrArg Prod.fst hrun, hpaced.fewer (by decide)⟩

end TopicWatch.Wait
