import TopicWatch.Time.Duration

/-!
# The pace of a wait

A wait makes a pass at once, and further passes an interval apart until its deadline has
come. The last sleep is cut short, so that there is always a pass at the deadline. Sleeps
end at whole milliseconds.
-/

namespace TopicWatch.Wait

open Duration

/-- The shortest interval between two passes. -/
def shortestInterval : Nat := millisecond

/-- The instant from which on the clock cannot count any further. How far a clock counts depends on
the machine, and here its seconds are signed integers of 64 bits. No law of waits rests on the
value. -/
def clockEnd : Nat := (UInt64.size / 2 - 1) * second

/-- How long a wait lasts whose deadline the clock could not reach. -/
def farFuture : Nat := 86400 * 365 * 30 * second

/-- The first whole millisecond not before an instant. -/
def wholeMillisecond (t : Nat) : Nat := (t + (millisecond - 1)) / millisecond * millisecond

/-- When a wait began, how long it may last and how long it sleeps between passes. -/
structure Pace where
  start : Nat
  timeout : Nat
  interval : Nat
  deriving DecidableEq, Repr

namespace Pace

/-- The instant at which the last pass is made. -/
def deadline (p : Pace) : Nat :=
  if p.start + p.timeout < clockEnd then p.start + p.timeout else p.start + farFuture

/-- The interval that is kept between passes. -/
def step (p : Pace) : Nat := max p.interval shortestInterval

/-- The instant of the pass after one at a given instant; none after the deadline. -/
def next? (p : Pace) (now : Nat) : Option Nat :=
  if p.deadline ≤ now then none
  else some (wholeMillisecond (now + min p.step (p.deadline - now)))

theorem le_wholeMillisecond (t : Nat) : t ≤ wholeMillisecond t := by
  simp only [wholeMillisecond, millisecond]
  omega

theorem shortestInterval_le_step (p : Pace) : shortestInterval ≤ p.step := Nat.le_max_right _ _

theorem step_pos (p : Pace) : 0 < p.step :=
  Nat.lt_of_lt_of_le (by decide) p.shortestInterval_le_step

/-- Passes follow one another strictly, and one is left only before the deadline. -/
theorem lt_of_next? {p : Pace} {now later : Nat} (h : p.next? now = some later) :
    now < later ∧ now < p.deadline := by
  unfold next? at h
  split at h
  · exact absurd h (by simp)
  · next hlt =>
      have hstep := p.step_pos
      have hle := le_wholeMillisecond (now + min p.step (p.deadline - now))
      have heq := Option.some.inj h
      omega

/-- How a wait ended: decided in a pass, at its last pass, or dropped. -/
inductive Ending (β : Type) where
  | decided (instant : Nat) (result : β)
  | expired (instant : Nat)
  | dropped
  deriving Repr

/-- Whether a pass is still made at an instant when the wait is dropped at another one. -/
def stillWaits (p : Pace) (drop : Option Nat) (now : Nat) : Bool :=
  drop.all fun d => decide (now < d) || decide (now = p.start)

/-- Makes passes from an instant on until one decides. A pass may change what the next one
starts from. -/
def run {σ β : Type} (p : Pace) (drop : Option Nat) (pass : Nat → σ → Option β × σ)
    (now : Nat) (state : σ) : Ending β × σ :=
  if p.stillWaits drop now then
    match pass now state with
    | (some result, after) => (.decided now result, after)
    | (none, after) =>
        match _h : p.next? now with
        | none => (.expired now, after)
        | some later => run p drop pass later after
  else (.dropped, state)
termination_by p.deadline - now
decreasing_by
  have := lt_of_next? _h
  omega

end Pace

end TopicWatch.Wait
