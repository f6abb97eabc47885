import TopicWatch.Wait.Expectation

/-!
# Expectations of failures

A failure expectation waits until a matching message is among the failures. When it may
also ask for a reason, a message that failed for other reasons only ends the wait at once.
-/

namespace TopicWatch.Wait

open Record

/-- A failure that matched, with its reason. -/
structure ObservedFailure (α : Type) where
  value : α
  metadata : Metadata
  reason : FailureReason
  deriving DecidableEq

/-- What is asserted about a failure: the settings, and what the reason has to be. -/
structure FailureExpectation where
  settings : Expectation
  because : Option (FailureReason → Bool)

namespace FailureExpectation

variable {α σ : Type}

/-- A failure expectation of a type of payload, with everything else as usual. -/
def new (typeName : String) (interval : Nat) : FailureExpectation :=
  ⟨.new .failed typeName interval, none⟩

/-- What the settings are, on one line. -/
def describe (e : FailureExpectation) : String :=
  s!"FailureExpectation \x7b inner: {e.settings.describe}, "
    ++ s!"has_reason_predicate: {e.because.isSome} \x7d"

/-- Whether a reason is an expected one. -/
def expects (e : FailureExpectation) (reason : FailureReason) : Bool :=
  match e.because with
  | some predicate => predicate reason
  | none => true

/-- Looks through failures for one that matches and has an expected reason. The reasons of
those that match and have another one are kept, in reverse. -/
def search (e : FailureExpectation) (c : Criterion α σ) (store : Store) :
    List Observation → List String → σ → Except Failure (Option (ObservedFailure α)) × σ
  | [], [], state => (.ok none, state)
  | [], reasons, state =>
      (.error (.unexpectedReason e.settings.subject reasons.reverse (store.dump .failed)), state)
  | o :: rest, reasons, state =>
      match c.candidate? o, o.reason? with
      | some m, some reason =>
          match c.test m state with
          | (.error source, after) => (.error (.condition e.settings.subject source), after)
          | (.ok false, after) => search e c store rest reasons after
          | (.ok true, after) =>
              if e.expects reason then (.ok (some ⟨m.value, m.metadata, reason⟩), after)
              else search e c store rest (reason.display :: reasons) after
      | _, _ => search e c store rest reasons state

/-- One pass over the failures of a store. -/
def evaluate (e : FailureExpectation) (c : Criterion α σ) (order : Order) (store : Store)
    (state : σ) : Except Failure (Option (ObservedFailure α)) × σ :=
  search e c store (order .failed (store.snapshot .failed)) [] state

/-- Waits for a failure over a store that changes with time. -/
def run (e : FailureExpectation) (c : Criterion α σ) (order : Nat → Order)
    (world : Nat → Store) (drop : Option Nat) (start : Nat) (state : σ) :
    Option (Outcome (ObservedFailure α)) × σ :=
  let ended := (e.settings.pace start).run drop
    (fun now s => verdict (e.evaluate c (order now) (world now) s)) start state
  (outcome? (fun t => e.settings.timedOut (world t) (t - start)) ended.1, ended.2)

end FailureExpectation

end TopicWatch.Wait
