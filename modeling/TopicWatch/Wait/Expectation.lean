import TopicWatch.Store.Report
import TopicWatch.Wait.Failure
import TopicWatch.Wait.Pace

/-!
# Expectations

An expectation waits until enough records of a kind have a payload of the wanted type and
satisfy a condition. A condition may fail, and may remember earlier calls. An expectation
of a delivered message looks at the failures first, and fails as soon as the message is
among them.
-/

namespace TopicWatch.Wait

open Record

/-- A record whose payload is a value of the wanted type. -/
structure Observed (α : Type) where
  value : α
  metadata : Metadata
  deriving DecidableEq

/-- What a record has to be: how its payload is read, and the condition on it, which gives
an answer or an error and the state for the next call. -/
structure Criterion (α σ : Type) where
  decode : Bytes → Option α
  test : Observed α → σ → Except String Bool × σ

/-- A condition that neither fails nor remembers anything. -/
def Criterion.pure {α : Type} (decode : Bytes → Option α) (test : Observed α → Bool) :
    Criterion α Unit :=
  ⟨decode, fun m _ => (.ok (test m), ())⟩

/-- A condition whose errors count as no. -/
def Criterion.lenient {α σ : Type} (c : Criterion α σ) : Criterion α σ :=
  { c with
    test := fun m s => match c.test m s with
      | (.ok b, after) => (.ok b, after)
      | (.error _, after) => (.ok false, after) }

/-- The record of an observation whose payload is of the wanted type. -/
def Criterion.candidate? {α σ : Type} (c : Criterion α σ) (o : Observation) :
    Option (Observed α) :=
  o.payload?.bind fun payload => (c.decode payload).map fun value => ⟨value, o.metadata⟩

/-- The order in which a pass meets the records of a kind. -/
abbrev Order := Record.Kind → List Observation → List Observation

/-- The order in which the store keeps its records. -/
def Order.stored : Order := fun _ records => records

/-- What is asserted, and for how long. -/
structure Expectation where
  kind : Record.Kind
  subject : String
  timeout : Nat
  interval : Nat
  committed : Bool
  wanted : Nat
  deriving DecidableEq

/-- The timeout of an expectation that sets none. -/
def defaultTimeout : Nat := 5 * Duration.second

/-- The interval between passes where none is set. -/
def defaultInterval : Nat := 50 * Duration.millisecond

namespace Expectation

variable {α σ : Type}

/-- The subject of an expectation that names none. -/
def subjectOf (typeName : String) : String := s!"message of type {typeName}"

/-- An expectation with a kind and a type of payload, and everything else as usual. -/
def new (kind : Record.Kind) (typeName : String) (interval : Nat) : Expectation :=
  ⟨kind, subjectOf typeName, defaultTimeout, interval, false, 1⟩

/-- Wants a number of records; none counts as one. -/
def atLeast (e : Expectation) (n : Nat) : Expectation := { e with wanted := max n 1 }

/-- What the settings of an expectation are, on one line. -/
def describe (e : Expectation) : String :=
  let kind := match e.kind with
    | .published => "Published"
    | .consumed => "Consumed"
    | .committed => "Committed"
    | .acknowledged => "Acknowledged"
    | .retried => "Retried"
    | .failed => "Failed"
  s!"Expectation \x7b kind: {kind}, subject: {Quoted.encode e.subject}, "
    ++ s!"timeout: {Duration.display e.timeout}, poll_interval: {Duration.display e.interval}, "
    ++ s!"require_commit: {e.committed}, min_matches: {e.wanted}, .. \x7d"

/-- Whether a record was committed; one whose place is not known was not. -/
def isCommitted (store : Store) (m : Metadata) : Bool :=
  match m.partition, m.offset with
  | some partition, some offset => store.isCommitted m.topic partition offset
  | _, _ => false

/-- Counts matching records up to the wanted number, and gives the first of them. An error
of the condition ends the count. -/
def count (e : Expectation) (c : Criterion α σ) (store : Store) :
    List Observation → Nat → Option (Observed α) → σ →
      Except Failure (Option (Observed α)) × σ
  | [], _, _, state => (.ok none, state)
  | o :: rest, found, first, state =>
      match c.candidate? o with
      | none => count e c store rest found first state
      | some m =>
          match c.test m state with
          | (.error source, after) => (.error (.condition e.subject source), after)
          | (.ok false, after) => count e c store rest found first after
          | (.ok true, after) =>
              if e.committed && !isCommitted store m.metadata then
                count e c store rest found first after
              else if e.wanted ≤ found + 1 then (.ok (first <|> some m), after)
              else count e c store rest (found + 1) (first <|> some m) after

/-- What a failure that gives no reason of its own is taken to have failed for. -/
def unexplained : FailureReason := ⟨FailureReason.routed, ""⟩

/-- Looks for a failure that matches; the first one is what the expectation fails with. -/
def failFast (e : Expectation) (c : Criterion α σ) (store : Store) (fallback : FailureReason) :
    List Observation → σ → Except Failure Unit × σ
  | [], state => (.ok (), state)
  | o :: rest, state =>
      match c.candidate? o with
      | none => failFast e c store fallback rest state
      | some m =>
          match c.test m state with
          | (.error source, after) => (.error (.condition e.subject source), after)
          | (.ok false, after) => failFast e c store fallback rest after
          | (.ok true, after) =>
              let reason := o.reason?.getD fallback
              (.error (.failedInstead e.subject reason (store.dump .failed)), after)

/-- One pass over the store. -/
def evaluate (e : Expectation) (c : Criterion α σ) (order : Order) (store : Store) (state : σ) :
    Except Failure (Option (Observed α)) × σ :=
  let matching := count e c store (order e.kind (store.snapshot e.kind)) 0 none
  if e.kind = .consumed then
    match failFast e c store unexplained (order .failed (store.snapshot .failed)) state with
    | (.error failure, after) => (.error failure, after)
    | (.ok (), after) => matching after
  else matching state

/-- What is said to those who look for commits by their payload. -/
def commitNote : String := "\ncommits carry no payload to match on; use should_be_committed"

/-- The failure of an expectation that nothing matched in time. -/
def timedOut (e : Expectation) (store : Store) (elapsed : Nat) : Failure :=
  .timeout e.subject e.kind elapsed (store.count e.kind)
    (store.dump e.kind ++ (if e.committed then "\n" ++ store.dump .committed else "")
      ++ (if e.kind = .committed then commitNote else ""))

/-- The pace at which an expectation is waited for. -/
def pace (e : Expectation) (start : Nat) : Pace := ⟨start, e.timeout, e.interval⟩

end Expectation

/-- How a wait ended, and when. -/
structure Outcome (β : Type) where
  instant : Nat
  result : Except Failure β

/-- The outcome of a wait, if it was not dropped. What a wait fails with when it expires
depends on the store it saw last. -/
def outcome? {β : Type} (timedOut : Nat → Failure) :
    Pace.Ending (Except Failure β) → Option (Outcome β)
  | .decided t result => some ⟨t, result⟩
  | .expired t => some ⟨t, .error (timedOut t)⟩
  | .dropped => none

/-- What a pass decides: a result or a failure, or nothing yet. -/
def verdict {β σ : Type} (evaluated : Except Failure (Option β) × σ) :
    Option (Except Failure β) × σ :=
  match evaluated with
  | (.error failure, after) => (some (.error failure), after)
  | (.ok (some result), after) => (some (.ok result), after)
  | (.ok none, after) => (none, after)

/-- Waits for an expectation over a store that changes with time. Gives nothing when the
wait is dropped, and the state of the condition in any case. -/
def Expectation.run {α σ : Type} (e : Expectation) (c : Criterion α σ)
    (order : Nat → Order) (world : Nat → Store) (drop : Option Nat)
    (start : Nat) (state : σ) : Option (Outcome (Observed α)) × σ :=
  let ended := (e.pace start).run drop
    (fun now s => verdict (e.evaluate c (order now) (world now) s)) start state
  (outcome? (fun t => e.timedOut (world t) (t - start)) ended.1, ended.2)

end TopicWatch.Wait
