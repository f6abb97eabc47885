import TopicWatch.Wait.Commit
import TopicWatch.Wait.FailureExpectation

/-!
# Assertions over a store

The usual ways to state an expectation. All of them share one interval between passes.
-/

namespace TopicWatch.Wait

/-- What assertions about a store have in common. -/
structure Assertions where
  interval : Nat
  deriving DecidableEq, Repr

namespace Assertions

/-- Assertions where no interval is set. -/
def standard : Assertions := ⟨defaultInterval⟩

/-- An expectation of a record of a kind. -/
def expect (a : Assertions) (kind : Record.Kind) (typeName : String) : Expectation :=
  .new kind typeName a.interval

/-- A message is delivered in time. -/
def shouldBeConsumed (a : Assertions) (typeName : String) (timeout : Nat) : Expectation :=
  { a.expect .consumed typeName with timeout }

/-- A message is sent in time. -/
def shouldBePublished (a : Assertions) (typeName : String) (timeout : Nat) : Expectation :=
  { a.expect .published typeName with timeout }

/-- A message is tried again a number of times. -/
def shouldBeRetried (a : Assertions) (typeName : String) (timeout times : Nat) : Expectation :=
  { a.expect .retried typeName with timeout }.atLeast times

/-- A message fails in time. -/
def shouldBeFailed (a : Assertions) (typeName : String) (timeout : Nat) : FailureExpectation :=
  let usual := FailureExpectation.new typeName a.interval
  { usual with settings := { usual.settings with timeout } }

/-- A place in a topic is committed in time. -/
def shouldBeCommitted (a : Assertions) (topic : String) (partition : Record.Partition)
    (offset : Record.Offset) (timeout : Nat) : CommitExpectation :=
  ⟨topic, partition, offset, timeout, a.interval⟩

/-- Assertions about a store on one line. -/
def describe (a : Assertions) (store : Store) : String :=
  s!"Assertions \x7b poll_interval: {Duration.display a.interval}, store: {store.describe} \x7d"

end Assertions

end TopicWatch.Wait
