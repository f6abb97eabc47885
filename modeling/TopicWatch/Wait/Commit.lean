import TopicWatch.Wait.Expectation

/-!
# Waiting for a commit

A commit has no payload to match on, so a wait for one asks the watermarks of the store.
-/

namespace TopicWatch.Wait

open Record

/-- A place in a topic that is to be committed. -/
structure CommitExpectation where
  topic : String
  partition : Partition
  offset : Offset
  timeout : Nat
  interval : Nat
  deriving DecidableEq

namespace CommitExpectation

/-- The place in words. -/
def subject (e : CommitExpectation) : String :=
  s!"offset {e.offset.toInt} of {e.topic}[{e.partition.toInt}]"

/-- One pass: whether the place is committed. -/
def evaluate (e : CommitExpectation) (store : Store) : Option Unit :=
  if store.isCommitted e.topic e.partition e.offset then some () else none

/-- The failure when the place was not committed in time. -/
def timedOut (e : CommitExpectation) (store : Store) (elapsed : Nat) : Failure :=
  .timeout e.subject .committed elapsed (store.count .committed) (store.dump .committed)

/-- Waits for the commit over a store that changes with time. -/
def run (e : CommitExpectation) (world : Nat → Store) (drop : Option Nat) (start : Nat) :
    Option (Outcome Unit) :=
  let ended := (Pace.mk start e.timeout e.interval).run drop
    (fun now (_ : Unit) => verdict (.ok (e.evaluate (world now)), ())) start ()
  outcome? (fun t => e.timedOut (world t) (t - start)) ended.1

end CommitExpectation

end TopicWatch.Wait
