import TopicWatch.Record.Failure
import TopicWatch.Record.Kind
import TopicWatch.Time.Duration

/-!
# How an assertion fails

Nothing matched in time, the condition itself failed, a message failed for another reason
than the expected one, or it failed where it should have been dealt with. Each failure
lists the records that were there.
-/

namespace TopicWatch.Wait

open Record

/-- The failure of an assertion about a subject. -/
inductive Failure where
  | timeout (subject : String) (kind : Record.Kind) (elapsed examined : Nat)
      (dump : String)
  | condition (subject source : String)
  | unexpectedReason (subject : String) (reasons : List String) (dump : String)
  | failedInstead (subject : String) (reason : FailureReason) (dump : String)
  deriving DecidableEq

namespace Failure

/-- Whether nothing matched in time. -/
def isTimeout : Failure → Bool
  | timeout .. => true
  | _ => false

/-- The reasons of an unexpected failure in one text. -/
def joined (reasons : List String) : String := String.intercalate "; " reasons

/-- A failure in words. -/
def message : Failure → String
  | timeout subject kind elapsed examined dump =>
      s!"expected {subject} to be {kind.name} within {Duration.display elapsed}, "
        ++ s!"but nothing matched ({examined} {kind.name} record(s) examined)\n{dump}"
  | condition subject source => s!"predicate for {subject} returned an error: {source}"
  | unexpectedReason subject reasons dump =>
      s!"{subject} failed, but not for the expected reason; observed: {joined reasons}\n{dump}"
  | failedInstead subject reason dump =>
      s!"expected {subject} to be consumed, but it failed: {reason.display}\n{dump}"

end Failure

end TopicWatch.Wait
