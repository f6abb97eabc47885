import TopicWatch.Json.Pointer
import TopicWatch.Wait.Expectation

/-!
# Conditions on messages

A small language of conditions on the value and the context of a message. A condition may
count its calls, and it may fail.
-/

namespace TopicWatch.Wait

open Json

/-- A condition on a message. -/
inductive Condition where
  | always
  | never
  | valueAt (place : String) (wanted : Value)
  | contextAt (place : String) (wanted : Value)
  | fromCall (n : Nat)
  | fails (source : String)
  | not (c : Condition)
  | all (cs : List Condition)
  | any (cs : List Condition)
  deriving Inhabited

namespace Condition

mutual

/-- Evaluates a condition in its call with the given number; the first call has number
one. -/
def holds (m : Observed Value) (call : Nat) : Condition → Except String Bool
  | always => .ok true
  | never => .ok false
  | valueAt place wanted => .ok ((m.value.at? place).any fun v => v.normal.same wanted.normal)
  | contextAt place wanted =>
      let context := (Record.Metadata.form.toValue m.metadata).normal
      .ok (((context.at? place).getD .null).same wanted.normal)
  | fromCall n => .ok (decide (n ≤ call))
  | fails source => .error source
  | not c => (holds m call c).map (!·)
  | all cs => holdsAll m call cs
  | any cs => holdsAny m call cs

/-- Whether conditions hold one and all; the first that does not hold ends the test. -/
def holdsAll (m : Observed Value) (call : Nat) : List Condition → Except String Bool
  | [] => .ok true
  | c :: cs =>
      match holds m call c with
      | .ok true => holdsAll m call cs
      | other => other

/-- Whether any of the conditions holds; the first that holds ends the test. -/
def holdsAny (m : Observed Value) (call : Nat) : List Condition → Except String Bool
  | [] => .ok false
  | c :: cs =>
      match holds m call c with
      | .ok false => holdsAny m call cs
      | other => other

end

/-- A condition as a criterion that counts its calls. -/
def criterion (c : Condition) (decode : Bytes → Option Value) : Criterion Value Nat :=
  ⟨decode, fun m calls => (c.holds m (calls + 1), calls + 1)⟩

end Condition

end TopicWatch.Wait
