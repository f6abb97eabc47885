import TopicWatch.Json.Value

/-!
# Places inside a value

A pointer is empty, or a list of steps that each begin with a slash. A step is the name of
a member or the position of an item; `~1` stands for a slash and `~0` for a tilde.
-/

namespace TopicWatch.Json

namespace Pointer

/-- A step with its escapes resolved. -/
def unescape : List Char → List Char
  | '~' :: '1' :: rest => '/' :: unescape rest
  | '~' :: '0' :: rest => '~' :: unescape rest
  | c :: rest => c :: unescape rest
  | [] => []

/-- The position that a step denotes: decimal digits without a leading zero. -/
def position? (step : List Char) : Option Nat :=
  match step with
  | [] => none
  | ['0'] => some 0
  | '0' :: _ => none
  | _ =>
      if step.all Char.isDigit then
        some (step.foldl (fun n c => n * 10 + (c.toNat - '0'.toNat)) 0)
      else none

/-- The steps of a pointer. -/
def steps? (pointer : String) : Option (List (List Char)) :=
  match pointer.splitOn "/" with
  | [""] => some []
  | "" :: steps => some (steps.map fun s => unescape s.toList)
  | _ => none

/-- One step into a value. -/
def step? (v : Value) (step : List Char) : Option Value :=
  match v with
  | .object _ => v.member? (String.ofList step)
  | .array _ => (position? step).bind fun i => v.item? i
  | _ => none

end Pointer

/-- The part of a value at a place. -/
def Value.at? (v : Value) (pointer : String) : Option Value := do
  (← Pointer.steps? pointer).foldlM Pointer.step? v

end TopicWatch.Json
