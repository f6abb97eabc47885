/-!
# TOML values

Numbers with a point or an exponent, and dates and times, are kept as they are written.
-/

namespace TopicWatch.Toml

/-- A TOML value. -/
inductive Value where
  | text (s : String)
  | integer (n : Int)
  | float (literal : String)
  | boolean (b : Bool)
  | moment (literal : String)
  | array (items : List Value)
  | table (entries : List (String × Value))
  deriving Inhabited, Repr

namespace Value

mutual

/-- Whether two values are the same. -/
def decEq (v w : Value) : Decidable (v = w) :=
  match v with
  | .text s =>
      match w with
      | .text t => decidable_of_iff (s = t) (by simp)
      | .integer _ | .float _ | .boolean _ | .moment _ | .array _ | .table _ => isFalse nofun
  | .integer m =>
      match w with
      | .integer n => decidable_of_iff (m = n) (by simp)
      | .text _ | .float _ | .boolean _ | .moment _ | .array _ | .table _ => isFalse nofun
  | .float s =>
      match w with
      | .float t => decidable_of_iff (s = t) (by simp)
      | .text _ | .integer _ | .boolean _ | .moment _ | .array _ | .table _ => isFalse nofun
  | .boolean a =>
      match w with
      | .boolean b => decidable_of_iff (a = b) (by simp)
      | .text _ | .integer _ | .float _ | .moment _ | .array _ | .table _ => isFalse nofun
  | .moment s =>
      match w with
      | .moment t => decidable_of_iff (s = t) (by simp)
      | .text _ | .integer _ | .float _ | .boolean _ | .array _ | .table _ => isFalse nofun
  | .array items =>
      match w with
      | .array items' =>
          haveI := decEqItems items items'
          decidable_of_iff (items = items') (by simp)
      | .text _ | .integer _ | .float _ | .boolean _ | .moment _ | .table _ => isFalse nofun
  | .table entries =>
      match w with
      | .table entries' =>
          haveI := decEqEntries entries entries'
          decidable_of_iff (entries = entries') (by simp)
      | .text _ | .integer _ | .float _ | .boolean _ | .moment _ | .array _ => isFalse nofun

/-- Whether the items of two arrays are the same. -/
def decEqItems (vs ws : List Value) : Decidable (vs = ws) :=
  match vs, ws with
  | [], [] => isTrue rfl
  | [], _ :: _ | _ :: _, [] => isFalse nofun
  | v :: vs, w :: ws =>
      haveI := decEq v w
      haveI := decEqItems vs ws
      decidable_of_iff (v = w ∧ vs = ws) (by simp)

/-- Whether the entries of two tables are the same. -/
def decEqEntries (vs ws : List (String × Value)) : Decidable (vs = ws) :=
  match vs, ws with
  | [], [] => isTrue rfl
  | [], _ :: _ | _ :: _, [] => isFalse nofun
  | (k, v) :: vs, (l, w) :: ws =>
      haveI := decEq v w
      haveI := decEqEntries vs ws
      decidable_of_iff ((k = l ∧ v = w) ∧ vs = ws) (by simp)

end

instance : DecidableEq Value := decEq

end Value

/-- The entries of a table. -/
abbrev Entries := List (String × Value)

end TopicWatch.Toml
