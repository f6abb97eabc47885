import TopicWatch.Config.Source
import TopicWatch.Keyed

/-!
# Settings

A setting that is not given has its usual value; one that is given has to be of the right
kind. Keys that name no setting are passed over. A section may also be written as an array
of the values of its settings, in their order, of which the last ones may be left out.
-/

namespace TopicWatch.Config

/-- The settings of a section: by name or by place. -/
inductive Settings (ν : Type) where
  | named (entries : List (String × ν))
  | placed (items : List ν)
  deriving Repr

namespace Settings

variable {ν α : Type}

/-- The settings of a section with a given number of them. -/
def of? (source : Source ν) (count : Nat) (v : ν) : Option (Settings ν) :=
  match source.shape v with
  | .table entries => some (.named entries)
  | .array items =>
      if source.surplus = .refused ∧ count < items.length then none else some (.placed items)
  | _ => none

/-- The value that is given for a setting. -/
def given? (key : String) (place : Nat) : Settings ν → Option ν
  | named entries => Keyed.find? key entries
  | placed items => items[place]?

/-- Reads a setting; one that is not given has its usual value. -/
def read (s : Settings ν) (key : String) (place : Nat) (value : ν → Option α) (usual : α) :
    Option α :=
  match s.given? key place with
  | none => some usual
  | some v => value v

theorem read_of_given?_eq_none {s : Settings ν} {key : String} {place : Nat}
    {value : ν → Option α} {usual : α} (h : s.given? key place = none) :
    s.read key place value usual = some usual := by
  simp [read, h]

theorem read_of_given?_eq_some {s : Settings ν} {key : String} {place : Nat}
    {value : ν → Option α} {usual : α} {v : ν} (h : s.given? key place = some v) :
    s.read key place value usual = value v := by
  simp [read, h]

end Settings

/-! ## Values of settings -/

namespace Source

variable {ν : Type} (source : Source ν)

/-- The text of a value. -/
def text? (v : ν) : Option String :=
  match source.shape v with
  | .text s => some s
  | _ => none

/-- The truth value of a value. -/
def boolean? (v : ν) : Option Bool :=
  match source.shape v with
  | .boolean b => some b
  | _ => none

/-- The natural number of a value that is below a bound. -/
def naturalBelow? (bound : Nat) (v : ν) : Option Nat :=
  match source.shape v with
  | .integer n => if 0 ≤ n ∧ n < bound then some n.toNat else none
  | _ => none

/-- The port that a value names. -/
def port? (v : ν) : Option UInt16 := (source.naturalBelow? UInt16.size v).map UInt16.ofNat

/-- The texts of an array. -/
def texts? (v : ν) : Option (List String) :=
  match source.shape v with
  | .array items => items.mapM source.text?
  | _ => none

end Source

end TopicWatch.Config
