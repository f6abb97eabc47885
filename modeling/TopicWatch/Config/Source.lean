import TopicWatch.Toml.Value

/-!
# Where settings are read from

Settings are read from the values of a document, or from values that were put aside before it was
known what they are for. Readers ask either sort of value only what it is.
-/

namespace TopicWatch.Config

open Toml

/-- What a value is to a reader. -/
inductive Shape (ν : Type) where
  | text (s : String)
  | integer (n : Int)
  | float
  | boolean (b : Bool)
  | array (items : List ν)
  | table (entries : List (String × ν))

/-- What becomes of the items of an array that are more than a section has settings. -/
inductive Surplus where
  | ignored
  | refused
  deriving DecidableEq, Repr

/-- Where settings are read from. -/
structure Source (ν : Type) where
  shape : ν → Shape ν
  surplus : Surplus

/-- What a value of a document is. A date or time is a table without settings. -/
def documentShape : Value → Shape Value
  | .text s => .text s
  | .integer n => .integer n
  | .float _ => .float
  | .boolean b => .boolean b
  | .moment _ => .table []
  | .array items => .array items
  | .table entries => .table entries

/-- A value that was put aside. -/
inductive Buffered where
  | text (s : String)
  | integer (n : Int)
  | float (literal : String)
  | boolean (b : Bool)
  | array (items : List Buffered)
  | table (entries : List (String × Buffered))
  deriving Inhabited, Repr

namespace Buffered

/-- What a value that was put aside is. -/
def shape : Buffered → Shape Buffered
  | text s => .text s
  | integer n => .integer n
  | float _ => .float
  | boolean b => .boolean b
  | array items => .array items
  | table entries => .table entries

mutual

/-- Puts a value of a document aside. -/
def ofValue : Value → Buffered
  | .text s => text s
  | .integer n => integer n
  | .float literal => float literal
  | .boolean b => boolean b
  | .moment _ => table []
  | .array items => array (ofItems items)
  | .table entries => table (ofEntries entries)

/-- Puts the items of an array aside. -/
def ofItems : List Value → List Buffered
  | [] => []
  | v :: items => ofValue v :: ofItems items

/-- Puts the entries of a table aside. -/
def ofEntries : List (String × Value) → List (String × Buffered)
  | [] => []
  | (key, v) :: entries => (key, ofValue v) :: ofEntries entries

end

end Buffered

namespace Source

/-- The values of a document. -/
def document : Source Value := ⟨documentShape, .ignored⟩

/-- The values that were put aside. -/
def buffered : Source Buffered := ⟨Buffered.shape, .refused⟩

end Source

end TopicWatch.Config
