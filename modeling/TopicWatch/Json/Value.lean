import TopicWatch.Keyed
import TopicWatch.Number.Binary64

/-!
# JSON values

A value keeps the members of an object as they were written, repeated names included.
`Value.normal` is the reading in which a repeated name keeps its last value.
-/

namespace TopicWatch.Json

/-- A JSON number: an integer that was written as one and fits 64 bits, or else a binary
number. -/
inductive Number where
  | integer (n : Int)
  | binary (x : Binary64)
  deriving DecidableEq, Repr

/-- A JSON value. -/
inductive Value where
  | null
  | bool (b : Bool)
  | number (n : Number)
  | text (s : String)
  | array (items : List Value)
  | object (members : List (String × Value))
  deriving Inhabited, Repr

/-- Equality of numbers: integers and binary numbers are never equal to each other. -/
def Number.same : Number → Number → Bool
  | .integer m, .integer n => m == n
  | .binary x, .binary y => x.sameValue y
  | _, _ => false

namespace Value

mutual

/-- The value with the members of every object in the order of their names, where a name
that was repeated keeps its last value. -/
def normal : Value → Value
  | array items => array (normalItems items)
  | object members => object (Keyed.ofPairs (normalMembers members))
  | v => v

/-- The items of an array, each in its normal form. -/
def normalItems : List Value → List Value
  | [] => []
  | v :: rest => normal v :: normalItems rest

/-- The members of an object, each value in its normal form. -/
def normalMembers : List (String × Value) → List (String × Value)
  | [] => []
  | (k, v) :: rest => (k, normal v) :: normalMembers rest

end

mutual

/-- Equality of values in normal form. -/
def same : Value → Value → Bool
  | null, null => true
  | bool a, bool b => a == b
  | number m, number n => m.same n
  | text s, text t => s == t
  | array items, array others => sameItems items others
  | object members, object others => sameMembers members others
  | _, _ => false

/-- Equality of the items of two arrays, one by one. -/
def sameItems : List Value → List Value → Bool
  | [], [] => true
  | v :: rest, w :: others => same v w && sameItems rest others
  | _, _ => false

/-- Equality of the members of two objects, one by one. -/
def sameMembers : List (String × Value) → List (String × Value) → Bool
  | [], [] => true
  | (k, v) :: rest, (l, w) :: others => k == l && same v w && sameMembers rest others
  | _, _ => false

end

/-- The value of a member of an object; of a repeated name the first one. -/
def member? (name : String) : Value → Option Value
  | object members => Keyed.find? name members
  | _ => none

/-- An item of an array. -/
def item? (i : Nat) : Value → Option Value
  | array items => items[i]?
  | _ => none

end Value

end TopicWatch.Json
