import TopicWatch.Text.Utf8

/-!
# Comparing without regard to ASCII case

Only the letters `A` to `Z` are folded; every other character, also an accented letter,
stands for itself.
-/

namespace TopicWatch.Ascii

/-- Lower case for the bytes of `A` to `Z`, every other byte unchanged. -/
def fold (b : UInt8) : UInt8 :=
  if 0x41 ≤ b ∧ b ≤ 0x5A then b + 0x20 else b

/-- Equality of two texts up to ASCII case. -/
def equalFold (a b : String) : Bool :=
  (Utf8.encode a).map fold == (Utf8.encode b).map fold

/-- Whether a text ends with another one up to ASCII case. Every text ends with the empty one. -/
def endsWithFold (text ending : String) : Bool :=
  let t := Utf8.encode text
  let e := Utf8.encode ending
  decide (e.length ≤ t.length) &&
    ((t.drop (t.length - e.length)).map fold == e.map fold)

/-- The bytes of `0` to `9`. -/
def isDigit (b : UInt8) : Bool := decide (0x30 ≤ b ∧ b ≤ 0x39)

/-- The value of a digit byte. -/
def digit (b : UInt8) : Nat := b.toNat - 0x30

/-- The value of a hexadecimal digit of either case. -/
def hexDigit? (b : UInt8) : Option Nat :=
  if 0x30 ≤ b ∧ b ≤ 0x39 then some (b.toNat - 0x30)
  else if 0x61 ≤ b ∧ b ≤ 0x66 then some (b.toNat - 0x61 + 10)
  else if 0x41 ≤ b ∧ b ≤ 0x46 then some (b.toNat - 0x41 + 10)
  else none

/-- The number a list of digit values denotes in a base. -/
def ofDigits (base : Nat) (digits : List Nat) : Nat :=
  digits.foldl (fun n d => n * base + d) 0

end TopicWatch.Ascii
