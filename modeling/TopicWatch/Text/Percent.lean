import TopicWatch.Text.Ascii

/-!
# Percent signs in paths

A percent sign with two hexadecimal digits behind it stands for a byte. Any other percent
sign stands for itself.
-/

namespace TopicWatch.Percent

/-- The byte of a percent sign. -/
def sign : UInt8 := 0x25

/-- The byte that two hexadecimal digits denote. -/
def byte? (a b : UInt8) : Option UInt8 :=
  match Ascii.hexDigit? a, Ascii.hexDigit? b with
  | some x, some y => some (UInt8.ofNat (x * 16 + y))
  | _, _ => none

/-- The bytes that a text with percent signs stands for. -/
def decode : Bytes → Bytes
  | c :: a :: b :: rest =>
      match if c = sign then byte? a b else none with
      | some byte => byte :: decode rest
      | none => c :: decode (a :: b :: rest)
  | s => s

end TopicWatch.Percent
