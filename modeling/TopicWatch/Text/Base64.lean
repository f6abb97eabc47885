import TopicWatch.Text.Utf8

/-!
# Base64 with canonical padding

Three bytes are written as four characters of the standard alphabet; a last group of one
or two bytes is filled up with `=`. Reading accepts exactly what writing produces: the
length is a multiple of four, padding stands only at the end, and the bits that a padded
group leaves unused are zero.
-/

namespace TopicWatch.Base64

/-- The character of a six-bit value. -/
def letter (n : Nat) : Char :=
  if n < 26 then Char.ofNat (0x41 + n)
  else if n < 52 then Char.ofNat (0x61 + (n - 26))
  else if n < 62 then Char.ofNat (0x30 + (n - 52))
  else if n = 62 then '+'
  else '/'

/-- The six-bit value of a character of the alphabet. -/
def value? (c : Char) : Option Nat :=
  if 'A' ≤ c ∧ c ≤ 'Z' then some (c.toNat - 0x41)
  else if 'a' ≤ c ∧ c ≤ 'z' then some (c.toNat - 0x61 + 26)
  else if '0' ≤ c ∧ c ≤ '9' then some (c.toNat - 0x30 + 52)
  else if c = '+' then some 62
  else if c = '/' then some 63
  else none

/-- The characters of three bytes. -/
def group (a b c : UInt8) : List Char :=
  [letter (a.toNat / 4), letter (a.toNat % 4 * 16 + b.toNat / 16),
    letter (b.toNat % 16 * 4 + c.toNat / 64), letter (c.toNat % 64)]

/-- The characters of a byte string after those already written, which stand in reverse. -/
def writeAfter (written : List Char) : Bytes → List Char
  | a :: b :: c :: rest => writeAfter ((group a b c).reverse ++ written) rest
  | [a, b] =>
      written.reverse ++ [letter (a.toNat / 4), letter (a.toNat % 4 * 16 + b.toNat / 16),
        letter (b.toNat % 16 * 4), '=']
  | [a] => written.reverse ++ [letter (a.toNat / 4), letter (a.toNat % 4 * 16), '=', '=']
  | [] => written.reverse

/-- The base64 text of a byte string. -/
def encode (s : Bytes) : String := String.ofList (writeAfter [] s)

/-- The bytes of one full group. -/
def ungroup? (w x y z : Char) : Option Bytes := do
  let a ← value? w
  let b ← value? x
  let c ← value? y
  let d ← value? z
  some [UInt8.ofNat (a * 4 + b / 16), UInt8.ofNat (b % 16 * 16 + c / 4),
    UInt8.ofNat (c % 4 * 64 + d)]

/-- The bytes of a last group that ends with padding. -/
def unpad? (w x y : Char) : Option Bytes := do
  let a ← value? w
  let b ← value? x
  if y = '=' then
    if b % 16 = 0 then some [UInt8.ofNat (a * 4 + b / 16)] else none
  else do
    let c ← value? y
    if c % 4 = 0 then some [UInt8.ofNat (a * 4 + b / 16), UInt8.ofNat (b % 16 * 16 + c / 4)]
    else none

/-- The bytes of a text after those already read, which stand in reverse. -/
def readAfter? (read : Bytes) : List Char → Option Bytes
  | [] => some read.reverse
  | [w, x, y, '='] => (unpad? w x y).map (read.reverse ++ ·)
  | w :: x :: y :: z :: rest =>
      match ungroup? w x y z with
      | some bytes => readAfter? (bytes.reverse ++ read) rest
      | none => none
  | _ => none

/-- The byte string a base64 text stands for, if it is canonical. -/
def decode? (s : String) : Option Bytes := readAfter? [] s.toList

theorem writeAfter_eq (written : List Char) (s : Bytes) :
    writeAfter written s = written.reverse ++ writeAfter [] s := by
  induction h : s.length using Nat.strongRecOn generalizing s written with
  | ind n ih =>
      match s, h with
      | [], _ => simp [writeAfter]
      | [a], _ => simp [writeAfter]
      | [a, b], _ => simp [writeAfter]
      | a :: b :: c :: rest, h =>
          have hlt : rest.length < n := by
            simp only [List.length_cons] at h
            omega
          rw [writeAfter, writeAfter, ih _ hlt ((group a b c).reverse ++ written) rest rfl,
            ih _ hlt ((group a b c).reverse ++ []) rest rfl]
          simp

/-- Three bytes at the front are written as one group. -/
theorem writeAfter_cons₃ (a b c : UInt8) (rest : Bytes) :
    writeAfter [] (a :: b :: c :: rest) = group a b c ++ writeAfter [] rest := by
  rw [writeAfter, writeAfter_eq]
  simp

end TopicWatch.Base64
