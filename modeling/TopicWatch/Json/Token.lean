import TopicWatch.Json.Value
import TopicWatch.Text.Ascii

/-!
# Reading the parts of JSON

A reader takes the bytes that are left and gives what it read together with the bytes
after it. It stops at the first problem met from left to right, of which there are three
sorts: the text is not JSON, it ends too early, or it is JSON but not what was asked for.
-/

namespace TopicWatch.Json

/-- The sorts of problem. -/
inductive Fault where
  | malformed
  | unfinished
  | unsuitable
  deriving DecidableEq, Repr

/-- The outcome of a reader: a result and the bytes after it. -/
abbrev Step (α : Type) := Except Fault (α × Bytes)

/-- The four bytes that may stand between tokens. -/
def isBlank (b : UInt8) : Bool :=
  b == 0x20 || b == 0x0A || b == 0x09 || b == 0x0D

/-- The bytes from the next token on. -/
def skipBlanks (s : Bytes) : Bytes := s.dropWhile isBlank

/-- Reads the given bytes, of which each is checked before the next is looked at. -/
def literal : Bytes → Bytes → Except Fault Bytes
  | [], s => .ok s
  | _ :: _, [] => .error .unfinished
  | w :: word, c :: s => if c = w then literal word s else .error .malformed

/-! ## Strings -/

/-- The character of a one-letter escape. -/
def shortEscape? (e : UInt8) : Option UInt8 :=
  if e = 0x22 then some 0x22
  else if e = 0x5C then some 0x5C
  else if e = 0x2F then some 0x2F
  else if e = 0x62 then some 0x08
  else if e = 0x66 then some 0x0C
  else if e = 0x6E then some 0x0A
  else if e = 0x72 then some 0x0D
  else if e = 0x74 then some 0x09
  else none

/-- The number of four hexadecimal digits. -/
def hexFour? (a b c d : UInt8) : Option Nat := do
  let w ← Ascii.hexDigit? a
  let x ← Ascii.hexDigit? b
  let y ← Ascii.hexDigit? c
  let z ← Ascii.hexDigit? d
  some (((w * 16 + x) * 16 + y) * 16 + z)

/-- What a unit of an escape is, after a first half of a pair or on its own. -/
inductive Unit16 where
  | char (c : Char)
  | firstHalf (high : Nat)
  | wrong

/-- Two halves of a pair make one character; a half without its other half is wrong. -/
def Unit16.of (high : Option Nat) (n : Nat) : Unit16 :=
  match high with
  | some h =>
      if 0xDC00 ≤ n ∧ n ≤ 0xDFFF then
        .char (Char.ofNat ((h - 0xD800) * 0x400 + (n - 0xDC00) + 0x10000))
      else .wrong
  | none =>
      if 0xD800 ≤ n ∧ n ≤ 0xDBFF then .firstHalf n
      else if 0xDC00 ≤ n ∧ n ≤ 0xDFFF then .wrong
      else .char (Char.ofNat n)

/-- Reads a string after its opening quote. `read` holds the UTF-8 bytes read so far in
reverse, `high` the first half of a pair whose second half has to follow at once. The
bytes are checked to be UTF-8 when the closing quote is met. -/
def textAfter (read : Bytes) (high : Option Nat) : Bytes → Step String
  | [] => .error .unfinished
  | 0x5C :: [] => .error .unfinished
  | 0x5C :: 0x75 :: a :: b :: c :: d :: rest =>
      match hexFour? a b c d with
      | none => .error .malformed
      | some n => match Unit16.of high n with
        | .char ch => textAfter ((String.utf8EncodeChar ch).reverse ++ read) none rest
        | .firstHalf h => textAfter read (some h) rest
        | .wrong => .error .malformed
  | 0x5C :: e :: rest =>
      if e = 0x75 then .error .unfinished
      else if high.isSome then .error .malformed
      else match shortEscape? e with
        | some x => textAfter (x :: read) none rest
        | none => .error .malformed
  | c :: rest =>
      if high.isSome then .error .malformed
      else if c = 0x22 then
        match Utf8.decode? read.reverse with
        | some s => .ok (s, rest)
        | none => .error .malformed
      else if c < 0x20 then .error .malformed
      else textAfter (c :: read) none rest

/-- Reads a string after its opening quote. -/
def readText (s : Bytes) : Step String := textAfter [] none s

/-- Passes over a string after its opening quote without reading it: escapes have to be
well-formed, but halves of pairs and bytes that are not UTF-8 go unnoticed. -/
def skipText : Bytes → Except Fault Bytes
  | [] => .error .unfinished
  | 0x5C :: [] => .error .unfinished
  | 0x5C :: 0x75 :: a :: b :: c :: d :: rest =>
      if (hexFour? a b c d).isSome then skipText rest else .error .malformed
  | 0x5C :: e :: rest =>
      if e = 0x75 then .error .unfinished
      else if (shortEscape? e).isSome then skipText rest
      else .error .malformed
  | c :: rest =>
      if c = 0x22 then .ok rest
      else if c < 0x20 then .error .malformed
      else skipText rest

/-! ## Numbers -/

/-- The values of the digits at the front, and the bytes after them. -/
def spanDigits (s : Bytes) : List Nat × Bytes :=
  ((s.takeWhile Ascii.isDigit).map Ascii.digit, s.dropWhile Ascii.isDigit)

/-- The greatest significand that is kept. -/
def greatestSignificand : Nat := UInt64.size - 1

/-- Appends digits to a significand up to the first one that would make it too great. Gives
the significand and the digits that found no place. -/
def absorb (significand : Nat) : List Nat → Nat × List Nat
  | [] => (significand, [])
  | d :: ds =>
      if significand * 10 + d ≤ greatestSignificand then absorb (significand * 10 + d) ds
      else (significand, d :: ds)

/-- The binary number of a decimal; one that is too large is no JSON number. -/
def binary (negative : Bool) (significand : Nat) (exponent : Int) (rest : Bytes) : Step Number :=
  match Binary64.ofDecimal? negative significand exponent with
  | some x => .ok (.binary x, rest)
  | none => .error .malformed

/-- Reads an exponent after its `e`. -/
def readExponent (s : Bytes) : Step Int :=
  let signed := match s with
    | 0x2B :: rest => (false, rest)
    | 0x2D :: rest => (true, rest)
    | _ => (false, s)
  match signed.2 with
  | [] => .error .unfinished
  | c :: rest =>
      if Ascii.isDigit c then
        let digits := spanDigits (c :: rest)
        let n : Int := Ascii.ofDigits 10 digits.1
        .ok (if signed.1 then -n else n, digits.2)
      else .error .malformed

/-- A significand with its exponent so far, before an exponent that may still follow. -/
def withExponent (negative : Bool) (significand : Nat) (exponent : Int) (s : Bytes) :
    Step Number :=
  match s with
  | 0x65 :: rest | 0x45 :: rest =>
      match readExponent rest with
      | .ok (e, after) => binary negative significand (exponent + e) after
      | .error f => .error f
  | _ => binary negative significand exponent s

/-- The number of an integer literal. A negative zero, and what does not fit 64 bits, is a
binary number. -/
def integerOf (negative : Bool) (significand : Nat) (rest : Bytes) : Step Number :=
  if negative then
    if significand = 0 ∨ UInt64.size / 2 < significand then binary true significand 0 rest
    else .ok (.integer (-(significand : Int)), rest)
  else .ok (.integer significand, rest)

/-- Reads a number after its sign. -/
def readNumber (negative : Bool) (s : Bytes) : Step Number :=
  match s with
  | [] => .error .unfinished
  | c :: rest =>
      if !Ascii.isDigit c || (c == 0x30 && rest.head?.any Ascii.isDigit) then .error .malformed
      else
        let digits := spanDigits (c :: rest)
        let whole := absorb 0 digits.1
        match digits.2 with
        | 0x2E :: more =>
            let places := spanDigits more
            if places.1.isEmpty then
              .error (if places.2.isEmpty then .unfinished else .malformed)
            else
              let all := absorb whole.1 places.1
              let taken : Int := (places.1.length : Int) - (all.2.length : Int)
              withExponent negative all.1 ((whole.2.length : Int) - taken) places.2
        | 0x65 :: _ | 0x45 :: _ =>
            withExponent negative whole.1 (whole.2.length : Int) digits.2
        | after =>
            if whole.2.isEmpty then integerOf negative whole.1 after
            else binary negative whole.1 (whole.2.length : Int) after

/-- Passes over an exponent after its `e`. -/
def skipExponent (s : Bytes) : Except Fault Bytes :=
  let unsigned := match s with
    | 0x2B :: rest | 0x2D :: rest => rest
    | _ => s
  match unsigned with
  | c :: rest => if Ascii.isDigit c then .ok (rest.dropWhile Ascii.isDigit) else .error .malformed
  | [] => .error .malformed

/-- Passes over a number after its sign without reading it: its size does not matter, and a
number that breaks off is malformed. -/
def skipNumber (s : Bytes) : Except Fault Bytes :=
  match s with
  | [] => .error .malformed
  | c :: rest =>
      if !Ascii.isDigit c || (c == 0x30 && rest.head?.any Ascii.isDigit) then .error .malformed
      else match rest.dropWhile Ascii.isDigit with
        | 0x2E :: more =>
            if more.head?.any Ascii.isDigit then
              match more.dropWhile Ascii.isDigit with
              | 0x65 :: after | 0x45 :: after => skipExponent after
              | after => .ok after
            else .error .malformed
        | 0x65 :: after | 0x45 :: after => skipExponent after
        | after => .ok after

/-! ## Between the items of an array and the members of an object -/

/-- What stands next in an array. -/
inductive NextItem where
  | item (s : Bytes)
  | closed (rest : Bytes)

/-- Looks for the next item of an array, or its end. -/
def nextItem (first : Bool) (s : Bytes) : Except Fault NextItem :=
  match skipBlanks s with
  | [] => .error .unfinished
  | c :: rest =>
      if c = 0x5D then .ok (.closed rest)
      else if first then .ok (.item (c :: rest))
      else if c = 0x2C then
        match skipBlanks rest with
        | [] => .error .unfinished
        | d :: more => if d = 0x5D then .error .malformed else .ok (.item (d :: more))
      else .error .malformed

/-- Reads the end of an array after which no item is wanted. -/
def closeArray (s : Bytes) : Except Fault Bytes :=
  match skipBlanks s with
  | [] => .error .unfinished
  | c :: rest => if c = 0x5D then .ok rest else .error .malformed

/-- What stands next in an object. -/
inductive NextMember where
  | name (name : String) (s : Bytes)
  | closed (rest : Bytes)

/-- Reads the name of a member after the bytes before it. -/
def readName (s : Bytes) : Except Fault NextMember :=
  match s with
  | [] => .error .unfinished
  | c :: rest =>
      if c = 0x22 then
        match readText rest with
        | .ok (name, after) => .ok (.name name after)
        | .error f => .error f
      else .error .malformed

/-- Looks for the next member of an object and reads its name, or finds the end. -/
def nextMember (first : Bool) (s : Bytes) : Except Fault NextMember :=
  match skipBlanks s with
  | [] => .error .unfinished
  | c :: rest =>
      if c = 0x7D then .ok (.closed rest)
      else if first then readName (c :: rest)
      else if c = 0x2C then readName (skipBlanks rest)
      else .error .malformed

/-- Reads the colon between a name and its value. -/
def colon (s : Bytes) : Except Fault Bytes :=
  match skipBlanks s with
  | [] => .error .unfinished
  | c :: rest => if c = 0x3A then .ok rest else .error .malformed

end TopicWatch.Json
