import TopicWatch.Toml.Token

/-!
# Numbers, dates and times of TOML

Integers have 64 bits. A number with a point or an exponent, a date and a time are checked
and kept as they are written.
-/

namespace TopicWatch.Toml

/-- Passes over digits of a sort, of which the first has to be there and the others may have
an underscore before them. Gives the digits without the underscores. -/
def digitsAfter (isDigit : Char → Bool) (read : List Char) :
    List Char → Option (List Char × List Char)
  | '_' :: c :: rest => if isDigit c then digitsAfter isDigit (c :: read) rest else none
  | c :: rest =>
      if isDigit c then digitsAfter isDigit (c :: read) rest
      else if c = '_' then none
      else some (read.reverse, c :: rest)
  | [] => some (read.reverse, [])

/-- Reads digits of a sort with underscores between them. -/
def readDigits (isDigit : Char → Bool) : List Char → Option (List Char × List Char)
  | c :: rest => if isDigit c then digitsAfter isDigit [c] rest else none
  | [] => none

/-- The sign in front of a number, and what follows it. -/
def sign : List Char → Bool × List Char
  | '-' :: rest => (true, rest)
  | '+' :: rest => (false, rest)
  | s => (false, s)

/-- Reads the digits of a decimal integer: a zero stands alone. -/
def readWhole : List Char → Option (List Char × List Char)
  | '0' :: rest => some (['0'], rest)
  | s => readDigits Char.isDigit s

/-- The number of digits in a base. -/
def number (base : Nat) (digits : List Char) : Nat :=
  Ascii.ofDigits base (digits.map fun c => (hexDigit? c).getD 0)

/-- An integer that fits 64 bits. -/
def fitting? (n : Int) : Option Int :=
  if Int64.minValue.toInt ≤ n ∧ n ≤ Int64.maxValue.toInt then some n else none

/-- Reads an integer in a base other than ten, after its mark. -/
def readBased (base : Nat) (s : List Char) : Option (Int × List Char) := do
  let (digits, rest) ← readDigits (fun c => (hexDigit? c).any (· < base)) s
  some (← fitting? (number base digits), rest)

/-- Reads an integer. -/
def readInteger (s : List Char) : Option (Int × List Char) :=
  match s with
  | '0' :: 'x' :: rest => readBased 16 rest
  | '0' :: 'o' :: rest => readBased 8 rest
  | '0' :: 'b' :: rest => readBased 2 rest
  | _ => do
      let (digits, rest) ← readWhole (sign s).2
      let n : Int := number 10 digits
      some (← fitting? (if (sign s).1 then -n else n), rest)

/-! ## Numbers with a point or an exponent -/

/-- Reads an exponent with its sign. -/
def readExponent : List Char → Option (Int × List Char)
  | c :: rest =>
      if c == 'e' || c == 'E' then do
        let (digits, after) ← readDigits Char.isDigit (sign rest).2
        let n : Int := number 10 digits
        some (if (sign rest).1 then -n else n, after)
      else none
  | [] => none

/-- The least number that rounds to something greater than the greatest finite number of 64
bits. -/
def firstTooGreat : Nat := Nat.pow 2 1024 - Nat.pow 2 970

/-- Whether `digits * 10 ^ exponent` rounds to something greater than the greatest finite
number of 64 bits. The powers are computed only where the order of magnitude leaves it
open. -/
def isTooGreat (digits : Nat) (exponent : Int) : Bool :=
  let magnitude := (Nat.log2 digits : Int) * 30103 / 100000 + exponent
  if digits = 0 ∨ magnitude < 300 then false
  else if 320 < magnitude then true
  else if exponent < 0 then decide (firstTooGreat * Nat.pow 10 (-exponent).toNat ≤ digits)
  else decide (firstTooGreat ≤ digits * Nat.pow 10 exponent.toNat)

/-- The places after a point and the exponent, of which one has to be there. -/
def readFraction (s : List Char) : Option ((List Char × Int) × List Char) :=
  match s with
  | '.' :: rest => do
      let (places, after) ← readDigits Char.isDigit rest
      match after with
      | c :: _ =>
          if c == 'e' || c == 'E' then do
            let (e, last) ← readExponent after
            some ((places, e), last)
          else some ((places, 0), after)
      | [] => some ((places, 0), after)
  | _ => do
      let (e, after) ← readExponent s
      some (([], e), after)

/-- Reads the name of an infinite number or of none at all. -/
def readSpecial (s : List Char) : Option (List Char) :=
  match (sign s).2 with
  | 'i' :: 'n' :: 'f' :: rest => some rest
  | 'n' :: 'a' :: 'n' :: rest => some rest
  | _ => none

/-- Reads a number with a point or an exponent. A positive one must not be too great. -/
def readFloat (s : List Char) : Option (List Char) :=
  match readSpecial s with
  | some rest => some rest
  | none => do
      let (digits, more) ← readWhole (sign s).2
      let ((places, e), rest) ← readFraction more
      let tooGreat := isTooGreat (number 10 (digits ++ places)) (e - places.length)
      if tooGreat && !(sign s).1 then none else some rest

/-! ## Dates and times -/

/-- Reads a number of exactly the given number of digits. -/
def readFixed (n : Nat) (s : List Char) : Option (Nat × List Char) :=
  let digits := s.take n
  if digits.length = n ∧ digits.all Char.isDigit then some (number 10 digits, s.drop n) else none

/-- Reads a number of two digits between two bounds. -/
def readTwo (least greatest : Nat) (s : List Char) : Option (Nat × List Char) := do
  let (n, rest) ← readFixed 2 s
  if least ≤ n ∧ n ≤ greatest then some (n, rest) else none

/-- Reads one given character. -/
def readChar (c : Char) : List Char → Option (List Char)
  | d :: rest => if d = c then some rest else none
  | [] => none

/-- The number of days of a month. -/
def daysOf (year month : Nat) : Nat :=
  let leap := year % 4 == 0 && (year % 100 != 0 || year % 400 == 0)
  if month = 2 then if leap then 29 else 28
  else if month = 4 ∨ month = 6 ∨ month = 9 ∨ month = 11 then 30
  else 31

/-- Reads a date. -/
def readDate (s : List Char) : Option (List Char) := do
  let (year, s) ← readFixed 4 s
  let s ← readChar '-' s
  let (month, s) ← readTwo 1 12 s
  let s ← readChar '-' s
  let (_, s) ← readTwo 1 (daysOf year month) s
  some s

/-- Reads a time. -/
def readTime (s : List Char) : Option (List Char) := do
  let (_, s) ← readTwo 0 23 s
  let s ← readChar ':' s
  let (_, s) ← readTwo 0 59 s
  let s ← readChar ':' s
  let (_, s) ← readTwo 0 60 s
  match s with
  | '.' :: c :: rest => if c.isDigit then some (rest.dropWhile Char.isDigit) else none
  | '.' :: [] => some s
  | _ => some s

/-- Passes over the offset of a time, if there is one. -/
def readOffset (s : List Char) : Option (List Char) :=
  match s with
  | c :: rest =>
      if c == 'Z' || c == 'z' then some rest
      else if c == '+' || c == '-' then do
        let (_, s) ← readTwo 0 23 rest
        let s ← readChar ':' s
        let (_, s) ← readTwo 0 59 s
        some s
      else some s
  | [] => some s

/-- Reads a date, which a time may follow, or a time. -/
def readMoment (s : List Char) : Option (List Char) :=
  match readDate s with
  | some rest =>
      match rest with
      | c :: more =>
          if c == 'T' || c == 't' then (readTime more).bind readOffset
          else if c == ' ' then
            match readTime more with
            | some after => readOffset after
            | none => some rest
          else some rest
      | [] => some rest
  | none => readTime s

/-- The characters at the front of a text up to a given rest. -/
def upTo (s rest : List Char) : String := String.ofList (s.take (s.length - rest.length))

/-- Reads a number, a date or a time. -/
def readScalar (s : List Char) : Option (Value × List Char) :=
  match readMoment s with
  | some rest => some (.moment (upTo s rest), rest)
  | none =>
      match readFloat s with
      | some rest => some (.float (upTo s rest), rest)
      | none => (readInteger s).map fun p => (.integer p.1, p.2)

end TopicWatch.Toml
