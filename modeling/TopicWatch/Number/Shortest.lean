import TopicWatch.Number.Binary64

/-!
# The shortest decimal text of a binary number

Among the decimals that read back as the number, the ones with the fewest digits are
taken, and of these the nearest to the number; an exact tie goes to the even last digit.
Where the text puts the point and how it writes an exponent is a `Style`.
-/

namespace TopicWatch.Shortest

/-- A positive decimal `digits * 10 ^ exponent`. -/
structure Decimal where
  digits : Nat
  exponent : Int
  deriving DecidableEq, Repr

/-- The two naturals whose quotient is `10 ^ k`. -/
def tens (k : Int) : Nat × Nat :=
  if 0 ≤ k then (Nat.pow 10 k.toNat, 1) else (1, Nat.pow 10 (-k).toNat)

/-- The power of ten of a number's first digit. -/
def leading (x : Binary64) : Int :=
  let guess : Int := (x.exponent + (x.significand.log2 : Int)) * 30103 / 100000
  let q := x.quotient
  let t := tens (guess + 1)
  if t.1 * q.2 ≤ q.1 * t.2 then guess + 1 else guess

/-- Four times the lower and upper end of the decimals that read back as the number, in
units of its last binary digit. Below a power of two the step is half as wide. -/
def ends (x : Binary64) : Nat × Nat :=
  let low :=
    if x.significand = Nat.pow 2 52 ∧ Binary64.leastExponent < x.exponent then 4 * x.significand - 1
    else 4 * x.significand - 2
  (low, 4 * x.significand + 2)

/-- Whether a decimal reads back as the number: it lies between the ends, which belong to
the number exactly when its significand is even. -/
def readsBack (x : Binary64) (d : Decimal) : Bool :=
  let t := tens d.exponent
  let unit := Binary64.scaled 1 x.exponent
  let value := 4 * d.digits * t.1 * unit.2
  let low := (ends x).1 * t.2 * unit.1
  let high := (ends x).2 * t.2 * unit.1
  if x.significand % 2 = 0 then decide (low ≤ value ∧ value ≤ high)
  else decide (low < value ∧ value < high)

/-- The nearer of the two decimals around the number on the grid of `10 ^ k`, if any of
them reads back. -/
def onGrid? (x : Binary64) (k : Int) : Option Decimal :=
  let t := tens k
  let q := x.quotient
  let num := q.1 * t.2
  let den := q.2 * t.1
  let below : Decimal := ⟨num / den, k⟩
  let above : Decimal := ⟨num / den + 1, k⟩
  let r := num % den
  match readsBack x below && decide (0 < below.digits), readsBack x above with
  | true, true =>
      if 2 * r < den ∨ (2 * r = den ∧ below.digits % 2 = 0) then some below else some above
  | true, false => some below
  | false, true => some above
  | false, false => none

/-- Tries grids of growing fineness, beginning with the given one. -/
def search (x : Binary64) (k : Int) : Nat → Decimal
  | 0 => ⟨x.significand, 0⟩
  | n + 1 => match onGrid? x k with
      | some d => d
      | none => search x (k - 1) n

/-- The shortest decimal of a number other than zero; 17 digits always suffice. -/
def decimal (x : Binary64) : Decimal := search x (leading x) 17

/-- How a decimal is set: the powers of ten of a first digit that are written without an
exponent, and whether an exponent that is not negative has a sign. -/
structure Style where
  least : Int
  greatest : Int
  plus : Bool

/-- Drops zeros at the end of a list of digits. -/
def dropZeros (ds : List Char) : List Char := (ds.reverse.dropWhile (· == '0')).reverse

/-- The text of the digits `ds` when the first of them stands for `10 ^ first`. A text
without an exponent always has a point. -/
def place (style : Style) (ds : List Char) (first : Int) : List Char :=
  if style.least ≤ first ∧ first ≤ style.greatest then
    if first < 0 then
      ['0', '.'] ++ List.replicate ((-first).toNat - 1) '0' ++ ds
    else if (ds.length : Int) ≤ first + 1 then
      ds ++ List.replicate (first.toNat + 1 - ds.length) '0' ++ ['.', '0']
    else ds.take (first.toNat + 1) ++ ['.'] ++ ds.drop (first.toNat + 1)
  else
    let mantissa := match ds with
      | [] => []
      | [d] => [d]
      | d :: more => d :: '.' :: more
    let sign := if first < 0 then ['-'] else if style.plus then ['+'] else []
    mantissa ++ ['e'] ++ sign ++ Nat.toDigits 10 first.natAbs

/-- The text of a number in a style. -/
def render (style : Style) (x : Binary64) : String :=
  let sign := if x.negative then ['-'] else []
  if x.isZero then String.ofList (sign ++ ['0', '.', '0'])
  else
    let d := decimal x
    let all := Nat.toDigits 10 d.digits
    let first := d.exponent + (all.length : Int) - 1
    String.ofList (sign ++ place style (dropZeros all) first)

end TopicWatch.Shortest
