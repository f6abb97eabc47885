/-!
# Binary floating-point numbers

The finite numbers of the 64-bit binary format, computed with integers. A magnitude is
`significand * 2 ^ exponent`. Every operation takes the exact result as a quotient of two
naturals and rounds it once, to the nearest magnitude and on a tie to the even one. There
are no infinities: a result that would be too large is no number.
-/

namespace TopicWatch

/-- A finite 64-bit binary number. -/
structure Binary64 where
  negative : Bool
  significand : Nat
  exponent : Int
  deriving DecidableEq, Repr, Inhabited

namespace Binary64

/-- The least exponent, that of the magnitudes nearest to zero. -/
def leastExponent : Int := -1074

/-- The greatest exponent. -/
def greatestExponent : Int := 971

/-- Zero, with a sign of its own. -/
def zero (negative : Bool) : Binary64 := ⟨negative, 0, leastExponent⟩

/-- Whether a number is zero of either sign. -/
def isZero (x : Binary64) : Bool := x.significand == 0

/-- The quotient rounded to a natural; a half goes to the even neighbour. -/
def roundQuotient (num den : Nat) : Nat :=
  let q := num / den
  let r := num % den
  if den < 2 * r ∨ (2 * r = den ∧ q % 2 = 1) then q + 1 else q

/-- The two naturals whose quotient is `n * 2 ^ e`. -/
def scaled (n : Nat) (e : Int) : Nat × Nat :=
  if 0 ≤ e then (n * Nat.pow 2 e.toNat, 1) else (n, Nat.pow 2 (-e).toNat)

/-- The exponent under which the quotient of two positive naturals has 53 binary digits. -/
def exponentOf (num den : Nat) : Int :=
  let e : Int := (num.log2 : Int) - (den.log2 : Int) - 52
  let up := scaled den e
  if num * up.2 < Nat.pow 2 52 * up.1 then e - 1 else e

/-- The number nearest to the quotient of two naturals, unless it would be too large. -/
def ofQuotient? (negative : Bool) (num den : Nat) : Option Binary64 :=
  if num = 0 ∨ den = 0 then some (zero negative)
  else
    let e := max (exponentOf num den) leastExponent
    let up := scaled den e
    let m := roundQuotient (num * up.2) up.1
    let (m, e) := if m = Nat.pow 2 53 then (Nat.pow 2 52, e + 1) else (m, e)
    if greatestExponent < e then none else some ⟨negative, m, e⟩

/-- The number nearest to a natural. -/
def ofNat? (negative : Bool) (n : Nat) : Option Binary64 := ofQuotient? negative n 1

/-- The magnitude of a number as a quotient of two naturals. -/
def quotient (x : Binary64) : Nat × Nat := scaled x.significand x.exponent

/-- The product of the magnitudes, rounded, with the sign of the first. -/
def mul? (x y : Binary64) : Option Binary64 :=
  let a := x.quotient
  let b := y.quotient
  ofQuotient? x.negative (a.1 * b.1) (a.2 * b.2)

/-- The quotient of the magnitudes, rounded, with the sign of the first. -/
def div? (x y : Binary64) : Option Binary64 :=
  let a := x.quotient
  let b := y.quotient
  ofQuotient? x.negative (a.1 * b.2) (a.2 * b.1)

/-- The number nearest to a power of ten. -/
def powerOfTen? (k : Nat) : Option Binary64 := ofQuotient? false (Nat.pow 10 k) 1

/-- The greatest power of ten that is itself a finite number. -/
def greatestPower : Nat := 308

/-- Divides by `y` a number of times. Zero stays zero, so the rest is skipped. -/
def divideTimes? (y : Binary64) : Nat → Binary64 → Option Binary64
  | 0, x => some x
  | n + 1, x => if x.isZero then some x else (x.div? y).bind (divideTimes? y n)

/-- Divides by `10 ^ k`, as often as needed by `10 ^ 308` and then by what is left. -/
def shrink? (x : Binary64) (k : Nat) : Option Binary64 := do
  let times := (k - 1) / greatestPower
  let big ← powerOfTen? greatestPower
  let y ← divideTimes? big times x
  let small ← powerOfTen? (k - times * greatestPower)
  y.div? small

/-- The number read for `significand * 10 ^ exponent`: the significand is rounded first,
then multiplied or divided by rounded powers of ten. -/
def ofDecimal? (negative : Bool) (significand : Nat) (exponent : Int) : Option Binary64 := do
  let x ← ofNat? negative significand
  if 0 ≤ exponent then
    if exponent.toNat ≤ greatestPower then (powerOfTen? exponent.toNat).bind x.mul?
    else if x.isZero then some x
    else none
  else x.shrink? (-exponent).toNat

/-- Equality of the values: the two zeros are equal. -/
def sameValue (x y : Binary64) : Bool :=
  (x.isZero && y.isZero) || decide (x = y)

end Binary64

end TopicWatch
