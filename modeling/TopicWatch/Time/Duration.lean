/-!
# Lengths and points of time

Both are naturals: a length of time counts nanoseconds, a point of time the nanoseconds
since the clock began. A length is shown in the largest unit of which it has at least one,
with as many places as it needs.
-/

namespace TopicWatch.Duration

/-- The nanoseconds of a microsecond. -/
def microsecond : Nat := 1000

/-- The nanoseconds of a millisecond. -/
def millisecond : Nat := 1000000

/-- The nanoseconds of a second. -/
def second : Nat := 1000000000

/-- The digits of a fraction with the given number of places, without zeros at the end. -/
def places (width n : Nat) : List Char :=
  let digits := Nat.toDigits 10 n
  let all := List.replicate (width - digits.length) '0' ++ digits
  (all.reverse.dropWhile (· == '0')).reverse

/-- A number of units of which each has `10 ^ width` nanoseconds. -/
def inUnit (width : Nat) (unit : String) (d : Nat) : String :=
  let fraction := places width (d % Nat.pow 10 width)
  let point := if fraction.isEmpty then [] else ['.']
  String.ofList (Nat.toDigits 10 (d / Nat.pow 10 width) ++ point ++ fraction) ++ unit

/-- A length of time for display. -/
def display (d : Nat) : String :=
  if second ≤ d then inUnit 9 "s" d
  else if millisecond ≤ d then inUnit 6 "ms" d
  else if microsecond ≤ d then inUnit 3 "µs" d
  else inUnit 0 "ns" d

end TopicWatch.Duration
