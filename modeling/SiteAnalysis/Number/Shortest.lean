import SiteAnalysis.Number.Binary64

/-! # Decimal digits of a double

Two ways to choose decimal digits for `m · 2 ^ q`, both in exact integer arithmetic:

* `shortest`: the fewest digits that read back as the same double, and of those the nearest, where
  a `Tie` says which of two equally near ones is taken;
* `rounded`: a fixed number of digits, correctly rounded, a tie going to the even digit.
-/

namespace SiteAnalysis

/-- **Decimal number** `digits · 10 ^ exponent`. -/
structure Decimal where
  digits : Nat
  exponent : Int
  deriving DecidableEq, Repr

namespace Decimal

/-- The fraction `m · 2 ^ q / 10 ^ p` as numerator and denominator. -/
def ratio (m : Nat) (q p : Int) : Nat × Nat :=
  (m * Nat.pow 2 q.toNat * Nat.pow 10 (-p).toNat, Nat.pow 2 (-q).toNat * Nat.pow 10 p.toNat)

/-- Whether `10 ^ p ≤ m · 2 ^ q`. -/
def powerLe (m : Nat) (q p : Int) : Bool :=
  let (num, den) := ratio m q p
  den ≤ num

/-- The exponent `k` with `10 ^ k ≤ m · 2 ^ q < 10 ^ (k + 1)`, for `m` not zero.  The binary
logarithm times `0.30103` is off by at most one. -/
def magnitude (m : Nat) (q : Int) : Int :=
  let guess := ((m.log2 : Int) + q) * 30103 / 100000
  if powerLe m q (guess + 1) then guess + 1
  else if powerLe m q guess then guess
  else guess - 1

/-- The interval of reals that round to a double, in units of a quarter of its last place. -/
structure Rounding where
  /-- The double itself is `4 · mantissa` units. -/
  mantissa : Nat
  /-- Units below the double. -/
  below : Nat
  /-- Whether the ends of the interval round to the double as well. -/
  closed : Bool

/-- Whether `c · den` lies in the interval whose unit is `unit`. -/
def Rounding.contains (r : Rounding) (unit c den : Nat) : Bool :=
  let low := (4 * r.mantissa - r.below) * unit
  let high := (4 * r.mantissa + 2) * unit
  if r.closed then low ≤ c * den && c * den ≤ high else low < c * den && c * den < high

/-- Which of two equally near decimal numbers is taken. -/
inductive Tie where
  /-- The larger one. -/
  | up
  /-- The one whose last digit is even. -/
  | even
  deriving DecidableEq, Repr

/-- Whether the lower one of two neighbours `lower` and `lower + 1` is taken, given the distances
to both. -/
def Tie.takesLower (tie : Tie) (lower toLower toUpper : Nat) : Bool :=
  toLower < toUpper || (toLower == toUpper && tie == even && lower % 2 == 0)

/-- The neighbour of the double on the grid `10 ^ p` that reads back, if there is one.  Of two
the nearer is taken. -/
def Rounding.onGrid (r : Rounding) (tie : Tie) (q p : Int) : Option Nat :=
  let (unit, den) := ratio 1 (q - 2) p
  let num := 4 * r.mantissa * unit
  let lower := num / den
  let upper := lower + 1
  if r.contains unit upper den then
    if r.contains unit lower den && tie.takesLower lower (num - lower * den) (upper * den - num)
    then some lower
    else some upper
  else if r.contains unit lower den then some lower
  else none

/-- Tries grids of more and more digits, starting at the grid `10 ^ p`. -/
def Rounding.search (r : Rounding) (tie : Tie) (q : Int) : Nat → Int → Decimal
  | 0, p => ⟨4 * r.mantissa * (ratio 1 (q - 2) p).1 / (ratio 1 (q - 2) p).2, p⟩
  | n + 1, p =>
    match r.onGrid tie q p with
    | some d => ⟨d, p⟩
    | none => r.search tie q n (p - 1)

/-- The reals that round to `m · 2 ^ q`.  Below a power of two the doubles lie twice as dense. -/
def rounding (m : Nat) (q : Int) : Rounding :=
  { mantissa := m
    below := if m = Binary64.hiddenBit ∧ q > -1074 then 1 else 2
    closed := m % 2 = 0 }

/-- **Shortest digits** that read back as `m · 2 ^ q`, for `m` not zero.  Seventeen digits always
suffice. -/
def shortest (tie : Tie) (m : Nat) (q : Int) : Decimal :=
  (rounding m q).search tie q 17 (magnitude m q)

/-- `num / den` rounded to the nearest natural number, a tie to the even one. -/
def roundDiv (num den : Nat) : Nat :=
  let d := num / den
  let r := num % den
  if 2 * r < den then d else if 2 * r > den then d + 1 else d + d % 2

/-- `m · 2 ^ q` rounded to one digit and `places` more, for `m` not zero. -/
def rounded (m : Nat) (q : Int) (places : Nat) : Decimal :=
  let p := magnitude m q - places
  let (num, den) := ratio m q p
  ⟨roundDiv num den, p⟩

end Decimal

end SiteAnalysis
