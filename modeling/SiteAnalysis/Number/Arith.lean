import SiteAnalysis.Number.Binary64

/-! # Arithmetic of the numerical kernels

Vectors, cells, axes, histograms and minimisers are written for any type of numbers that offers
the operations of `Arith`.  Programs run on `Float`; the same definitions can be read over exact
numbers.
-/

namespace SiteAnalysis

/-- **Numbers of a kernel.**  Comparisons are tests, since a double may be no number at all. -/
class Arith (α : Type) extends Add α, Sub α, Mul α, Div α, Neg α, OfScientific α where
  /-- A count as a number. -/
  ofNat : Nat → α
  lt : α → α → Bool
  le : α → α → Bool
  /-- Equality as the numbers themselves see it. -/
  same : α → α → Bool
  /-- A total order, also of what is no number. -/
  totalLe : α → α → Bool
  isFinite : α → Bool
  /-- Truncation to an index; negative numbers give zero. -/
  toIndex : α → Nat
  abs : α → α
  /-- The greatest whole number that is not above. -/
  floor : α → α
  /-- The nearest whole number, halves going away from zero. -/
  round : α → α
  sqrt : α → α
  sin : α → α
  cos : α → α
  acos : α → α
  pi : α

/-- Doubles.  An index saturates at the largest word of 64 bits. -/
instance : Arith Float where
  ofNat := Float.ofNat
  lt x y := x < y
  le x y := x ≤ y
  same x y := x == y
  totalLe x y := Binary64.orderKey x ≤ Binary64.orderKey y
  isFinite := Float.isFinite
  toIndex x := x.toUInt64.toNat
  abs := Float.abs
  floor := Binary64.floor
  round := Float.round
  sqrt := Float.sqrt
  sin := Float.sin
  cos := Float.cos
  acos := Float.acos
  pi := 3.141592653589793

namespace Arith

variable {α : Type} [Arith α]

/-- The larger of two numbers; what is no number is passed over. -/
def max (x y : α) : α := if le y x then x else if le y y then y else x

/-- The number moved into the interval between two others. -/
def clamp (low high x : α) : α := if lt x low then low else if lt high x then high else x

/-- An angle given in degrees. -/
def toRadians (x : α) : α := x * (pi / 180.0)

/-- An angle given in radians. -/
def toDegrees (x : α) : α := x * (180.0 / pi)

/-- The sum of numbers in order.  It starts at negative zero, which is neutral for doubles. -/
def sum (xs : List α) : α := xs.foldl (· + ·) (-0.0)

/-- Repeated squaring: `r · x ^ n`. -/
def powerLoop (r x : α) (n : Nat) : α :=
  let r := if n % 2 = 1 then r * x else r
  if n / 2 = 0 then r else powerLoop r (x * x) (n / 2)
  termination_by n
  decreasing_by omega

/-- The exponent as a word of 32 bits. -/
def wrapExponent (n : Int) : Int := Int.bmod n 0x100000000

/-- **Power with an integer exponent.**  The exponent is taken as a word of 32 bits; for a negative
one the reciprocal of the power is given. -/
def powInt (x : α) (n : Int) : α :=
  let n := wrapExponent n
  let p := powerLoop 1.0 x n.natAbs
  if n < 0 then 1.0 / p else p

end Arith

end SiteAnalysis
