/-! # Doubles as exact numbers

A finite double is `± mantissa · 2 ^ exponent` for a natural number and an integer.  This
module decodes a double into that form.  Everything that has to be exact (printing,
remainders, ordering) is computed on the decoded form with natural and integer arithmetic.
-/

namespace SiteAnalysis

/-- **Decoded double.**  `finite s m q` stands for `± m · 2 ^ q`, negative when `s` holds. -/
inductive Binary64 where
  | nan
  | infinite (negative : Bool)
  | finite (negative : Bool) (mantissa : Nat) (exponent : Int)
  deriving DecidableEq, Repr

namespace Binary64

/-- The bit in front of the fraction of a double, `2 ^ 52`.  It is not stored. -/
def hiddenBit : Nat := 0x10000000000000

/-- Decodes the three fields of the binary interchange format. -/
def ofFloat (x : Float) : Binary64 :=
  let bits := x.toBits.toNat
  let negative := bits / 0x8000000000000000 == 1
  let exponent : Nat := bits / hiddenBit % 2048
  let fraction : Nat := bits % hiddenBit
  if exponent = 2047 then
    if fraction = 0 then infinite negative else nan
  else if exponent = 0 then
    finite negative fraction (-1074)
  else
    finite negative (fraction + hiddenBit) ((exponent : Int) - 1075)

/-- The double `± m · 2 ^ q`, for an `m` below `2 ^ 53` whose product is representable. -/
def assemble (negative : Bool) (m : Nat) (q : Int) : Float :=
  let magnitude := (Float.ofNat m).scaleB q
  if negative then -magnitude else magnitude

/-- **Remainder of a truncating division**, exact, with the sign of the dividend.  It is
computed on the common grid of both operands, where it is a remainder of natural numbers. -/
def remainder (x y : Float) : Float :=
  match ofFloat x, ofFloat y with
  | finite s m q, finite _ n r =>
    if n = 0 then 0.0 / 0.0
    else
      let grid := min q r
      assemble s ((m * Nat.pow 2 (q - grid).toNat) % (n * Nat.pow 2 (r - grid).toNat)) grid
  | finite .., infinite _ => x
  | _, _ => 0.0 / 0.0

/-- **The greatest whole number that is not above a double.**  The part of the mantissa behind the
point is cut off, and a negative number that has such a part goes one further down. -/
def floor (x : Float) : Float :=
  match ofFloat x with
  | finite negative m q =>
    if 0 ≤ q then x
    else
      let unit := Nat.pow 2 (-q).toNat
      if negative then -Float.ofNat ((m + unit - 1) / unit) else Float.ofNat (m / unit)
  | _ => x

/-- **A double without its fraction**, as an integer of 64 bits.  What is too large for one gives the
integer nearest to it, and what is no number gives zero. -/
def truncate (x : Float) : Int :=
  if x < 0.0 then max (-((-x).toUInt64.toNat : Int)) (-0x8000000000000000)
  else min (x.toUInt64.toNat : Int) 0x7FFFFFFFFFFFFFFF

/-- Key of the total order on doubles: negative values come in reverse, `-0.0` is
below `0.0`, and a NaN is above every number. -/
def orderKey (x : Float) : Int :=
  let bits := x.toBits.toNat
  if bits < 0x8000000000000000 then bits
  else -1 - ((bits - 0x8000000000000000 : Nat) : Int)

end Binary64

end SiteAnalysis
