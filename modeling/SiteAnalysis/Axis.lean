import SiteAnalysis.Number.Arith

/-! # Axes of histograms

An axis is a range of numbers cut into bins of equal width.
-/

namespace SiteAnalysis

/-- **An axis** `[minimum, maximum)`. -/
structure Axis (α : Type) where
  minimum : α
  maximum : α
  width : α
  /-- The number of bins. -/
  count : Nat

namespace Axis

variable {α : Type} [Arith α]

/-- How many bins of a width fit into a range.  A count that misses a whole number by rounding
only is taken as that number. -/
def binCount (minimum maximum width : α) : Nat :=
  let span := maximum - minimum
  if Arith.lt 0.0 width && Arith.lt 0.0 span then
    Arith.toIndex (Arith.max (Arith.floor (span / width + 1.0e-9)) 1.0)
  else 1

/-- **The axis over a range.**  Its maximum is moved to the end of the last bin. -/
def ofRange (minimum maximum width : α) : Axis α :=
  let count := binCount minimum maximum width
  ⟨minimum, minimum + Arith.ofNat count * width, width, count⟩

/-- **The bin of a value**; none when the value is off the axis. -/
def binOf (a : Axis α) (value : α) : Option Nat :=
  if !Arith.isFinite value || Arith.lt value a.minimum || Arith.le a.maximum value then none
  else some (min (Arith.toIndex ((value - a.minimum) / a.width)) (a.count - 1))

/-- The middle of a bin. -/
def centre (a : Axis α) (i : Nat) : α := a.minimum + (Arith.ofNat i + 0.5) * a.width

/-- The middles of all bins. -/
def centres (a : Axis α) : List α := (List.range a.count).map a.centre

/-- Equality of range, width and count. -/
def same (a b : Axis α) : Bool :=
  Arith.same a.minimum b.minimum && Arith.same a.maximum b.maximum &&
    Arith.same a.width b.width && a.count == b.count

end Axis

end SiteAnalysis
