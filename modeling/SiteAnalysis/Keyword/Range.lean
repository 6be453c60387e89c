/-! # Ranges

The range of an axis with the width of its bins.
-/

namespace SiteAnalysis

/-- Whether a range is not empty and its bins have a width. -/
def isRange (minimum maximum width : Float) : Bool := 0.0 < width && minimum < maximum

/-- **A range** that is not empty, cut into bins. -/
structure RangeSpec where
  minimum : Float
  maximum : Float
  width : Float
  proper : isRange minimum maximum width = true

namespace RangeSpec

/-- The range of the given measures, if they make one. -/
def ofMeasures? (minimum maximum width : Float) : Option RangeSpec :=
  if h : isRange minimum maximum width = true then some ⟨minimum, maximum, width, h⟩ else none

/-- The range that is taken where none is given. -/
def standard : RangeSpec := ⟨0.0, 10.0, 0.05, by decide⟩

end RangeSpec

end SiteAnalysis
