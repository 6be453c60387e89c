import SiteAnalysis.Number.Arith
import SiteAnalysis.Number.Layout

/-! # Values on a grid

Values at all combinations of the coordinates of some axes, the last axis running fastest.
-/

namespace SiteAnalysis

/-- **Values on a grid.** -/
structure Grid (α : Type) where
  /-- Coordinates of each axis. -/
  axes : List (List α)
  values : Array α
  tag : String

/-- Splits a number into digits; `lengths` gives how many values each digit takes, the last digit
running fastest.  The second part is what is left over. -/
def splitIndex : List Nat → Nat → List Nat × Nat
  | [], flat => ([], flat)
  | n :: rest, flat =>
    let (digits, left) := splitIndex rest flat
    (left % max n 1 :: digits, left / max n 1)

namespace Grid

variable {α : Type} [Arith α]

/-- The number of points of a grid. -/
def sizeOf (axes : List (List α)) : Nat := axes.foldl (fun n axis => n * axis.length) 1

/-- A grid of zeros. -/
def zeros (axes : List (List α)) : Grid α := ⟨axes, .replicate (sizeOf axes) 0.0, ""⟩

/-- A grid without points. -/
def empty (dimensions : Nat) : Grid α := ⟨List.replicate dimensions [], #[], ""⟩

/-- A grid with given values, of which there have to be as many as points. -/
def ofValues? (axes : List (List α)) (values : Array α) : Option (Grid α) :=
  if sizeOf axes = values.size then some ⟨axes, values, ""⟩ else none

/-- **The index on each axis** of a value. -/
def indices (g : Grid α) (flat : Nat) : List Nat := (splitIndex (g.axes.map List.length) flat).1

/-- The coordinates of a value; zero where an axis has no coordinate. -/
def coordinates (g : Grid α) (flat : Nat) : List α :=
  List.zipWith (fun axis i => axis.getD i 0.0) g.axes (g.indices flat)

/-- All values times a factor. -/
def scale (g : Grid α) (factor : α) : Grid α := { g with values := g.values.map (· * factor) }

/-- All values divided by a number. -/
def divide (g : Grid α) (divisor : α) : Grid α := { g with values := g.values.map (· / divisor) }

/-- The sum of the values. -/
def sum (g : Grid α) : α := Arith.sum g.values.toList

/-- A grid of one axis with one more point. -/
def addPoint (g : Grid α) (x value : α) : Grid α :=
  match g.axes with
  | [axis] => { g with axes := [axis ++ [x]], values := g.values.push value }
  | _ => g

/-- The coordinates of the first axis. -/
def firstAxis (g : Grid α) : List α := g.axes.headD []

/-- **A grid as columns**: the lines of the header as comments, then for every value a line with its
coordinates and the value itself. -/
def columns (g : Grid Float) (header : List String) : String :=
  let heading := header.map fun line => "# " ++ line ++ "\n"
  let rows := (List.range g.values.size).map fun flat =>
    String.join ((g.coordinates flat).map fun x => columnText x ++ "  ") ++
      columnText (g.values.getD flat 0.0) ++ "\n"
  String.join (heading ++ rows)

end Grid

end SiteAnalysis
