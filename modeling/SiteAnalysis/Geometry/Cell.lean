import SiteAnalysis.Error
import SiteAnalysis.Geometry.Vector

/-! # Cells

A cell is spanned by three axes, given by their lengths and by the angles between them in
degrees.  In a periodic cell, points that differ by whole axes are images of each other, and
vectors between points lead to the nearest image.
-/

namespace SiteAnalysis

/-- **A cell.** -/
structure Cell (α : Type) where
  lengths : Vec3 α
  /-- Angles between the axes, in degrees. -/
  angles : Vec3 α
  axisA : Vec3 α
  axisB : Vec3 α
  axisC : Vec3 α
  /-- Rows of the matrix that takes vectors to multiples of the axes. -/
  inverseA : Vec3 α
  inverseB : Vec3 α
  inverseC : Vec3 α
  volume : α
  periodic : Bool

/-- Which of its measures keep a cell from being built. -/
inductive CellFault where
  | lengths | angles
  deriving DecidableEq, Repr

namespace Cell

variable {α : Type} [Arith α]

/-- Whether a length can be the length of an axis. -/
def isLength (l : α) : Bool := Arith.isFinite l && Arith.lt 0.0 l

/-- **Builds a cell.**  The lengths have to be positive and the angles those of a cell that is not
flat.  The first axis points along `x` and the second lies in the plane of `x` and `y`. -/
def ofMeasures (lengths angles : Vec3 α) (periodic : Bool) : Except CellFault (Cell α) :=
  if !(lengths.toList.all isLength) then .error .lengths
  else
    let alpha := Arith.toRadians angles.x
    let beta := Arith.toRadians angles.y
    let gamma := Arith.toRadians angles.z
    let a : Vec3 α := ⟨lengths.x, 0.0, 0.0⟩
    let b : Vec3 α := ⟨lengths.y * Arith.cos gamma, lengths.y * Arith.sin gamma, 0.0⟩
    let cx := Arith.cos beta
    let cy := (Arith.cos alpha - Arith.cos beta * Arith.cos gamma) / Arith.sin gamma
    let czz := 1.0 - cx * cx - cy * cy
    if !(Arith.isFinite czz && Arith.lt 1.0e-12 czz) ||
        Arith.lt (Arith.abs (Arith.sin gamma)) 1.0e-12 then .error .angles
    else
      let c : Vec3 α := (⟨cx, cy, Arith.sqrt czz⟩ : Vec3 α) * lengths.z
      let volume := a.dot (b.cross c)
      .ok {
        lengths, angles
        axisA := a
        axisB := b
        axisC := c
        inverseA := b.cross c / volume
        inverseB := c.cross a / volume
        inverseC := a.cross b / volume
        volume, periodic }

/-- Angles of a cell whose axes stand upright on each other. -/
def rightAngles : Vec3 α := .constant 90.0

/-- The multiples of the axes that make up a vector. -/
def toFractional (c : Cell α) (r : Vec3 α) : Vec3 α :=
  ⟨c.inverseA.dot r, c.inverseB.dot r, c.inverseC.dot r⟩

/-- The vector made up of multiples of the axes. -/
def toReal (c : Cell α) (f : Vec3 α) : Vec3 α := c.axisA * f.x + c.axisB * f.y + c.axisC * f.z

/-- **The vector from one point to the nearest image of another.** -/
def minimumVector (c : Cell α) (r₁ r₂ : Vec3 α) : Vec3 α :=
  let delta := r₂ - r₁
  if !c.periodic then delta
  else
    let f := c.toFractional delta
    c.toReal (f - f.map Arith.round)

/-- The distance of one point from the nearest image of another. -/
def minimumDistance (c : Cell α) (r₁ r₂ : Vec3 α) : α := (c.minimumVector r₁ r₂).magnitude

/-- **The angle at `j` between `i` and `k`**, in degrees; zero when `j` coincides with one of
them. -/
def angle (c : Cell α) (i j k : Vec3 α) : α :=
  let v := c.minimumVector j i
  let w := c.minimumVector j k
  let denominator := v.magnitude * w.magnitude
  if Arith.same denominator 0.0 then 0.0
  else Arith.toDegrees (Arith.acos (Arith.clamp (-1.0) 1.0 (v.dot w / denominator)))

/-- Equality of all measures and axes. -/
def same (c d : Cell α) : Bool :=
  c.lengths.same d.lengths && c.angles.same d.angles && c.axisA.same d.axisA &&
    c.axisB.same d.axisB && c.axisC.same d.axisC && c.inverseA.same d.inverseA &&
    c.inverseB.same d.inverseB && c.inverseC.same d.inverseC && Arith.same c.volume d.volume &&
    c.periodic == d.periodic

end Cell

/-- The keyword a cell fault belongs to. -/
def CellFault.keyword : CellFault → String
  | lengths => "Lengths"
  | angles => "Angles"

/-- What is wrong with the measures of a cell. -/
def CellFault.valueFault (lengths angles : Vec3 Float) : CellFault → ValueFault
  | .lengths => .nonPositiveLengths lengths.x lengths.y lengths.z
  | .angles => .flatCell angles.x angles.y angles.z

/-- **Builds a cell from doubles**; a failure names the keyword at fault. -/
def Cell.build (lengths angles : Vec3 Float) (periodic : Bool) : Except Error (Cell Float) :=
  match Cell.ofMeasures lengths angles periodic with
  | .ok cell => .ok cell
  | .error fault =>
    .error (.invalidValue "Box" fault.keyword (fault.valueFault lengths angles))

end SiteAnalysis
