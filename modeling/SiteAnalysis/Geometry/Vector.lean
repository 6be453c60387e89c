import SiteAnalysis.Number.Arith

/-! # Vectors of three components -/

namespace SiteAnalysis

/-- **Vectors.** -/
structure Vec3 (α : Type) where
  x : α
  y : α
  z : α

namespace Vec3

variable {α : Type} [Arith α]

instance : Add (Vec3 α) := ⟨fun a b => ⟨a.x + b.x, a.y + b.y, a.z + b.z⟩⟩
instance : Sub (Vec3 α) := ⟨fun a b => ⟨a.x - b.x, a.y - b.y, a.z - b.z⟩⟩
instance : Neg (Vec3 α) := ⟨fun a => ⟨-a.x, -a.y, -a.z⟩⟩
instance : HMul (Vec3 α) α (Vec3 α) := ⟨fun a k => ⟨a.x * k, a.y * k, a.z * k⟩⟩
instance : HDiv (Vec3 α) α (Vec3 α) := ⟨fun a k => ⟨a.x / k, a.y / k, a.z / k⟩⟩

/-- The origin. -/
def zero : Vec3 α := ⟨0.0, 0.0, 0.0⟩

/-- The vector whose components are all the same. -/
def constant (k : α) : Vec3 α := ⟨k, k, k⟩

/-- The components in order. -/
def toList (a : Vec3 α) : List α := [a.x, a.y, a.z]

/-- A component; every index above one means the last. -/
def get (a : Vec3 α) : Nat → α
  | 0 => a.x
  | 1 => a.y
  | _ => a.z

/-- Scalar product. -/
def dot (a b : Vec3 α) : α := a.x * b.x + a.y * b.y + a.z * b.z

/-- Vector product. -/
def cross (a b : Vec3 α) : Vec3 α :=
  ⟨a.y * b.z - a.z * b.y, a.z * b.x - a.x * b.z, a.x * b.y - a.y * b.x⟩

/-- Length of a vector. -/
def magnitude (a : Vec3 α) : α := Arith.sqrt (a.dot a)

/-- The vector with a function applied to each component. -/
def map (f : α → α) (a : Vec3 α) : Vec3 α := ⟨f a.x, f a.y, f a.z⟩

/-- Equality of all components. -/
def same (a b : Vec3 α) : Bool := Arith.same a.x b.x && Arith.same a.y b.y && Arith.same a.z b.z

end Vec3

end SiteAnalysis
