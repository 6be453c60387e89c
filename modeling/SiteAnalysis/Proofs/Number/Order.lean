import SiteAnalysis.Proofs.Number.Difference

set_option autoImplicit false

/-! # The order of doubles

Doubles that are numbers stand in one line, from minus infinity to infinity, and only the two zeros
share a place in it. Main statements:

* `Binary64.lt_iff`, `Binary64.le_iff`: to compare two numbers is to compare their places.
* `Binary64.place_le_of_totalLe`: the total order goes along the line, zeros apart.

What a search for the least number relies on is collected in `Arith.IsOrdered`, of which the doubles
are an instance.
-/

namespace SiteAnalysis

open Float.Model.UnpackedFloat

/-- **Numbers whose total order goes with their comparison.** -/
class Arith.IsOrdered (α : Type) [Arith α] : Prop where
  total : ∀ x y : α, (Arith.totalLe x y || Arith.totalLe y x) = true
  trans : ∀ x y z : α, Arith.totalLe x y = true → Arith.totalLe y z = true →
    Arith.totalLe x z = true
  of_lt : ∀ x y : α, Arith.lt x y = true → Arith.totalLe x y = true

theorem Arith.totalLe_refl {α : Type} [Arith α] [Arith.IsOrdered α] (x : α) :
    Arith.totalLe x x = true := by
  simpa using Arith.IsOrdered.total x x

namespace Binary64

/-! ## Places -/

/-- The place of infinity, counted from zero. -/
def lastPlace : Int := 2047 * 2 ^ 52

/-- **The place of a double**, counted from zero: the key of the total order with both zeros on one
place. -/
def place (x : Float) : Int := if orderKey x < 0 then orderKey x + 1 else orderKey x

theorem orderKey_eq (x : Float) : orderKey x =
    if x.toBits.toNat < 2 ^ 63 then (x.toBits.toNat : Int) else -1 - (x.toBits.toNat - 2 ^ 63 : Nat) :=
  rfl

/-- The bits behind the sign are the distance from zero. -/
theorem place_eq (x : Float) : place x =
    if x.toBits.toNat < 2 ^ 63 then (x.toBits.toNat : Int) else -(x.toBits.toNat - 2 ^ 63 : Nat) := by
  rw [place, orderKey_eq]
  split_ifs <;> omega

/-- **Numbers and their places.** On each exponent the mantissas follow one another. -/
inductive HasPlace : Float.Model.UnpackedFloat → Int → Prop
  | infinity (s : Sign) : HasPlace (.infinity s) (s.apply lastPlace)
  | zero (s : Sign) : HasPlace (.zero s) 0
  | finite (s : Sign) {m : Nat} {q : Int} (hd : IsDouble m q) :
      HasPlace (.finite s m q hd.pos) (s.apply ((q + 1074) * 2 ^ 52 + m))

variable {x y : Float}

theorem apply_signOf (negative : Bool) (n : Int) :
    (signOf negative).apply n = if negative then -n else n := by
  cases negative <;> rfl

theorem place_of_finite {negative : Bool} {m : Nat} {q : Int} (h : ofFloat x = finite negative m q) :
    place x = (signOf negative).apply ((q + 1074) * 2 ^ 52 + m) := by
  have hlt : x.toBits.toNat < 2 ^ 64 := x.toBits.toNat_lt
  rw [ofFloat_eq] at h
  rw [place_eq, apply_signOf]
  split at h
  · split at h <;> cases h
  split at h
  all_goals
    obtain ⟨hs, rfl, rfl⟩ := finite.inj h
    by_cases hpositive : x.toBits.toNat < 2 ^ 63
    · have hsign : negative = false := by
        rw [← hs, beq_eq_false_iff_ne]
        omega
      rw [if_pos hpositive, hsign, if_neg Bool.false_ne_true]
      push_cast
      omega
    · have hsign : negative = true := by
        rw [← hs, beq_iff_eq]
        omega
      rw [if_neg hpositive, hsign, if_pos rfl]
      push_cast
      omega

theorem place_of_infinite {negative : Bool} (h : ofFloat x = infinite negative) :
    place x = (signOf negative).apply lastPlace := by
  rw [eq_packed_of_infinite h]
  cases negative <;> decide +kernel

theorem hasPlace_unpack (h : ofFloat x ≠ nan) : HasPlace x.toModel.unpack (place x) := by
  cases hx : ofFloat x with
  | nan => exact absurd hx h
  | infinite negative =>
      rw [place_of_infinite hx, eq_packed_of_infinite hx]
      cases negative with
      | true => exact .infinity .negative
      | false => exact .infinity .positive
  | finite negative m q =>
      rcases Nat.eq_zero_or_pos m with rfl | hm
      · rw [eq_packed_of_zero hx]
        cases negative with
        | true => exact .zero .negative
        | false => exact .zero .positive
      · obtain ⟨hd, heq⟩ := eq_packed_of_finite hx hm
        have hunpack : x.toModel.unpack = .finite (signOf negative) m q hd.pos := by
          rw [heq]
          exact hd.unpack_pack _
        rw [place_of_finite hx, hunpack]
        exact .finite _ hd

/-! ## Comparisons -/

theorem compare_neg_neg (a b : Int) : compare (-a) (-b) = (compare a b).swap := by
  rw [Int.compare_swap]
  rcases lt_trichotomy a b with h | rfl | h
  · rw [compare_gt_iff_gt.2 h, compare_gt_iff_gt.2 (Int.neg_lt_neg h)]
  · rw [compare_eq_iff_eq.2 rfl, compare_eq_iff_eq.2 rfl]
  · rw [compare_lt_iff_lt.2 h, compare_lt_iff_lt.2 (Int.neg_lt_neg h)]

/-- Exponents are compared first, since a mantissa on a larger one has its leading bit. -/
theorem compare_then {m n : Nat} {q r : Int} (hm : IsDouble m q) (hn : IsDouble n r) :
    (compare q r).then (compare m n) =
      compare ((q + 1074) * 2 ^ 52 + m) ((r + 1074) * 2 ^ 52 + n) := by
  have hlow := hm.low
  have hlow' := hn.low
  have hlt := hm.lt
  have hlt' := hn.lt
  rcases lt_trichotomy q r with hqr | rfl | hqr
  · have hfull : 2 ^ 52 ≤ n := hn.full.resolve_right (by omega)
    have hplace : (q + 1074) * 2 ^ 52 + m < (r + 1074) * 2 ^ 52 + n := by omega
    rw [compare_lt_iff_lt.2 hqr, compare_lt_iff_lt.2 hplace]
    rfl
  · rw [compare_eq_iff_eq.2 (rfl : q = q)]
    show compare m n = _
    rcases lt_trichotomy m n with hmn | rfl | hmn
    · rw [compare_lt_iff_lt.2 hmn, compare_lt_iff_lt.2 (by omega)]
    · rw [compare_eq_iff_eq.2 (rfl : m = m), compare_eq_iff_eq.2 rfl]
    · rw [compare_gt_iff_gt.2 hmn, compare_gt_iff_gt.2 (by omega)]
  · have hfull : 2 ^ 52 ≤ m := hm.full.resolve_right (by omega)
    have hplace : (q + 1074) * 2 ^ 52 + m > (r + 1074) * 2 ^ 52 + n := by omega
    rw [compare_gt_iff_gt.2 hqr, compare_gt_iff_gt.2 hplace]
    rfl

theorem place_pos {m : Nat} {q : Int} (hd : IsDouble m q) : 0 < (q + 1074) * 2 ^ 52 + m := by
  have hpos := hd.pos
  have hlow := hd.low
  omega

/-- A finite double stands between the infinities. -/
theorem place_bounds {m : Nat} {q : Int} (hd : IsDouble m q) (s : Sign) :
    -lastPlace < s.apply ((q + 1074) * 2 ^ 52 + m) ∧
      s.apply ((q + 1074) * 2 ^ 52 + m) < lastPlace := by
  have hpos := place_pos hd
  have hlt := hd.lt
  have hhigh := hd.high
  have hlast : (q + 1074) * 2 ^ 52 + m < lastPlace := by
    unfold lastPlace
    omega
  cases s with
  | positive => exact ⟨(Int.neg_neg_of_pos (hpos.trans hlast)).trans hpos, hlast⟩
  | negative => exact ⟨Int.neg_lt_neg hlast, (Int.neg_neg_of_pos hpos).trans (hpos.trans hlast)⟩

/-- **Comparing two numbers** is comparing their places. -/
theorem HasPlace.compare_eq {u v : Float.Model.UnpackedFloat} {a b : Int} (hu : HasPlace u a)
    (hv : HasPlace v b) : u.compare v = some (compare a b) := by
  cases hu with
  | infinity s =>
      cases hv with
      | infinity t => cases s <;> cases t <;> rfl
      | zero t => cases s <;> rfl
      | finite t hd =>
          obtain ⟨hlow, hhigh⟩ := place_bounds hd t
          cases s with
          | positive => exact congrArg some (compare_gt_iff_gt.2 hhigh).symm
          | negative => exact congrArg some (compare_lt_iff_lt.2 hlow).symm
  | zero s =>
      cases hv with
      | infinity t => cases t <;> rfl
      | zero t => rfl
      | finite t hd =>
          have hpos := place_pos hd
          cases t with
          | positive => exact congrArg some (compare_lt_iff_lt.2 hpos).symm
          | negative => exact congrArg some (compare_gt_iff_gt.2 (Int.neg_neg_of_pos hpos)).symm
  | finite s hm =>
      have hpos := place_pos hm
      cases hv with
      | infinity t =>
          obtain ⟨hlow, hhigh⟩ := place_bounds hm s
          cases t with
          | positive => cases s <;> exact congrArg some (compare_lt_iff_lt.2 hhigh).symm
          | negative => cases s <;> exact congrArg some (compare_gt_iff_gt.2 hlow).symm
      | zero t =>
          cases s with
          | positive => exact congrArg some (compare_gt_iff_gt.2 hpos).symm
          | negative => exact congrArg some (compare_lt_iff_lt.2 (Int.neg_neg_of_pos hpos)).symm
      | finite t hn =>
          have hpos' := place_pos hn
          cases s with
          | positive =>
              cases t with
              | positive => exact congrArg some (compare_then hm hn)
              | negative =>
                  have hgt := (Int.neg_neg_of_pos hpos').trans hpos
                  exact congrArg some (compare_gt_iff_gt.2 hgt).symm
          | negative =>
              cases t with
              | positive =>
                  have hlow := (Int.neg_neg_of_pos hpos).trans hpos'
                  exact congrArg some (compare_lt_iff_lt.2 hlow).symm
              | negative =>
                  show some ((compare _ _).then (compare _ _)).swap = _
                  rw [compare_then hm hn, ← compare_neg_neg]
                  rfl

theorem compare_nan (u : Float.Model.UnpackedFloat) : u.compare .notANumber = none := by
  cases u <;> rfl

theorem lt_eq (x y : Float) :
    Arith.lt x y = (x.toModel.unpack.compare y.toModel.unpack == some .lt) :=
  Bool.eq_iff_iff.2 (decide_eq_true_iff.trans decide_eq_true_iff)

/-- What is no number is not less than anything, and nothing is less than it. -/
theorem ne_nan_of_lt (h : Arith.lt x y = true) : ofFloat x ≠ nan ∧ ofFloat y ≠ nan := by
  rw [lt_eq, beq_iff_eq] at h
  constructor
  · intro hx
    rw [eq_packed_of_nan hx] at h
    cases h
  · intro hy
    have hunpack : y.toModel.unpack = .notANumber := by
      rw [eq_packed_of_nan hy]
      rfl
    rw [hunpack, compare_nan] at h
    cases h

theorem lt_iff (hx : ofFloat x ≠ nan) (hy : ofFloat y ≠ nan) :
    Arith.lt x y = true ↔ place x < place y := by
  rw [lt_eq, (hasPlace_unpack hx).compare_eq (hasPlace_unpack hy), beq_iff_eq, Option.some.injEq,
    compare_lt_iff_lt]

theorem le_iff (hx : ofFloat x ≠ nan) (hy : ofFloat y ≠ nan) : x ≤ y ↔ place x ≤ place y := by
  have hle : x ≤ y ↔ x.toModel.unpack.le y.toModel.unpack = true := decide_eq_true_iff
  rw [hle, Float.Model.UnpackedFloat.le,
    (hasPlace_unpack hx).compare_eq (hasPlace_unpack hy)]
  show (compare (place x) (place y)).isLE = true ↔ _
  rw [Int.isLE_compare]

/-! ## The total order -/

theorem totalLe_iff : Arith.totalLe x y = true ↔ orderKey x ≤ orderKey y := decide_eq_true_iff

theorem place_le_of_totalLe (h : Arith.totalLe x y = true) : place x ≤ place y := by
  rw [totalLe_iff] at h
  unfold place
  split_ifs <;> omega

theorem totalLe_of_place_lt (h : place x < place y) : Arith.totalLe x y = true := by
  rw [totalLe_iff]
  unfold place at h
  split_ifs at h <;> omega

instance : Arith.IsOrdered Float where
  total x y := by
    rw [Bool.or_eq_true, totalLe_iff, totalLe_iff]
    exact le_total _ _
  trans x y z hxy hyz := by
    rw [totalLe_iff] at *
    exact hxy.trans hyz
  of_lt x y h := by
    obtain ⟨hx, hy⟩ := ne_nan_of_lt h
    exact totalLe_of_place_lt ((lt_iff hx hy).1 h)

/-! ## Finite doubles -/

theorem isFinite_nan : (packed .notANumber).isFinite = false := by decide +kernel

/-- **A number is finite** if it stands between the infinities. -/
theorem isFinite_iff (h : ofFloat x ≠ nan) :
    x.isFinite = true ↔ -lastPlace < place x ∧ place x < lastPlace := by
  have hplace := hasPlace_unpack h
  show x.toModel.unpack.isFinite = true ↔ _
  generalize x.toModel.unpack = u at hplace
  generalize place x = p at hplace
  cases hplace with
  | infinity s =>
      refine iff_of_false Bool.false_ne_true ?_
      cases s with
      | positive => exact fun h => lt_irrefl _ h.2
      | negative => exact fun h => lt_irrefl _ h.1
  | zero s => exact iff_of_true rfl (by decide)
  | finite s hd => exact iff_of_true rfl (place_bounds hd s)

theorem ne_nan_of_isFinite (h : x.isFinite = true) : ofFloat x ≠ nan := by
  intro hx
  rw [eq_packed_of_nan hx, isFinite_nan] at h
  cases h

end Binary64

end SiteAnalysis
