import SiteAnalysis.Proofs.Number.Digits
import SiteAnalysis.Proofs.Number.Finite
import SiteAnalysis.Proofs.Number.Nearest
import SiteAnalysis.Proofs.Number.WordReal

set_option autoImplicit false

/-! # Whole parts of doubles

A double is cut to an index by dropping what lies behind its point, and by taking the largest word
for all that is larger. Main statements:

* `Binary64.toIndex_eq_wholePart`: an index is the whole part of a double unless that is no word.
* `Binary64.wholePart_floor`, `Binary64.wholePart_max_one`: rounding down keeps the whole part, and
  of two numbers the larger one has the larger whole part.
-/

namespace SiteAnalysis

open Float.Model.UnpackedFloat

namespace Binary64

/-- **The whole part of a double**: how many whole numbers from one on are not above it. All of them
are below infinity, and none is for what is no number. -/
def wholePart (x : Float) : ℕ∞ :=
  match ofFloat x with
  | finite false m q => (⌊(m : ℚ) * 2 ^ q⌋₊ : ℕ)
  | infinite false => ⊤
  | _ => 0

theorem wholePart_of_finite {x : Float} {m : Nat} {q : Int} (h : ofFloat x = finite false m q) :
    wholePart x = (⌊(m : ℚ) * 2 ^ q⌋₊ : ℕ) := by
  rw [wholePart, h]

theorem wholePart_of_negative {x : Float} {m : Nat} {q : Int} (h : ofFloat x = finite true m q) :
    wholePart x = 0 := by
  rw [wholePart, h]

/-- A power of two moves the point of a mantissa. -/
theorem floor_mantissa (m : Nat) (q : Int) :
    ⌊(m : ℚ) * 2 ^ q⌋₊ = m * 2 ^ q.toNat / 2 ^ (-q).toNat := by
  have hcast : (m : ℚ) * 2 ^ q =
      ((m * 2 ^ q.toNat : ℕ) : ℚ) / ((2 ^ (-q).toNat : ℕ) : ℚ) := by
    rw [Decimal.zpow_eq_div (by norm_num) q]
    push_cast
    ring
  rw [hcast, Nat.floor_div_eq_div]

/-! ## Decoding undoes packing -/

section

variable {m : Nat} {q : Int}

theorem signOf_inj {a b : Bool} (h : signOf a = signOf b) : a = b := by
  cases a <;> cases b <;> first | rfl | cases h

/-- **What is decoded from a packed double.** -/
theorem ofFloat_packed (hd : IsDouble m q) (negative : Bool) :
    ofFloat (packed (.finite (signOf negative) m q hd.pos)) = finite negative m q := by
  have hunpack : (packed (.finite (signOf negative) m q hd.pos)).toModel.unpack =
      .finite (signOf negative) m q hd.pos := hd.unpack_pack _
  -- Each other way to decode the double would give something else when it is unpacked.
  cases h : ofFloat (packed (.finite (signOf negative) m q hd.pos)) with
  | nan =>
      rw [eq_packed_of_nan h] at hunpack
      cases hunpack
  | infinite s =>
      rw [eq_packed_of_infinite h] at hunpack
      cases s <;> cases hunpack
  | finite s n r =>
      rcases Nat.eq_zero_or_pos n with rfl | hn
      · rw [eq_packed_of_zero h] at hunpack
        cases s <;> cases hunpack
      · obtain ⟨hd', heq⟩ := eq_packed_of_finite h hn
        rw [heq] at hunpack
        have hsame := (hd'.unpack_pack (signOf s)).symm.trans hunpack
        obtain ⟨hs, rfl, rfl⟩ := Float.Model.UnpackedFloat.finite.inj hsame
        rw [signOf_inj hs]

end

/-! ## Indices -/

theorem roundToInt_positive (m : Nat) (q : Int) :
    roundToInt .positive m q = ⌊(m : ℚ) * 2 ^ q⌋₊ := by
  have hup : (q - 0).toNat = q.toNat := by rw [sub_zero]
  have hdown : (0 - (q - (q - 0).toNat)).toNat = (-q).toNat := by omega
  show (((ExtendedMantissa.ofMantissaAndAccuracy (m <<< (q - 0).toNat) .exact >>>
    (0 - (q - (q - 0).toNat)).toNat).mantissa : Nat) : Int) = _
  rw [hdown, hup, mantissa_shiftRight, floor_mantissa, Nat.shiftLeft_eq]
  rfl

/-- **An index** is the whole part of a double, or the largest word if that is no word. -/
theorem toIndex_eq_wholePart (x : Float) :
    ((Arith.toIndex x : ℕ) : ℕ∞) = min (wholePart x) maxIndex := by
  -- Words are cut at the greatest one.
  have hclamp : ∀ n : Nat, (UInt64.ofNatClamp n).toNat = min n maxIndex := by
    intro n
    unfold UInt64.ofNatClamp
    split
    next hlt =>
      rw [UInt64.toNat_ofNatLT]
      have hlt' : n < 18446744073709551616 := hlt
      have hmax : maxIndex = 18446744073709551615 := rfl
      omega
    next hge =>
      have hge' : ¬ n < 18446744073709551616 := hge
      have hmax : maxIndex = 18446744073709551615 := rfl
      show 18446744073709551615 = _
      omega
  cases h : ofFloat x with
  | nan =>
      have hindex : Arith.toIndex x = 0 := by
        rw [eq_packed_of_nan h]
        decide +kernel
      simp [wholePart, h, hindex]
  | infinite negative =>
      cases negative with
      | true =>
          have hindex : Arith.toIndex x = 0 := by
            rw [eq_packed_of_infinite h]
            decide +kernel
          simp [wholePart, h, hindex]
      | false =>
          have hindex : Arith.toIndex x = maxIndex := by
            rw [eq_packed_of_infinite h]
            decide +kernel
          simp [wholePart, h, hindex]
  | finite negative m q =>
      rcases Nat.eq_zero_or_pos m with rfl | hm
      · have hindex : Arith.toIndex x = 0 := by
          rw [eq_packed_of_zero h]
          cases negative <;> decide +kernel
        cases negative <;> simp [wholePart, h, hindex]
      · obtain ⟨hd, rfl⟩ := eq_packed_of_finite h hm
        have hindex : Arith.toIndex (packed (.finite (signOf negative) m q hd.pos)) =
            min (roundToInt (signOf negative) m q).toNat maxIndex := by
          show (Float.Model.pack (.finite (signOf negative) m q hd.pos)).unpack.toUInt64.toNat = _
          rw [hd.unpack_pack]
          exact hclamp _
        cases negative with
        | true =>
            have hzero : (roundToInt (signOf true) m q).toNat = 0 := Int.toNat_of_nonpos ?_
            · simp [wholePart, h, hindex, hzero]
            · show -((_ : Nat) : Int) ≤ 0
              omega
        | false =>
            have hwhole : (roundToInt (signOf false) m q).toNat = ⌊(m : ℚ) * 2 ^ q⌋₊ := by
              rw [signOf, if_neg (by decide), roundToInt_positive, Int.toNat_natCast]
            rw [wholePart, h, hindex, hwhole]
            exact Nat.mono_cast.map_min

/-! ## Whole numbers -/

theorem wholePart_packed {m : Nat} {q : Int} (hd : IsDouble m q) :
    wholePart (packed (.finite .positive m q hd.pos)) = (⌊(m : ℚ) * 2 ^ q⌋₊ : ℕ) := by
  exact wholePart_of_finite (ofFloat_packed hd false)

/-- A whole number that is the value of a double is packed as that double. -/
theorem ofNat_eq_packed_of_value {n m : Nat} {q : Int} (hd : IsDouble m q) (hpos : 0 < n)
    (hlt : n < 2 ^ 64) (hvalue : (m : ℚ) * 2 ^ q = n) :
    Float.ofNat n = packed (.finite .positive m q hd.pos) := by
  have hrounds : RoundsTo m q (n * 10 ^ (0 : Int)) := by
    rw [zpow_zero, mul_one, ← hvalue]
    exact roundsTo_self m q
  have hdigits := length_toDigits_le_log2 n
  have hlog : n.log2 < 64 := (Nat.log2_lt hpos.ne').2 hlt
  exact float_ofScientific_eq hd hpos (by omega) (by omega) hrounds

/-- A whole number of as many bits as a mantissa has is packed as it is. -/
theorem ofNat_eq_packed {n : Nat} (hpos : 0 < n) (hlt : n < 2 ^ 53) :
    ∃ m q, ∃ hd : IsDouble m q, Float.ofNat n = packed (.finite .positive m q hd.pos) ∧
      (m : ℚ) * 2 ^ q = n := by
  obtain ⟨m, q, hd, -, -, hvalue⟩ := toFloat_exact hpos hlt
  exact ⟨m, q, hd, ofNat_eq_packed_of_value hd hpos (hlt.trans (by norm_num)) hvalue, hvalue⟩

theorem wholePart_ofNat {n : Nat} (hlt : n < 2 ^ 53) : wholePart (Float.ofNat n) = n := by
  rcases Nat.eq_zero_or_pos n with rfl | hpos
  · have hdecoded : ofFloat (Float.ofNat 0) = finite false 0 (-1074) := by decide +kernel
    rw [wholePart_of_finite hdecoded, Nat.cast_zero, zero_mul, Nat.floor_zero]
  · obtain ⟨m, q, hd, heq, hvalue⟩ := ofNat_eq_packed hpos hlt
    rw [heq, wholePart_packed hd, hvalue, Nat.floor_natCast]

theorem wholePart_neg_ofNat {n : Nat} (hlt : n < 2 ^ 53) : wholePart (-Float.ofNat n) = 0 := by
  rcases Nat.eq_zero_or_pos n with rfl | hpos
  · have hdecoded : ofFloat (-Float.ofNat 0) = finite true 0 (-1074) := by decide +kernel
    exact wholePart_of_negative hdecoded
  · obtain ⟨m, q, hd, heq, -⟩ := ofNat_eq_packed hpos hlt
    rw [heq, hd.neg_packed]
    exact wholePart_of_negative (ofFloat_packed hd true)

/-- **Rounding down** keeps the whole part. -/
theorem wholePart_floor (x : Float) : wholePart (floor x) = wholePart x := by
  cases h : ofFloat x with
  | nan =>
      have hfloor : floor x = x := by
        rw [floor, h]
      rw [hfloor]
  | infinite negative =>
      have hfloor : floor x = x := by
        rw [floor, h]
      rw [hfloor]
  | finite negative m q =>
      by_cases hq : 0 ≤ q
      · have hfloor : floor x = x := by
          rw [floor, h]
          exact if_pos hq
        rw [hfloor]
      -- Only a negative exponent leaves digits behind the point.
      · have hunit : 1 ≤ 2 ^ (-q).toNat := Nat.one_le_two_pow
        have hm : m < 2 ^ 53 := by
          rcases Nat.eq_zero_or_pos m with rfl | hm
          · norm_num
          · exact (eq_packed_of_finite h hm).1.lt
        cases negative with
        | true =>
            have hfloor : floor x =
                -Float.ofNat ((m + 2 ^ (-q).toNat - 1) / 2 ^ (-q).toNat) := by
              rw [floor, h]
              exact if_neg hq
            have hlt : (m + 2 ^ (-q).toNat - 1) / 2 ^ (-q).toNat < 2 ^ 53 := by
              rw [Nat.div_lt_iff_lt_mul hunit]
              omega
            rw [hfloor, wholePart_neg_ofNat hlt, wholePart_of_negative h]
        | false =>
            have hfloor : floor x = Float.ofNat (m / 2 ^ (-q).toNat) := by
              rw [floor, h]
              exact if_neg hq
            have hwhole : ⌊(m : ℚ) * 2 ^ q⌋₊ = m / 2 ^ (-q).toNat := by
              have hup : q.toNat = 0 := by omega
              rw [floor_mantissa, hup, pow_zero, mul_one]
            rw [hfloor, wholePart_ofNat ((Nat.div_le_self _ _).trans_lt hm), wholePart_of_finite h,
              hwhole]

theorem wholePart_one : wholePart 1.0 = 1 := by
  have hdecoded : ofFloat 1.0 = finite false (2 ^ 52) (-52) := by decide +kernel
  have hone : ((2 ^ 52 : ℕ) : ℚ) * 2 ^ (-52 : ℤ) = 1 := by norm_num
  rw [wholePart_of_finite hdecoded, hone, Nat.floor_one, Nat.cast_one]

/-! ## Doubles that are not below one -/

section

variable {m : Nat} {q : Int} (hd : IsDouble m q)
include hd

/-- A double is below one if the point stands before its leading bit. -/
theorem one_le_value_iff : 1 ≤ (m : ℚ) * 2 ^ q ↔ -52 ≤ q := by
  constructor
  · intro hone
    by_contra hq
    have hm : (m : ℚ) < 2 ^ 53 := by exact_mod_cast hd.lt
    have hsmall : (m : ℚ) * 2 ^ q < 1 := by
      calc (m : ℚ) * 2 ^ q < 2 ^ 53 * 2 ^ q := by gcongr
        _ ≤ 2 ^ 53 * 2 ^ (-53 : ℤ) := by
            gcongr
            · norm_num
            · omega
        _ = 1 := by norm_num
    exact absurd hone (not_le.2 hsmall)
  · intro hq
    have hm : (2 : ℚ) ^ 52 ≤ m := by exact_mod_cast hd.full.resolve_right (by omega)
    calc (1 : ℚ) = 2 ^ 52 * 2 ^ (-52 : ℤ) := by norm_num
      _ ≤ m * 2 ^ q := by
          gcongr
          norm_num

theorem one_le_packed (s : Sign) : Arith.le 1.0 (packed (.finite s m q hd.pos)) =
    (Float.toModel 1.0).unpack.le (.finite s m q hd.pos) := by
  have hunpack : (packed (.finite s m q hd.pos)).toModel.unpack = .finite s m q hd.pos :=
    hd.unpack_pack s
  calc Arith.le 1.0 (packed (.finite s m q hd.pos))
      = (Float.toModel 1.0).unpack.le (packed (.finite s m q hd.pos)).toModel.unpack :=
        Bool.eq_iff_iff.2 (decide_eq_true_iff.trans decide_eq_true_iff)
    _ = (Float.toModel 1.0).unpack.le (.finite s m q hd.pos) := by rw [hunpack]

theorem one_le_packed_iff :
    Arith.le 1.0 (packed (.finite .positive m q hd.pos)) = true ↔ -52 ≤ q := by
  rw [one_le_packed hd]
  -- One is `2 ^ 52 * 2 ^ (-52)`; exponents are compared first.
  change ((compare (-52) q).then (compare (2 ^ 52) m)).isLE = true ↔ _
  rcases lt_trichotomy (-52) q with hq | rfl | hq
  · rw [compare_lt_iff_lt.2 hq]
    exact iff_of_true rfl hq.le
  · have hfull : 2 ^ 52 ≤ m := hd.full.resolve_right (by norm_num)
    rw [compare_eq_iff_eq.2 rfl]
    exact iff_of_true (Nat.isLE_compare.2 hfull) le_rfl
  · rw [compare_gt_iff_gt.2 hq]
    exact iff_of_false Bool.false_ne_true (not_le.2 hq)

end

/-- **A double has a whole part** exactly if it is not below one. -/
theorem one_le_wholePart_iff (x : Float) : 1 ≤ wholePart x ↔ Arith.le 1.0 x = true := by
  cases h : ofFloat x with
  | nan =>
      rw [wholePart, h, eq_packed_of_nan h]
      exact iff_of_false (by norm_num) (by decide +kernel)
  | infinite negative =>
      rw [wholePart, h, eq_packed_of_infinite h]
      cases negative with
      | true => exact iff_of_false (by norm_num) (by decide +kernel)
      | false => exact iff_of_true le_top (by decide +kernel)
  | finite negative m q =>
      rcases Nat.eq_zero_or_pos m with rfl | hm
      · have hle : Arith.le 1.0 x = false := by
          rw [eq_packed_of_zero h]
          cases negative <;> decide +kernel
        have hwhole : wholePart x = 0 := by
          cases negative <;> simp [wholePart, h]
        rw [hle, hwhole]
        exact iff_of_false (by norm_num) Bool.false_ne_true
      obtain ⟨hd, rfl⟩ := eq_packed_of_finite h hm
      cases negative with
      | true =>
          have hle : Arith.le 1.0 (packed (.finite (signOf true) m q hm)) = false :=
            one_le_packed hd .negative
          rw [hle, wholePart_of_negative h]
          exact iff_of_false (by norm_num) Bool.false_ne_true
      | false =>
          rw [wholePart_of_finite h, Nat.one_le_cast, Nat.one_le_floor_iff, one_le_value_iff hd]
          exact (one_le_packed_iff hd).symm

/-- **The larger one** of a double and one has the larger whole part. -/
theorem wholePart_max_one (x : Float) :
    wholePart (Arith.max x 1.0) = max (wholePart x) 1 := by
  have hone : Arith.le (1.0 : Float) 1.0 = true := by decide +kernel
  unfold Arith.max
  by_cases hx : Arith.le 1.0 x = true
  · rw [if_pos hx, max_eq_left ((one_le_wholePart_iff x).2 hx)]
  · have hle : wholePart x ≤ 1 := (not_le.1 (mt (one_le_wholePart_iff x).1 hx)).le
    rw [if_neg hx, if_pos hone, wholePart_one, max_eq_right hle]

end Binary64

end SiteAnalysis
