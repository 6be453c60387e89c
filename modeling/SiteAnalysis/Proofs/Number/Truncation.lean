import SiteAnalysis.Proofs.Number.Order
import SiteAnalysis.Proofs.Number.Whole

set_option autoImplicit false

/-! # Doubles without their fractions

A double is cut to an integer of 64 bits by dropping what lies behind its point; what is too large
gives the greatest or the least integer. Main statements:

* `Binary64.truncate_of_finite`: the integer that a finite double is cut to.
* `Binary64.truncate_ofInt_iff`: the integers that come back from being made doubles. They are those
  that a mantissa and a number of zeros behind it make up, and the greatest one.
-/

namespace SiteAnalysis

open Float.Model.UnpackedFloat

namespace Binary64

variable {x : Float} {m : Nat} {q n : Int}

/-! ## Truncation -/

/-- The integer of 64 bits nearest to an integer. -/
def clamp (n : Int) : Int := max minInt (min n maxInt)

theorem fitsInt_iff : fitsInt n = true ↔ minInt ≤ n ∧ n ≤ maxInt := by
  rw [fitsInt, Bool.and_eq_true, decide_eq_true_iff, decide_eq_true_iff]

theorem clamp_of_fitsInt (h : fitsInt n = true) : clamp n = n := by
  rw [fitsInt_iff] at h
  unfold clamp
  omega

theorem clamp_cases (n : Int) : clamp n = n ∨ clamp n = minInt ∨ clamp n = maxInt := by
  unfold clamp
  omega

theorem ne_nan_of_finite {negative : Bool} (h : ofFloat x = finite negative m q) :
    ofFloat x ≠ nan := by
  rw [h]
  exact nofun

/-- A number is negative if it stands before zero. -/
theorem lt_zero_iff (h : ofFloat x ≠ nan) : x < 0.0 ↔ place x < 0 := by
  have hzero : ofFloat 0.0 ≠ nan ∧ place 0.0 = 0 := by decide +kernel
  have hlt : x < 0.0 ↔ Arith.lt x 0.0 = true := decide_eq_true_iff.symm
  rw [hlt, lt_iff h hzero.1, hzero.2]

theorem toIndex_of_finite (h : ofFloat x = finite false m q) :
    Arith.toIndex x = min ⌊(m : ℚ) * 2 ^ q⌋₊ maxIndex := by
  have hindex := toIndex_eq_wholePart x
  rw [wholePart_of_finite h, ← Nat.mono_cast.map_min] at hindex
  exact_mod_cast hindex

/-- The opposite of a negative double. -/
theorem ofFloat_neg (hm : 0 < m) (h : ofFloat x = finite true m q) :
    ofFloat (-x) = finite false m q := by
  obtain ⟨hd, rfl⟩ := eq_packed_of_finite h hm
  have hneg : -packed (.finite (signOf true) m q hm) = packed (.finite (signOf false) m q hm) := by
    change packed (Float.Model.pack (.finite (signOf true) m q hm)).unpack.neg = _
    rw [hd.unpack_pack]
    rfl
  rw [hneg]
  exact ofFloat_packed hd false

/-- **A finite double** is cut to its whole part under its sign. -/
theorem truncate_of_finite {negative : Bool} (h : ofFloat x = finite negative m q) :
    truncate x = clamp ((signOf negative).apply ⌊(m : ℚ) * 2 ^ q⌋₊) := by
  have hmax : maxIndex = 18446744073709551615 := rfl
  rcases Nat.eq_zero_or_pos m with rfl | hm
  · rw [eq_packed_of_zero h, Nat.cast_zero, zero_mul, Nat.floor_zero]
    cases negative <;> decide +kernel
  have hd : IsDouble m q := (eq_packed_of_finite h hm).1
  have hpos := place_pos hd
  have hplace := place_of_finite h
  have hsign := lt_zero_iff (ne_nan_of_finite h)
  rw [hplace] at hsign
  unfold truncate clamp minInt maxInt
  -- The magnitude is cut to a word and the sign put back.
  cases negative with
  | false =>
      have hindex : x.toUInt64.toNat = min ⌊(m : ℚ) * 2 ^ q⌋₊ maxIndex := toIndex_of_finite h
      have hnonneg : ¬ x < 0.0 := fun hlt => lt_asymm hpos (hsign.1 hlt)
      rw [if_neg hnonneg, hindex]
      change _ = max _ (min ((⌊(m : ℚ) * 2 ^ q⌋₊ : Nat) : Int) _)
      omega
  | true =>
      have hindex : (-x).toUInt64.toNat = min ⌊(m : ℚ) * 2 ^ q⌋₊ maxIndex :=
        toIndex_of_finite (ofFloat_neg hm h)
      have hnegative : x < 0.0 := hsign.2 (Int.neg_neg_of_pos hpos)
      rw [if_pos hnegative, hindex]
      change _ = max _ (min (-((⌊(m : ℚ) * 2 ^ q⌋₊ : Nat) : Int)) _)
      omega

/-! ## Integers that doubles hold -/

/-- **The integers that doubles hold**: a mantissa and a number of zeros behind it. -/
def Holds (n : Int) : Prop := ∃ (m : Int) (k : Nat), m.natAbs < 2 ^ 53 ∧ n = m * 2 ^ k

theorem holds_of_natAbs_lt (h : n.natAbs < 2 ^ 53) : Holds n := ⟨n, 0, h, by rw [pow_zero, mul_one]⟩

theorem holds_minInt : Holds minInt := ⟨-1, 63, by decide, by decide⟩

theorem Holds.neg (h : Holds n) : Holds (-n) := by
  obtain ⟨m, k, hm, rfl⟩ := h
  exact ⟨-m, k, by rwa [Int.natAbs_neg], by rw [Int.neg_mul]⟩

theorem Holds.apply (h : Holds n) (s : Sign) : Holds (s.apply n) := by
  cases s with
  | positive => exact h
  | negative => exact h.neg

/-- Behind the point or before it, a mantissa leaves an integer that is held. -/
theorem holds_floor (hm : m < 2 ^ 53) : Holds ⌊(m : ℚ) * 2 ^ q⌋₊ := by
  rw [floor_mantissa]
  by_cases hq : 0 ≤ q
  · have hdown : (-q).toNat = 0 := by omega
    rw [hdown, pow_zero, Nat.div_one]
    exact ⟨m, q.toNat, by rwa [Int.natAbs_natCast], by push_cast; rfl⟩
  · have hup : q.toNat = 0 := by omega
    rw [hup, pow_zero, mul_one]
    refine holds_of_natAbs_lt ?_
    rw [Int.natAbs_natCast]
    exact (Nat.div_le_self _ _).trans_lt hm

/-- **A double is cut to an integer that is held**, or to the greatest one. -/
theorem holds_truncate (x : Float) : truncate x = maxInt ∨ Holds (truncate x) := by
  cases h : ofFloat x with
  | nan =>
      have hzero : truncate x = 0 := by
        rw [eq_packed_of_nan h]
        decide +kernel
      rw [hzero]
      exact .inr (holds_of_natAbs_lt (by norm_num))
  | infinite negative =>
      rw [eq_packed_of_infinite h]
      cases negative with
      | false => exact .inl (by decide +kernel)
      | true =>
          have hmin : truncate (packed (.infinity (signOf true))) = minInt := by decide +kernel
          rw [hmin]
          exact .inr holds_minInt
  | finite negative m q =>
      have hm : m < 2 ^ 53 := by
        rcases Nat.eq_zero_or_pos m with rfl | hm
        · norm_num
        · exact (eq_packed_of_finite h hm).1.lt
      have hwhole := (holds_floor (q := q) hm).apply (signOf negative)
      rw [truncate_of_finite h]
      rcases clamp_cases ((signOf negative).apply ⌊(m : ℚ) * 2 ^ q⌋₊) with hsame | hmin | hmax
      · rw [hsame]
        exact .inr hwhole
      · rw [hmin]
        exact .inr holds_minInt
      · exact .inl hmax

/-! ## Integers as doubles -/

/-- A double for an integer that is held. -/
theorem Holds.exists_isDouble {n : Nat} (h : Holds n) (hpos : 0 < n) (hlt : n < 2 ^ 64) :
    ∃ m q, IsDouble m q ∧ (m : ℚ) * 2 ^ q = n := by
  obtain ⟨m, k, hm, hn⟩ := h
  have hk : (0 : Int) < 2 ^ k := by positivity
  have hmpos : 0 < m := by
    by_contra hle
    have := mul_nonpos_of_nonpos_of_nonneg (not_lt.1 hle) hk.le
    omega
  lift m to Nat using hmpos.le
  rw [Int.natAbs_natCast] at hm
  obtain ⟨M, Q, hd, hfull, -, hvalue⟩ := toFloat_exact (by omega : 0 < m) hm
  have hn' : (n : ℚ) = m * 2 ^ k := by exact_mod_cast hn
  have hshifted : (M : ℚ) * 2 ^ (Q + k) = n := by
    rw [zpow_add₀ (by norm_num), ← mul_assoc, hvalue, zpow_natCast, hn']
  -- The mantissa that has its leading bit keeps it, so only the exponent has to fit.
  refine ⟨M, Q + k, ⟨hd.pos, hd.lt, ?_, ?_, .inl hfull⟩, hshifted⟩
  · have hlow := hd.low
    omega
  · by_contra hlarge
    have hM : (2 : ℚ) ^ 52 ≤ M := by exact_mod_cast hfull
    have hbound : (n : ℚ) < 2 ^ 64 := by exact_mod_cast hlt
    refine absurd hbound (not_lt.2 ?_)
    calc (2 : ℚ) ^ 64 = 2 ^ 52 * 2 ^ (12 : Int) := by norm_num
      _ ≤ (M : ℚ) * 2 ^ (Q + k) := by
          gcongr
          · norm_num
          · omega
      _ = n := hshifted

/-- A whole number that is held is the value of the double that it is made. -/
theorem ofFloat_ofNat_of_holds (hpos : 0 < m) (hlt : m < 2 ^ 64) (h : Holds m) :
    ∃ M q, ofFloat (Float.ofNat m) = finite false M q ∧ ofFloat (-Float.ofNat m) = finite true M q ∧
      (M : ℚ) * 2 ^ q = m := by
  obtain ⟨M, q, hd, hvalue⟩ := h.exists_isDouble hpos hlt
  rw [ofNat_eq_packed_of_value hd hpos hlt hvalue, hd.neg_packed]
  exact ⟨M, q, ofFloat_packed hd false, ofFloat_packed hd true, hvalue⟩

theorem truncate_ofInt_of_holds (hn : fitsInt n = true) (h : Holds n) :
    truncate (Float.ofInt n) = n := by
  have hrange := fitsInt_iff.1 hn
  unfold minInt maxInt at hrange
  cases n with
  | ofNat n =>
      rcases Nat.eq_zero_or_pos n with rfl | hpos
      · decide +kernel
      · have hlt : n < 2 ^ 64 := by
          rw [Int.ofNat_eq_natCast] at hrange
          omega
        obtain ⟨M, q, hdecoded, -, hvalue⟩ := ofFloat_ofNat_of_holds hpos hlt h
        have htruncate := truncate_of_finite hdecoded
        rw [hvalue, Nat.floor_natCast] at htruncate
        exact htruncate.trans (clamp_of_fitsInt hn)
  | negSucc n =>
      have hlt : n + 1 < 2 ^ 64 := by
        rw [Int.negSucc_eq] at hrange
        omega
      have hheld : Holds ((n + 1 : Nat) : Int) := h.neg
      obtain ⟨M, q, -, hdecoded, hvalue⟩ := ofFloat_ofNat_of_holds n.succ_pos hlt hheld
      have htruncate := truncate_of_finite hdecoded
      rw [hvalue, Nat.floor_natCast] at htruncate
      exact htruncate.trans (clamp_of_fitsInt hn)

/-- **The integers that come back** from being made doubles. The greatest integer is made a double
that is one larger, and is the integer nearest to it. -/
theorem truncate_ofInt_iff (hn : fitsInt n = true) :
    truncate (Float.ofInt n) = n ↔ n = maxInt ∨ Holds n := by
  constructor
  · intro h
    have hheld := holds_truncate (Float.ofInt n)
    rwa [h] at hheld
  · rintro (rfl | hheld)
    · decide +kernel
    · exact truncate_ofInt_of_holds hn hheld

end Binary64

end SiteAnalysis
