import SiteAnalysis.Number.Reading
import SiteAnalysis.Proofs.Number.Packing

set_option autoImplicit false

/-! # The double nearest to a decimal number

Main statement:

* `nearestDouble_eq`: a decimal number is read as the double in whose interval of rounding it lies.

Numbers of few digits are read with one division or multiplication of two doubles that are exact
(`ofNat_exact`, `powersOfTen_exact`), and all others by exact arithmetic and one rounding.
-/

namespace SiteAnalysis

open Float.Model (Format)
open Float.Model.UnpackedFloat

/-! ## Exact doubles -/

/-- A double lies in its own interval. -/
theorem roundsTo_self (m : Nat) (q : Int) : RoundsTo m q (m * 2 ^ q) := by
  have hq : (0 : ℚ) < 2 ^ q := zpow_pos (by norm_num) q
  have hmargin : 0 < lowerMargin m q := by
    unfold lowerMargin Decimal.rounding
    dsimp only
    split <;> norm_num
  have hlow : (m - lowerMargin m q) * (2 : ℚ) ^ q < m * 2 ^ q := by
    gcongr
    linarith
  have hhigh : (m : ℚ) * 2 ^ q < (m + 1 / 2) * 2 ^ q := by
    gcongr
    linarith
  exact ⟨hlow.le, hhigh.le, fun _ => ⟨hlow, hhigh⟩⟩

/-- **Doubles with all bits of the mantissa** and the numbers they are. -/
def IsExactly (x : Float) (v : ℚ) : Prop :=
  ∃ m q, ∃ hd : IsDouble m q, 2 ^ 52 ≤ m ∧ x = packed (.finite .positive m q hd.pos) ∧
    (m : ℚ) * 2 ^ q = v

/-- A whole number below `2 ^ 53` is put on an exponent where its mantissa has all bits. -/
theorem round_natural {n : Nat} (hpos : 0 < n) (hlt : n < 2 ^ 53) {k : Nat}
    (hk : k = 52 - n.log2) (hd : IsDouble (n <<< k) (-k : Int)) :
    Float.Model.UnpackedFloat.round Format.binary64 .positive n 0 = .finite .positive (n <<< k) (-k : Int) hd.pos := by
  have hlog : n.log2 < 53 := (Nat.log2_lt hpos.ne').2 hlt
  have htarget : Format.binary64.targetExponent (Float.Model.totalExponent n 0) = -k := by
    rw [targetExponent_binary64, Float.Model.totalExponent]
    omega
  have hshift : decreaseExponent n 0 (-k) = (n <<< k, (-k : Int)) := by
    simp [decreaseExponent]
  have hbits : 52 ≤ (n <<< k).log2 := by
    have hle := Nat.log2_self_le hpos.ne'
    refine (Nat.le_log2 hd.pos.ne').2 ?_
    rw [Nat.shiftLeft_eq]
    calc 2 ^ 52 = 2 ^ n.log2 * 2 ^ k := by rw [← pow_add]; congr 1; omega
      _ ≤ n * 2 ^ k := by gcongr
  have hloc : Locates .exact (n <<< k) ((n <<< k : Nat) : ℚ) := rfl
  rw [Float.Model.UnpackedFloat.round, htarget, hshift]
  exact roundWithAccuracy_eq hd hloc (by omega) (roundsTo_self _ _) .positive

/-- A whole number of as many bits as a mantissa has is a double. -/
theorem toFloat_exact {n : Nat} (hpos : 0 < n) (hlt : n < 2 ^ 53) :
    IsExactly n.toUInt64.toFloat n := by
  have hlog : n.log2 < 53 := (Nat.log2_lt hpos.ne').2 hlt
  -- Shifted to its leading bit the whole number is a full mantissa.
  obtain ⟨k, hk⟩ : ∃ k, k = 52 - n.log2 := ⟨_, rfl⟩
  have hlow : 2 ^ 52 ≤ n <<< k := by
    have hle := Nat.log2_self_le hpos.ne'
    rw [Nat.shiftLeft_eq]
    calc 2 ^ 52 = 2 ^ n.log2 * 2 ^ k := by rw [← pow_add]; congr 1; omega
      _ ≤ n * 2 ^ k := by gcongr
  have hhigh : n <<< k < 2 ^ 53 := by
    rw [Nat.shiftLeft_eq]
    calc n * 2 ^ k < 2 ^ (n.log2 + 1) * 2 ^ k := by gcongr; exact Nat.lt_log2_self
      _ = 2 ^ 53 := by rw [← pow_add]; congr 1; omega
  have hd : IsDouble (n <<< k) (-k : Int) := ⟨by omega, hhigh, by omega, by omega, .inl hlow⟩
  refine ⟨_, _, hd, hlow, ?_, ?_⟩
  · have hnat : n.toUInt64.toNat = n := by
      rw [Nat.toUInt64_eq, UInt64.toNat_ofNat_of_lt']
      exact hlt.trans (by norm_num [UInt64.size])
    have hpositive : compare (n : Int) 0 = .gt := compare_gt_iff_gt.2 (by omega)
    change packed (ofNat Format.binary64 n.toUInt64.toNat) = _
    rw [hnat, ofNat, ofInt, Float.Model.UnpackedFloat.normalize, hpositive]
    dsimp only
    rw [Int.toNat_natCast, round_natural hpos hlt hk hd]
  · rw [Nat.shiftLeft_eq, zpow_neg, zpow_natCast]
    push_cast
    field_simp

/-- The table of powers of ten is exact. -/
theorem powersOfTen_exact {e : Nat} (he : e < 23) :
    IsExactly (Float.exactlyRepresentablePowersOfTen[e]) (10 ^ e) := by
  have htable : ∀ i : Fin 23,
      Binary64.ofFloat (Float.exactlyRepresentablePowersOfTen[i]) =
        .finite false (10 ^ i.val * 2 ^ 52 / 2 ^ (10 ^ i.val).log2) ((10 ^ i.val).log2 - 52) ∧
      10 ^ i.val * 2 ^ 52 / 2 ^ (10 ^ i.val).log2 * 2 ^ (10 ^ i.val).log2 = 10 ^ i.val * 2 ^ 52 ∧
      2 ^ 52 ≤ 10 ^ i.val * 2 ^ 52 / 2 ^ (10 ^ i.val).log2 := by decide +kernel
  obtain ⟨hdecoded, hvalue, hfull⟩ := htable ⟨e, he⟩
  obtain ⟨hd, hx⟩ := Binary64.eq_packed_of_finite hdecoded (by omega)
  refine ⟨_, _, hd, hfull, hx, ?_⟩
  have hvalue : ((10 ^ e * 2 ^ 52 / 2 ^ (10 ^ e).log2 : Nat) : ℚ) * 2 ^ (10 ^ e).log2 =
      10 ^ e * 2 ^ 52 := by exact_mod_cast hvalue
  rw [zpow_sub₀ (by norm_num), zpow_natCast]
  norm_num at hvalue ⊢
  rw [← mul_div_assoc, hvalue]
  norm_num

/-! ## One operation on exact doubles -/

section

variable {m : Nat} {q : Int} (hd : IsDouble m q) {x y : Float} {v w : ℚ}
include hd

theorem IsExactly.mul_eq (hx : IsExactly x v) (hy : IsExactly y w) (hvw : RoundsTo m q (v * w)) :
    x * y = packed (.finite .positive m q hd.pos) := by
  obtain ⟨m₁, q₁, h₁, hfull₁, rfl, rfl⟩ := hx
  obtain ⟨m₂, q₂, h₂, hfull₂, rfl, rfl⟩ := hy
  change packed (mul Format.binary64 (Float.Model.pack _).unpack (Float.Model.pack _).unpack) = _
  have hvalue : (m₁ : ℚ) * 2 ^ q₁ * (m₂ * 2 ^ q₂) = m₁ * m₂ * 2 ^ (q₁ + q₂) := by
    rw [zpow_add₀ (by norm_num)]
    ring
  have hbits : 52 ≤ (m₁ * m₂).log2 :=
    (Nat.le_log2 (Nat.mul_pos h₁.pos h₂.pos).ne').2
      (hfull₁.trans (Nat.le_mul_of_pos_right m₁ h₂.pos))
  rw [hvalue] at hvw
  rw [h₁.unpack_pack, h₂.unpack_pack, SiteAnalysis.mul_eq hd _ _ hbits hvw]
  rfl

theorem IsExactly.div_eq (hx : IsExactly x v) (hy : IsExactly y w) (hvw : RoundsTo m q (v / w)) :
    x / y = packed (.finite .positive m q hd.pos) := by
  obtain ⟨m₁, q₁, h₁, hfull₁, rfl, rfl⟩ := hx
  obtain ⟨m₂, q₂, h₂, hfull₂, rfl, rfl⟩ := hy
  change packed (div Format.binary64 (Float.Model.pack _).unpack (Float.Model.pack _).unpack) = _
  rw [h₁.unpack_pack, h₂.unpack_pack, SiteAnalysis.div_eq hd _ _ hvw]
  rfl

end

/-! ## Decimal numbers -/

section

variable {m : Nat} {q : Int} {digits : Nat}

theorem RoundsTo.pos {x : ℚ} (hd : IsDouble m q) (hx : RoundsTo m q x) : 0 < x := by
  have hq : (0 : ℚ) < 2 ^ q := zpow_pos (by norm_num) q
  have hm : (1 : ℚ) ≤ m := by exact_mod_cast hd.pos
  have hmargin := lowerMargin_le m q
  exact lt_of_lt_of_le (mul_pos (by linarith) hq) hx.low

theorem RoundsTo.lt_two_pow {x : ℚ} (hd : IsDouble m q) (hx : RoundsTo m q x) :
    x < 2 ^ (1024 : Int) := by
  have hm : (m : ℚ) + 1 ≤ 2 ^ (53 : Int) := by exact_mod_cast hd.lt
  calc x ≤ (m + 1 / 2) * 2 ^ q := hx.high
    _ < 2 ^ (53 : Int) * 2 ^ q := by
        have hq : (0 : ℚ) < 2 ^ q := zpow_pos (by norm_num) q
        gcongr
        linarith
    _ = 2 ^ (53 + q) := by rw [zpow_add₀ (by norm_num)]
    _ ≤ 2 ^ (1024 : Int) := zpow_le_zpow_right₀ (by norm_num) (by have := hd.high; omega)

theorem RoundsTo.two_pow_lt {x : ℚ} (hd : IsDouble m q) (hx : RoundsTo m q x) :
    (2 : ℚ) ^ (-1076 : Int) < x := by
  have hm : (1 : ℚ) ≤ m := by exact_mod_cast hd.pos
  have hmargin := lowerMargin_le m q
  calc (2 : ℚ) ^ (-1076 : Int) = 1 / 4 * 2 ^ (-1074 : Int) := by
        rw [show (-1076 : Int) = -2 + -1074 by norm_num, zpow_add₀ (by norm_num)]
        norm_num
    _ < 1 / 2 * 2 ^ (-1074 : Int) := by
        gcongr
        norm_num
    _ ≤ 1 / 2 * 2 ^ q := by
        gcongr
        · norm_num
        · exact hd.low
    _ ≤ (m - lowerMargin m q) * 2 ^ q := by
        have hq : (0 : ℚ) < 2 ^ q := zpow_pos (by norm_num) q
        gcongr
        linarith
    _ ≤ x := hx.low

/-- The size of a decimal number, from the number of its digits. -/
theorem pow_length_toDigits (hpos : 0 < digits) (exponent : Int) :
    (10 : ℚ) ^ (exponent + (Nat.toDigits 10 digits).length - 1) ≤ digits * 10 ^ exponent ∧
      digits * (10 : ℚ) ^ exponent < 10 ^ (exponent + (Nat.toDigits 10 digits).length) := by
  have hten : (10 : ℚ) ≠ 0 := by norm_num
  have hexp : (0 : ℚ) < 10 ^ exponent := zpow_pos (by norm_num) exponent
  have hlength : 0 < (Nat.toDigits 10 digits).length := Nat.length_toDigits_pos
  constructor
  · have hge : 10 ^ ((Nat.toDigits 10 digits).length - 1) ≤ digits := by
      rcases Nat.eq_or_lt_of_le hlength with hone | hmore
      · rw [← hone]
        exact hpos
      · by_contra hlt
        have := (Nat.length_toDigits_le_iff (by norm_num) (by omega)).2 (not_le.1 hlt)
        omega
    calc (10 : ℚ) ^ (exponent + (Nat.toDigits 10 digits).length - 1)
        = 10 ^ (((Nat.toDigits 10 digits).length - 1 : Nat) + exponent : Int) := by
          congr 1
          omega
      _ = 10 ^ ((Nat.toDigits 10 digits).length - 1) * 10 ^ exponent := by
          rw [zpow_add₀ hten, zpow_natCast]
      _ ≤ digits * 10 ^ exponent := by
          gcongr
          exact_mod_cast hge
  · have hlt : digits < 10 ^ (Nat.toDigits 10 digits).length :=
      (Nat.length_toDigits_le_iff (by norm_num) hlength).1 le_rfl
    rw [add_comm exponent, zpow_add₀ hten, zpow_natCast]
    gcongr
    exact_mod_cast hlt

/-- The logarithm to the base of two is no less than that to the base of ten. -/
theorem length_toDigits_le_log2 (digits : Nat) :
    (Nat.toDigits 10 digits).length ≤ digits.log2 + 1 := by
  rw [Nat.length_toDigits_le_iff (by norm_num) (by omega)]
  calc digits < 2 ^ (digits.log2 + 1) := Nat.lt_log2_self
    _ ≤ 10 ^ (digits.log2 + 1) := Nat.pow_le_pow_left (by norm_num) _

theorem le_log2_shiftLeft_mul {n k : Nat} (hn : 0 < n) (hk : 0 < k) :
    52 ≤ (n <<< 53 * k).log2 := by
  have hge : 2 ^ 52 ≤ n <<< 53 * k := by
    rw [Nat.shiftLeft_eq]
    calc 2 ^ 52 ≤ 1 * 2 ^ 53 * 1 := by norm_num
      _ ≤ n * 2 ^ 53 * k := by gcongr <;> assumption
  exact (Nat.le_log2 (by omega)).2 hge

/-- Reading by exact arithmetic and one rounding. -/
theorem ofScientific_eq {exponent : Int} (hd : IsDouble m q) (hpos : 0 < digits)
    (hlow : -400 ≤ exponent + (Nat.toDigits 10 digits).length)
    (hhigh : exponent + (Nat.toDigits 10 digits).length ≤ 400)
    (hx : RoundsTo m q (digits * 10 ^ exponent)) :
    ofScientific Format.binary64 digits exponent = .finite .positive m q hd.pos := by
  have hlength := length_toDigits_le_log2 digits
  unfold ofScientific
  rw [dif_neg hpos.ne', if_neg (by norm_num; omega), if_neg (by norm_num; omega)]
  -- A power of ten is multiplied, or divided by, in whole numbers; one rounding follows.
  split_ifs with hexp
  · have hpow : 0 < 10 ^ exponent.toNat := Nat.pow_pos (by norm_num)
    have hbits := le_log2_shiftLeft_mul hpos hpow
    refine mul_eq hd .positive .positive hbits ?_
    · have hvalue : ((digits <<< Format.binary64.mantissaBits : Nat) : ℚ) *
          (10 ^ exponent.toNat : Nat) * 2 ^ (-(Format.binary64.mantissaBits : Int) + 0) =
          digits * 10 ^ exponent := by
        have hbits : Format.binary64.mantissaBits = 53 := rfl
        have hcast : (10 : ℚ) ^ exponent = 10 ^ exponent.toNat := by
          rw [← zpow_natCast, Int.toNat_of_nonneg hexp]
        rw [hbits, hcast, Nat.shiftLeft_eq]
        push_cast
        norm_num
        ring
      rw [hvalue]
      exact hx
  · refine div_eq hd .positive .positive ?_
    have hcast : (10 : ℚ) ^ exponent = (10 ^ (-exponent).toNat)⁻¹ := by
      rw [← zpow_natCast, Int.toNat_of_nonneg (by omega), zpow_neg, inv_inv]
    rw [hcast] at hx
    push_cast
    simpa [div_eq_mul_inv] using hx

/-- A decimal number of moderate size, read by way of either method. -/
theorem float_ofScientific_eq {exponent : Int} (hd : IsDouble m q) (hpos : 0 < digits)
    (hlow : -400 ≤ exponent + (Nat.toDigits 10 digits).length)
    (hhigh : exponent + (Nat.toDigits 10 digits).length ≤ 400)
    (hx : RoundsTo m q (digits * 10 ^ exponent)) :
    (if exponent < 0 then Float.ofScientific digits true exponent.natAbs
      else Float.ofScientific digits false exponent.natAbs) =
      packed (.finite .positive m q hd.pos) := by
  have hslow := ofScientific_eq hd hpos hlow hhigh hx
  -- Few digits and a small power of ten are exact doubles, so that only one rounding is left.
  by_cases hfast : digits < 2 ^ 53 ∧ exponent.natAbs ≤ 22
  · have hexact := toFloat_exact hpos hfast.1
    have hpower := powersOfTen_exact (by omega : exponent.natAbs < 23)
    split_ifs with hneg
    · have hcast : (10 : ℚ) ^ exponent = (10 ^ exponent.natAbs)⁻¹ := by
        rw [← zpow_natCast, ← zpow_neg]
        congr 1
        omega
      rw [hcast, ← div_eq_mul_inv] at hx
      rw [Float.ofScientific, dif_pos hfast]
      exact hexact.div_eq hd hpower hx
    · have hcast : (10 : ℚ) ^ exponent = 10 ^ exponent.natAbs := by
        rw [← zpow_natCast]
        congr 1
        omega
      rw [hcast] at hx
      rw [Float.ofScientific, dif_pos hfast]
      exact hexact.mul_eq hd hpower hx
  · split_ifs with hneg
    · have hcast : Int.negOfNat exponent.natAbs = exponent := by
        rw [Int.negOfNat_eq, Int.ofNat_eq_natCast]
        omega
      rw [Float.ofScientific, dif_neg hfast, ← hslow]
      change packed (ofScientific Format.binary64 digits (Int.negOfNat exponent.natAbs)) = _
      rw [hcast]
    · have hcast : Int.ofNat exponent.natAbs = exponent := by
        rw [Int.ofNat_eq_natCast]
        omega
      rw [Float.ofScientific, dif_neg hfast, ← hslow]
      change packed (ofScientific Format.binary64 digits (Int.ofNat exponent.natAbs)) = _
      rw [hcast]

theorem two_pow_le_ten_pow {k : Int} (hk : 0 ≤ k) : (2 : ℚ) ^ (3 * k) ≤ 10 ^ k := by
  rw [zpow_mul]
  exact zpow_le_zpow_left₀ hk (by norm_num) (by norm_num)

theorem ten_pow_le_two_pow {k : Int} (hk : k ≤ 0) : (10 : ℚ) ^ k ≤ 2 ^ (3 * k) := by
  have h := two_pow_le_ten_pow (by omega : 0 ≤ -k)
  rw [mul_neg, zpow_neg, zpow_neg] at h
  exact (inv_le_inv₀ (zpow_pos (by norm_num) _) (zpow_pos (by norm_num) _)).1 h

/-- **A decimal number is read as the double in whose interval it lies.** -/
theorem nearestDouble_eq {exponent : Int} (hd : IsDouble m q)
    (hx : RoundsTo m q (digits * 10 ^ exponent)) :
    nearestDouble digits exponent = packed (.finite .positive m q hd.pos) := by
  have hpos : 0 < digits := by
    rcases Nat.eq_zero_or_pos digits with rfl | hpos
    · have := hx.pos hd
      simp at this
    · exact hpos
  obtain ⟨hge, hlt⟩ := pow_length_toDigits hpos exponent
  -- The numbers that are given up without arithmetic lie in the interval of no positive double.
  have hlow : -400 ≤ exponent + (Nat.toDigits 10 digits).length := by
    by_contra hsmall
    refine lt_irrefl (digits * (10 : ℚ) ^ exponent) ?_
    calc digits * (10 : ℚ) ^ exponent < 10 ^ (exponent + (Nat.toDigits 10 digits).length) := hlt
      _ ≤ 10 ^ (-400 : Int) := zpow_le_zpow_right₀ (by norm_num) (by omega)
      _ ≤ 2 ^ (3 * (-400) : Int) := ten_pow_le_two_pow (by norm_num)
      _ ≤ 2 ^ (-1076 : Int) := zpow_le_zpow_right₀ (by norm_num) (by norm_num)
      _ < digits * 10 ^ exponent := hx.two_pow_lt hd
  have hhigh : exponent + (Nat.toDigits 10 digits).length ≤ 400 := by
    by_contra hlarge
    refine lt_irrefl (digits * (10 : ℚ) ^ exponent) ?_
    calc digits * (10 : ℚ) ^ exponent < 2 ^ (1024 : Int) := hx.lt_two_pow hd
      _ ≤ 2 ^ (3 * 400 : Int) := zpow_le_zpow_right₀ (by norm_num) (by norm_num)
      _ ≤ 10 ^ (400 : Int) := two_pow_le_ten_pow (by norm_num)
      _ ≤ 10 ^ (exponent + (Nat.toDigits 10 digits).length - 1) :=
        zpow_le_zpow_right₀ (by norm_num) (by omega)
      _ ≤ digits * 10 ^ exponent := hge
  unfold nearestDouble
  dsimp only
  rw [if_neg hpos.ne', if_neg (by omega), if_neg (by omega)]
  exact float_ofScientific_eq hd hpos hlow hhigh hx

end

end SiteAnalysis
