import SiteAnalysis.Number.Arith
import SiteAnalysis.Proofs.Number.Finite
import SiteAnalysis.Proofs.Number.Packing

set_option autoImplicit false

/-! # Differences of doubles

The difference of two doubles is rounded, and may be much smaller than both. It is not lost:

* `zero_lt_sub`: a double less a smaller one is positive.

Doubles lie on a grid that is as fine near zero as it is between any two of them, so that the exact
difference of two is a whole number of the least units. Rounding takes away places behind the
leading bit only.
-/

namespace SiteAnalysis

open Float.Model (Format totalExponent)
open Float.Model.UnpackedFloat

/-! ## Positive doubles -/

/-- **Positive numbers**, infinity included. -/
inductive IsPositive : Float.Model.UnpackedFloat → Prop
  | infinity : IsPositive (.infinity .positive)
  | finite {m : Nat} {q : Int} (hm : 0 < m) : IsPositive (.finite .positive m q hm)

theorem zero_lt_of_isPositive {x : Float} (h : IsPositive x.toModel.unpack) :
    Arith.lt 0.0 x = true := by
  have hzero : (0.0 : Float) = packed (.zero .positive) :=
    @Binary64.eq_packed_of_zero 0.0 false (-1074) (by decide +kernel)
  have hlt : (packed (.zero .positive)).toModel.unpack.lt x.toModel.unpack = true := by
    generalize x.toModel.unpack = u at h
    cases h with
    | infinity => rfl
    | finite hm => rfl
  rw [hzero]
  exact decide_eq_true (decide_eq_true hlt)

/-- A rounded positive number stays positive in all its bits. -/
theorem isPositive_pack {m : Nat} {q : Int} (hm : 0 < m) (hlt : m < 2 ^ 53) (hlow : -1074 ≤ q) :
    IsPositive (Float.Model.pack (.finite .positive m q hm)).unpack := by
  have hbias : Format.binary64.exponentBias = 1023 := rfl
  have hbits : Format.binary64.mantissaBits = 53 := rfl
  by_cases hhigh : q ≤ 971
  · by_cases hfull : 2 ^ 52 ≤ m
    · have hd : IsDouble m q := ⟨hm, hlt, hlow, hhigh, .inl hfull⟩
      rw [hd.unpack_pack]
      exact .finite hm
    · -- Without its leading bit a mantissa is packed as on the least exponent.
      have hd : IsDouble m (-1074) := ⟨hm, hlt, le_rfl, by norm_num, .inr rfl⟩
      have hlog : m.log2 < 52 := (Nat.log2_lt hm.ne').2 (by omega)
      have hpack : pack Format.binary64 (.finite .positive m q hm) =
          pack Format.binary64 (.finite .positive m (-1074) hm) := by
        rw [pack, pack, hbias, hbits]
        dsimp only
        rw [if_neg (by omega), if_neg (by omega), if_neg (by omega), if_neg (by omega)]
      have hsame : Float.Model.pack (.finite .positive m q hm) =
          Float.Model.pack (.finite .positive m (-1074) hm) := by
        unfold Float.Model.pack
        simp only [hpack]
      rw [hsame, hd.unpack_pack]
      exact .finite hm
  · have hpack : pack Format.binary64 (.finite .positive m q hm) =
        packedInfinity Format.binary64 .positive := by
      rw [pack, hbias, hbits]
      dsimp only
      exact if_pos (by norm_num [Format.exponentBits]; omega)
    show IsPositive (unpack Format.binary64 (pack Format.binary64 (.finite .positive m q hm)))
    rw [hpack]
    exact .infinity

/-! ## Rounding -/

theorem le_roundedMantissa (em : ExtendedMantissa) : em.mantissa ≤ em.roundedMantissa := by
  obtain ⟨m, r, s⟩ := em
  cases r <;> cases s <;> simp [ExtendedMantissa.roundedMantissa, ExtendedMantissa.accuracy,
    Accuracy.roundToNearestEven]

/-- A shift to the target exponent leaves the leading bits of a mantissa. -/
theorem shiftToTargetExponent_pos {m : Nat} {e : Int} (hm : 0 < m) (he : -1074 ≤ e)
    (a : Accuracy) :
    0 < (shiftToTargetExponent Format.binary64 m e a).1.mantissa ∧
      (shiftToTargetExponent Format.binary64 m e a).1.mantissa < 2 ^ 53 ∧
        -1074 ≤ (shiftToTargetExponent Format.binary64 m e a).2 := by
  have hshift : (max (m.log2 + 1 + e - 53) (-1074) - e).toNat = m.log2 - 52 := by omega
  rw [shiftToTargetExponent_binary64, hshift]
  dsimp only
  rw [mantissa_shiftRight, mantissa_ofMantissaAndAccuracy]
  have hleast : 2 ^ (m.log2 - 52) ≤ m :=
    (Nat.pow_le_pow_right (by norm_num) (Nat.sub_le _ _)).trans (Nat.log2_self_le hm.ne')
  refine ⟨Nat.div_pos hleast (by positivity), ?_, by omega⟩
  rw [Nat.div_lt_iff_lt_mul (by positivity), ← pow_add]
  exact Nat.lt_log2_self.trans_le (Nat.pow_le_pow_right (by norm_num) (by omega))

/-- **Rounding a positive number** of the grid gives a positive one. -/
theorem exists_roundWithAccuracy {m : Nat} {e : Int} (hm : 0 < m) (he : -1074 ≤ e)
    (a : Accuracy) : ∃ n q, ∃ hn : 0 < n, roundWithAccuracy Format.binary64 .positive m e a =
      .finite .positive n q hn ∧ n < 2 ^ 53 ∧ -1074 ≤ q := by
  obtain ⟨hpos, -, hlow⟩ := shiftToTargetExponent_pos hm he a
  have hrounded := hpos.trans_le (le_roundedMantissa _)
  obtain ⟨hpos', hlt', hlow'⟩ := shiftToTargetExponent_pos hrounded hlow .exact
  refine ⟨_, _, hpos', ?_, hlt', hlow'⟩
  unfold roundWithAccuracy
  exact dif_neg hpos'.ne'

theorem isPositive_normalize {d : Int} {e : Int} (hd : 0 < d) (he : -1074 ≤ e) (s : Sign) :
    IsPositive (Float.Model.pack
      (Float.Model.UnpackedFloat.normalize Format.binary64 d e s)).unpack := by
  have hcompare : compare d 0 = .gt := compare_gt_iff_gt.2 hd
  have htarget := targetExponent_binary64 (totalExponent d.toNat e)
  -- A short mantissa is first given all its bits.
  obtain ⟨k, hk⟩ : ∃ k, k = (e - Format.binary64.targetExponent (totalExponent d.toNat e)).toNat :=
    ⟨_, rfl⟩
  have hpos : 0 < d.toNat <<< k := by
    rw [Nat.shiftLeft_eq]
    exact Nat.mul_pos (by omega) (by positivity)
  have hlow : -1074 ≤ e - k := by omega
  obtain ⟨n, q, hn, hround, hlt, hlow'⟩ := exists_roundWithAccuracy hpos hlow .exact
  rw [Float.Model.UnpackedFloat.normalize, hcompare]
  dsimp only [Float.Model.UnpackedFloat.round, decreaseExponent]
  rw [← hk, hround]
  exact isPositive_pack hn hlt hlow'

/-! ## Differences -/

/-- **What is unpacked from a double.** -/
inductive IsUnpacked : Float.Model.UnpackedFloat → Prop
  | nan : IsUnpacked .notANumber
  | infinity (s : Sign) : IsUnpacked (.infinity s)
  | zero (s : Sign) : IsUnpacked (.zero s)
  | finite (s : Sign) {m : Nat} {q : Int} (hd : IsDouble m q) : IsUnpacked (.finite s m q hd.pos)

theorem isUnpacked_unpack (x : Float) : IsUnpacked x.toModel.unpack := by
  cases h : Binary64.ofFloat x with
  | nan =>
      rw [Binary64.eq_packed_of_nan h]
      exact .nan
  | infinite negative =>
      rw [Binary64.eq_packed_of_infinite h]
      cases negative with
      | true => exact .infinity .negative
      | false => exact .infinity .positive
  | finite negative m q =>
      rcases Nat.eq_zero_or_pos m with rfl | hm
      · rw [Binary64.eq_packed_of_zero h]
        cases negative with
        | true => exact .zero .negative
        | false => exact .zero .positive
      · obtain ⟨hd, rfl⟩ := Binary64.eq_packed_of_finite h hm
        show IsUnpacked (Float.Model.pack (.finite (signOf negative) m q hd.pos)).unpack
        rw [hd.unpack_pack]
        exact .finite _ hd

/-- Exponents are compared first, so that mantissas on a common exponent compare alike. -/
theorem shiftLeft_lt_of_compare {m n : Nat} {q r : Int} (hm : IsDouble m q) (hn : IsDouble n r)
    (h : (compare q r).then (compare m n) = .lt) :
    m <<< (q - min q r).toNat < n <<< (r - min q r).toNat := by
  have hlow := hn.low
  rw [Nat.shiftLeft_eq, Nat.shiftLeft_eq]
  rcases lt_trichotomy q r with hqr | rfl | hqr
  · -- The mantissa on the larger exponent has its leading bit, and is shifted once at least.
    have hdown : (q - min q r).toNat = 0 := by omega
    have hup : 1 ≤ (r - min q r).toNat := by omega
    have hfull : 2 ^ 52 ≤ n := hn.full.resolve_right (by have := hm.low; omega)
    calc m * 2 ^ (q - min q r).toNat = m := by rw [hdown, pow_zero, mul_one]
      _ < 2 ^ 53 := hm.lt
      _ = 2 ^ 52 * 2 ^ 1 := by norm_num
      _ ≤ n * 2 ^ (r - min q r).toNat :=
          Nat.mul_le_mul hfull (Nat.pow_le_pow_right (by norm_num) hup)
  · have hmn : m < n := by
      rw [compare_eq_iff_eq.2 rfl] at h
      exact compare_lt_iff_lt.1 h
    exact Nat.mul_lt_mul_of_pos_right hmn (by positivity)
  · rw [compare_gt_iff_gt.2 hqr] at h
    cases h

theorem apply_sub_pos {s t : Sign} {m n : Nat} {q r : Int} (hm : IsDouble m q)
    (hn : IsDouble n r) (h : Float.Model.UnpackedFloat.lt (.finite s m q hm.pos)
      (.finite t n r hn.pos) = true) :
    0 < t.apply (n <<< (r - min r q).toNat : Nat) - s.apply (m <<< (q - min r q).toNat : Nat) := by
  have hpos : ∀ {k : Nat} (i : Nat), 0 < k → 0 < k <<< i := by
    intro k i hk
    rw [Nat.shiftLeft_eq]
    exact Nat.mul_pos hk (by positivity)
  rw [min_comm r q]
  -- Of two numbers below zero the greater one has the smaller mantissa once both are shifted.
  cases s with
  | positive =>
      cases t with
      | positive =>
          have hcompare : (compare q r).then (compare m n) = .lt :=
            Option.some.inj (beq_iff_eq.1 h)
          have hlt := shiftLeft_lt_of_compare hm hn hcompare
          show (0 : Int) < ((_ : Nat) : Int) - ((_ : Nat) : Int)
          omega
      | negative => cases h
  | negative =>
      cases t with
      | positive =>
          have hleft := hpos (r - min q r).toNat hn.pos
          have hright := hpos (q - min q r).toNat hm.pos
          show (0 : Int) < ((_ : Nat) : Int) - -((_ : Nat) : Int)
          omega
      | negative =>
          have hcompare : ((compare q r).then (compare m n)).swap = .lt :=
            Option.some.inj (beq_iff_eq.1 h)
          have hswap : (compare r q).then (compare n m) = .lt := by
            rw [Ordering.swap_then, Int.compare_swap, Nat.compare_swap] at hcompare
            exact hcompare
          have hlt := shiftLeft_lt_of_compare hn hm hswap
          rw [min_comm r q] at hlt
          show (0 : Int) < -((_ : Nat) : Int) - -((_ : Nat) : Int)
          omega

/-- **A number less a smaller one** is positive. -/
theorem isPositive_sub {u v : Float.Model.UnpackedFloat} (hu : IsUnpacked u) (hv : IsUnpacked v)
    (h : u.lt v = true) : IsPositive (Float.Model.pack (sub Format.binary64 v u)).unpack := by
  have hinfinity : IsPositive (Float.Model.pack (.infinity .positive)).unpack := .infinity
  cases hu with
  | nan => cases h
  | infinity s =>
      cases s with
      | positive =>
          cases hv with
          | nan => cases h
          | infinity t => cases t <;> cases h
          | zero t => cases h
          | finite t hd => cases h
      | negative =>
          cases hv with
          | nan => cases h
          | infinity t =>
              cases t with
              | positive => exact hinfinity
              | negative => cases h
          | zero t => exact hinfinity
          | finite t hd => exact hinfinity
  | zero s =>
      cases hv with
      | nan => cases h
      | infinity t =>
          cases t with
          | positive => exact hinfinity
          | negative => cases h
      | zero t => cases h
      | finite t hd =>
          cases t with
          | positive => exact isPositive_pack hd.pos hd.lt hd.low
          | negative => cases h
  | @finite s m q hm =>
      cases hv with
      | nan => cases h
      | infinity t =>
          cases t with
          | positive => exact hinfinity
          | negative => cases h
      | zero t =>
          cases s with
          | positive => cases h
          | negative => exact isPositive_pack hm.pos hm.lt hm.low
      -- Only here is there anything to subtract; the smallest exponent of the two bounds the
      -- difference.
      | finite t hn =>
          have hlow : -1074 ≤ min _ q := le_min hn.low hm.low
          exact isPositive_normalize (apply_sub_pos hm hn h) hlow .positive

/-- **A double less a smaller one** is positive. -/
theorem zero_lt_sub {x y : Float} (h : Arith.lt x y = true) : Arith.lt 0.0 (y - x) = true := by
  have hlt : x.toModel.unpack.lt y.toModel.unpack = true :=
    of_decide_eq_true (of_decide_eq_true h)
  exact zero_lt_of_isPositive (isPositive_sub (isUnpacked_unpack x) (isUnpacked_unpack y) hlt)

end SiteAnalysis
