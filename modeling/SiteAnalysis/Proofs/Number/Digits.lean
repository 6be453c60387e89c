import SiteAnalysis.Proofs.Number.Rounding

set_option autoImplicit false

/-! # Shortest digits

The digits chosen for a double are looked for on finer and finer grids of decimal numbers. Main
statement:

* `Decimal.roundsTo_shortest`: the decimal number that is chosen rounds to the double.

A grid of seventeen digits is finer than the interval of rounding (`den_lt_of_magnitude`), so the
search ends with success (`onGrid_isSome`).
-/

namespace SiteAnalysis

namespace Decimal

/-- The number a decimal stands for. -/
def value (d : Decimal) : ℚ := d.digits * 10 ^ d.exponent

/-! ## Ratios -/

theorem zpow_eq_div {b : ℚ} (hb : b ≠ 0) (n : Int) : b ^ n = b ^ n.toNat / b ^ (-n).toNat := by
  rw [← zpow_natCast, ← zpow_natCast, ← zpow_sub₀ hb]
  congr 1
  omega

/-- A ratio is `m * 2 ^ q` in units of `10 ^ p`. -/
theorem ratio_mul (m : Nat) (q p : Int) :
    ((ratio m q p).1 : ℚ) * 10 ^ p = (ratio m q p).2 * (m * 2 ^ q) := by
  have htwo : (2 : ℚ) ^ (-q).toNat ≠ 0 := pow_ne_zero _ (by norm_num)
  have hten : (10 : ℚ) ^ (-p).toNat ≠ 0 := pow_ne_zero _ (by norm_num)
  rw [zpow_eq_div (by norm_num) p, zpow_eq_div (by norm_num) q, ratio]
  simp only [Nat.pow_eq]
  push_cast
  field_simp

theorem ratio_snd_pos (m : Nat) (q p : Int) : 0 < (ratio m q p).2 :=
  Nat.mul_pos (Nat.pow_pos (by norm_num)) (Nat.pow_pos (by norm_num))

theorem ratio_one_fst_pos (q p : Int) : 0 < (ratio 1 q p).1 :=
  Nat.mul_pos (Nat.mul_pos Nat.one_pos (Nat.pow_pos (by norm_num))) (Nat.pow_pos (by norm_num))

theorem powerLe_iff (m : Nat) (q p : Int) :
    powerLe m q p = true ↔ (10 : ℚ) ^ p ≤ m * 2 ^ q := by
  have hden : (0 : ℚ) < (ratio m q p).2 := by exact_mod_cast ratio_snd_pos m q p
  have hp : (0 : ℚ) < 10 ^ p := zpow_pos (by norm_num) p
  have hle : powerLe m q p = true ↔ ((ratio m q p).2 : ℚ) ≤ (ratio m q p).1 := by
    simp [powerLe]
  rw [hle, ← mul_le_mul_iff_of_pos_right hp, ratio_mul, mul_le_mul_iff_of_pos_left hden]

/-! ## The size of a double -/

/-- The estimate of a decimal logarithm from a binary one is not two too large. -/
theorem ten_zpow_guess_le {n : Int} (hlow : -1100 < n) (hhigh : n < 1100) :
    (10 : ℚ) ^ (n * 30103 / 100000 - 1) ≤ 2 ^ n := by
  have hup : ∀ k < 1100, 10 ^ (k * 30103 / 100000) ≤ 10 * 2 ^ k := by decide +kernel
  have hdown : ∀ k < 1100, 2 ^ k ≤ 10 ^ ((k * 30103 + 99999) / 100000 + 1) := by decide +kernel
  rcases le_or_gt 0 n with hn | hn
  · obtain ⟨k, rfl⟩ := Int.eq_ofNat_of_zero_le hn
    have hk : ((10 ^ (k * 30103 / 100000) : Nat) : ℚ) ≤ (10 * 2 ^ k : Nat) := by
      exact_mod_cast hup k (by omega)
    have hguess : (k * 30103 / 100000 : Int) = (k * 30103 / 100000 : Nat) := by omega
    rw [hguess, zpow_sub₀ (by norm_num), zpow_natCast, zpow_one, zpow_natCast,
      div_le_iff₀ (by norm_num)]
    push_cast at hk
    linarith
  · obtain ⟨k, hk⟩ : ∃ k : Nat, n = -k := ⟨n.natAbs, by omega⟩
    have hle : ((2 ^ k : Nat) : ℚ) ≤ (10 ^ ((k * 30103 + 99999) / 100000 + 1) : Nat) := by
      exact_mod_cast hdown k (by omega)
    have hguess : n * 30103 / 100000 - 1 = -(((k * 30103 + 99999) / 100000 + 1 : Nat) : Int) := by
      omega
    rw [hguess, hk, zpow_neg, zpow_neg, zpow_natCast, zpow_natCast]
    push_cast at hle
    exact inv_anti₀ (by positivity) hle

theorem ten_zpow_magnitude_le {m : Nat} {q : Int} (hd : IsDouble m q) :
    (10 : ℚ) ^ magnitude m q ≤ m * 2 ^ q := by
  unfold magnitude
  dsimp only
  split_ifs with habove hguess
  · exact (powerLe_iff _ _ _).1 habove
  · exact (powerLe_iff _ _ _).1 hguess
  · have hlow := hd.low
    have hhigh := hd.high
    have hlog : m.log2 < 53 := (Nat.log2_lt hd.pos.ne').2 hd.lt
    calc (10 : ℚ) ^ (((m.log2 : Int) + q) * 30103 / 100000 - 1) ≤ 2 ^ ((m.log2 : Int) + q) :=
          ten_zpow_guess_le (by omega) (by omega)
      _ = 2 ^ m.log2 * 2 ^ q := by rw [zpow_add₀ (by norm_num), zpow_natCast]
      _ ≤ m * 2 ^ q := by
          have hq : (0 : ℚ) < 2 ^ q := zpow_pos (by norm_num) q
          gcongr
          exact_mod_cast Nat.log2_self_le hd.pos.ne'

/-! ## Neighbours on a grid -/

section

variable {m : Nat} {q : Int} (hd : IsDouble m q) (tie : Tie)

theorem below_eq (m : Nat) (q : Int) :
    (rounding m q).below = if m = 2 ^ 52 ∧ q > -1074 then 1 else 2 := rfl

include hd

theorem below_le : (rounding m q).below ≤ 4 * m := by
  have := hd.pos
  rw [below_eq]
  split <;> omega

/-- **What is contained in the interval rounds to the double.** -/
theorem roundsTo_of_contains {p : Int} {c : Nat}
    (h : (rounding m q).contains (ratio 1 (q - 2) p).1 c (ratio 1 (q - 2) p).2 = true) :
    RoundsTo m q (c * 10 ^ p) := by
  have hratio := ratio_mul 1 (q - 2) p
  have hden : (0 : ℚ) < (ratio 1 (q - 2) p).2 := by exact_mod_cast ratio_snd_pos 1 (q - 2) p
  generalize ratio 1 (q - 2) p = grid at h hratio hden
  obtain ⟨unit, den⟩ := grid
  -- Both the unit of the interval and that of the grid are multiples of this number.
  obtain ⟨w, hw⟩ : ∃ w : ℚ, w = 10 ^ p / den := ⟨_, rfl⟩
  have hwpos : 0 < w := by
    rw [hw]
    exact div_pos (zpow_pos (by norm_num) p) hden
  have hgrid : (10 : ℚ) ^ p = den * w := by
    rw [hw]
    field_simp
  have hquarter : (2 : ℚ) ^ q = 4 * (unit * w) := by
    have htwo : (2 : ℚ) ^ q = 4 * 2 ^ (q - 2) := by
      rw [zpow_sub₀ (by norm_num)]
      norm_num
      ring
    rw [htwo, hw]
    field_simp
    push_cast at hratio
    linarith
  have hbelow : ((4 * m - (rounding m q).below : Nat) : ℚ) = 4 * m - (rounding m q).below := by
    rw [Nat.cast_sub (below_le hd)]
    push_cast
    ring
  have hlow : (m - lowerMargin m q) * 2 ^ q =
      ((4 * m - (rounding m q).below : Nat) : ℚ) * unit * w := by
    rw [hbelow, hquarter, lowerMargin]
    ring
  have hhigh : ((m : ℚ) + 1 / 2) * 2 ^ q = (4 * m + 2 : Nat) * unit * w := by
    rw [hquarter]
    push_cast
    ring
  rw [hgrid, ← mul_assoc]
  unfold Rounding.contains at h
  split_ifs at h with hclosed
  · have heven : m % 2 = 0 := by simpa [rounding] using hclosed
    obtain ⟨hl, hr⟩ : _ ∧ _ := by simpa using h
    have hl : ((4 * m - (rounding m q).below : Nat) : ℚ) * unit ≤ c * den := by exact_mod_cast hl
    have hr : (c : ℚ) * den ≤ (4 * m + 2 : Nat) * unit := by exact_mod_cast hr
    refine ⟨?_, ?_, fun hodd => by omega⟩
    · rw [hlow]
      gcongr
    · rw [hhigh]
      gcongr
  · obtain ⟨hl, hr⟩ : _ ∧ _ := by simpa using h
    have hl : ((4 * m - (rounding m q).below : Nat) : ℚ) * unit < c * den := by exact_mod_cast hl
    have hr : (c : ℚ) * den < (4 * m + 2 : Nat) * unit := by exact_mod_cast hr
    have hl : (m - lowerMargin m q) * 2 ^ q < c * den * w := by
      rw [hlow]
      gcongr
    have hr : c * den * w < (m + 1 / 2) * 2 ^ q := by
      rw [hhigh]
      gcongr
    exact ⟨hl.le, hr.le, fun _ => ⟨hl, hr⟩⟩

omit hd in
/-- A neighbour that is taken is contained. -/
theorem contains_of_onGrid {r : Rounding} {p : Int} {d : Nat} (h : r.onGrid tie q p = some d) :
    r.contains (ratio 1 (q - 2) p).1 d (ratio 1 (q - 2) p).2 = true := by
  unfold Rounding.onGrid at h
  dsimp only at h
  split_ifs at h with hupper hboth hlower
  · obtain rfl := Option.some.inj h
    exact (Bool.and_eq_true_iff.1 hboth).1
  · obtain rfl := Option.some.inj h
    exact hupper
  · obtain rfl := Option.some.inj h
    exact hlower

omit hd in
/-- What lies strictly between the ends is contained. -/
theorem contains_of_between {r : Rounding} {unit c den : Nat}
    (hlow : (4 * r.mantissa - r.below) * unit < c * den)
    (hhigh : c * den < (4 * r.mantissa + 2) * unit) : r.contains unit c den = true := by
  unfold Rounding.contains
  split_ifs <;> simp [hlow, hhigh, hlow.le, hhigh.le]

/-- A grid of seventeen digits is finer than four units, and finer than two where the interval is
shorter. -/
theorem den_lt_of_magnitude {unit den : Nat}
    (hratio : (unit : ℚ) * 10 ^ (magnitude m q - 16) = den * 2 ^ (q - 2)) (hden : 0 < den)
    (hunit : 0 < unit) : den < (2 * (rounding m q).below) * unit := by
  -- The mantissa is at least the power of ten that its digits begin with.
  have hfine : 10 ^ 16 * den ≤ 4 * m * unit := by
    have hp : (0 : ℚ) < 10 ^ (magnitude m q - 16) := zpow_pos (by norm_num) _
    have hmagnitude := ten_zpow_magnitude_le hd
    have hsplit : (10 : ℚ) ^ magnitude m q = 10 ^ 16 * 10 ^ (magnitude m q - 16) := by
      rw [zpow_sub₀ (by norm_num)]
      norm_num
      ring
    have hquarter : (2 : ℚ) ^ q = 4 * 2 ^ (q - 2) := by
      rw [zpow_sub₀ (by norm_num)]
      norm_num
      ring
    have hle : (10 : ℚ) ^ 16 * den ≤ 4 * m * unit := by
      refine le_of_mul_le_mul_right ?_ hp
      calc (10 : ℚ) ^ 16 * den * 10 ^ (magnitude m q - 16)
          = den * 10 ^ magnitude m q := by rw [hsplit]; ring
        _ ≤ den * (m * 2 ^ q) := by gcongr
        _ = 4 * m * (den * 2 ^ (q - 2)) := by rw [hquarter]; ring
        _ = 4 * m * unit * 10 ^ (magnitude m q - 16) := by rw [← hratio]; ring
    exact_mod_cast hle
  have hlt := hd.lt
  rw [below_eq]
  split_ifs with hpower
  · rw [hpower.1] at hfine
    omega
  · have : 4 * m * unit ≤ 4 * 2 ^ 53 * unit := by gcongr
    omega

/-- **On a grid of seventeen digits one of the neighbours is taken.** -/
theorem onGrid_isSome : ((rounding m q).onGrid tie q (magnitude m q - 16)).isSome = true := by
  have hratio := ratio_mul 1 (q - 2) (magnitude m q - 16)
  have hden := ratio_snd_pos 1 (q - 2) (magnitude m q - 16)
  have hunit := ratio_one_fst_pos (q - 2) (magnitude m q - 16)
  unfold Rounding.onGrid
  generalize ratio 1 (q - 2) (magnitude m q - 16) = grid at hratio hden hunit ⊢
  obtain ⟨unit, den⟩ := grid
  dsimp only at hratio hden hunit ⊢
  have hfine := den_lt_of_magnitude hd (by push_cast at hratio; linarith) hden hunit
  have hm : (rounding m q).mantissa = m := rfl
  rw [hm]
  obtain ⟨lower, hlower⟩ : ∃ lower, lower = 4 * m * unit / den := ⟨_, rfl⟩
  rw [← hlower]
  have hone : (rounding m q).contains unit (lower + 1) den = true ∨
      (rounding m q).contains unit lower den = true := by
    -- The double lies between the neighbours, and the interval is longer than their distance.
    have hle : lower * den ≤ 4 * m * unit := hlower ▸ Nat.div_mul_le_self _ _
    have hnext : (lower + 1) * den = lower * den + den := Nat.succ_mul _ _
    have hlt : 4 * m * unit < lower * den + den := by
      rw [← hnext, hlower, mul_comm (_ + 1)]
      exact Nat.lt_mul_div_succ _ hden
    have hunits : 4 * unit ≤ 4 * m * unit := by
      have := hd.pos
      gcongr
      omega
    have hlow : (4 * m - (rounding m q).below) * unit =
        4 * m * unit - (rounding m q).below * unit := Nat.sub_mul _ _ _
    have hhigh : (4 * m + 2) * unit = 4 * m * unit + 2 * unit := Nat.add_mul _ _ _
    have hbelow : (rounding m q).below = 1 ∨ (rounding m q).below = 2 := by
      rw [below_eq]
      split <;> simp
    by_cases hclose : lower * den + den < (4 * m + 2) * unit
    · refine Or.inl (contains_of_between ?_ ?_) <;> rw [hm, hnext]
      · rcases hbelow with h | h <;> rw [h] at hlow ⊢ <;> omega
      · exact hclose
    · refine Or.inr (contains_of_between ?_ ?_) <;> rw [hm]
      · rcases hbelow with h | h <;> rw [h] at hfine hlow ⊢ <;> omega
      · omega
  split_ifs <;> simp_all

omit hd in
/-- The search ends with what is contained if a grid it comes to has a neighbour that is. -/
theorem search_contains {r : Rounding} {n : Nat} {p : Int}
    (h : (r.onGrid tie q (p - n)).isSome = true) :
    ∃ p', (r.search tie q (n + 1) p).exponent = p' ∧
      r.contains (ratio 1 (q - 2) p').1 (r.search tie q (n + 1) p).digits
        (ratio 1 (q - 2) p').2 = true := by
  induction n generalizing p with
  | zero =>
      obtain ⟨d, hd⟩ := Option.isSome_iff_exists.1 h
      have hd : r.onGrid tie q p = some d := by simpa using hd
      simp only [Rounding.search, hd]
      exact ⟨p, rfl, contains_of_onGrid tie hd⟩
  | succ n ih =>
      rw [Rounding.search]
      split
      · rename_i d hd
        exact ⟨p, rfl, contains_of_onGrid tie hd⟩
      · refine ih ?_
        rw [← h]
        congr 2
        push_cast
        ring

/-- **The shortest digits of a double are read as the double.** -/
theorem roundsTo_shortest : RoundsTo m q (shortest tie m q).value := by
  obtain ⟨p, rfl, hcontains⟩ := search_contains (n := 16) tie (onGrid_isSome hd tie)
  exact roundsTo_of_contains hd hcontains

end

end Decimal

end SiteAnalysis
