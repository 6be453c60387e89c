import SiteAnalysis.Proofs.Number.Rounding

set_option autoImplicit false

/-! # Doubles and their bits

A double is decoded into sign, mantissa and exponent (`Binary64.ofFloat`), and a rounded result is
packed into bits. Main statements:

* `IsDouble.unpack_pack`: unpacking undoes packing, so operations see the mantissa and exponent
  that were packed.
* `Binary64.pack_ofFloat`: packing undoes decoding.
-/

namespace SiteAnalysis

open Float.Model (Format)
open Float.Model.UnpackedFloat

/-! ## Components -/

/-- The bits of some components as a number. -/
theorem toNat_packComponents (s : Sign) (e : BitVec 11) (f : BitVec 52) :
    (packComponents Format.binary64 s e f).toNat =
      (s.toBitVec.toNat * 2 ^ 11 + e.toNat) * 2 ^ 52 + f.toNat := by
  have hse : (s.toBitVec ++ e).toNat = s.toBitVec.toNat * 2 ^ 11 + e.toNat := by
    rw [BitVec.toNat_append, ← Nat.shiftLeft_add_eq_or_of_lt e.isLt, Nat.shiftLeft_eq]
  change (s.toBitVec ++ e ++ f).toNat = _
  rw [BitVec.toNat_append, ← Nat.shiftLeft_add_eq_or_of_lt f.isLt, Nat.shiftLeft_eq, hse]

theorem ofBitVec_unpackSign_packComponents (s : Sign) (e : BitVec 11) (f : BitVec 52) :
    Sign.ofBitVec (unpackSign (packComponents Format.binary64 s e f)) = s := by
  have hsign : (unpackSign (packComponents Format.binary64 s e f)).toNat = s.toBitVec.toNat := by
    change (packComponents Format.binary64 s e f).toNat >>> 63 % 2 = _
    rw [toNat_packComponents, Nat.shiftRight_eq_div_pow]
    have := e.isLt
    have := f.isLt
    have := s.toBitVec.isLt
    omega
  rw [BitVec.eq_of_toNat_eq hsign]
  cases s <;> rfl

theorem toNat_one_append (f : BitVec 52) : (1#1 ++ f).toNat = 2 ^ 52 + f.toNat := by
  rw [BitVec.toNat_append, ← Nat.shiftLeft_add_eq_or_of_lt f.isLt, Nat.shiftLeft_eq]
  rfl

/-! ## Unpacking undoes packing -/

/-- The exponent field of a double: counted from the least exponent, or zero if the mantissa lacks
its leading bit. -/
def exponentField (m : Nat) (q : Int) : Nat := if 2 ^ 52 ≤ m then (q + 1075).toNat else 0

namespace IsDouble

variable {m : Nat} {q : Int} (h : IsDouble m q)
include h

theorem exponentField_lt : exponentField m q < 2047 := by
  have := h.high
  unfold exponentField
  split <;> omega

theorem pack_eq (s : Sign) : pack Format.binary64 (.finite s m q h.pos) =
    packComponents Format.binary64 s (BitVec.ofNat 11 (exponentField m q)) (BitVec.ofNat 52 m) := by
  have hbias : Format.binary64.exponentBias = 1023 := rfl
  have hbits : Format.binary64.mantissaBits = 53 := rfl
  have hlow := h.low
  have hhigh := h.high
  have hfield : (q + (1023 : Nat) + (52 : Nat)).toNat = (q + 1075).toNat := by congr 1; omega
  rw [pack, hbias, hbits, hfield]
  dsimp only
  rw [if_neg (by omega), exponentField]
  by_cases hfull : 2 ^ 52 ≤ m
  · have hlog : m.log2 = 52 := (Nat.log2_eq_iff (by omega)).2 ⟨hfull, h.lt⟩
    rw [if_pos (by omega), if_pos hfull]
  · have hlog : m.log2 < 52 := (Nat.log2_lt h.pos.ne').2 (by omega)
    rw [if_neg (by omega), if_neg hfull]

/-- **What is unpacked from a packed double.** -/
theorem unpack_pack (s : Sign) : (Float.Model.pack (.finite s m q h.pos)).unpack =
    .finite s m q h.pos := by
  have hfield := h.exponentField_lt
  have hlt := h.lt
  have hpos := h.pos
  have hbias : Format.binary64.exponentBias = 1023 := rfl
  have hexponent : (BitVec.ofNat 11 (exponentField m q)).toNat = exponentField m q := by
    rw [BitVec.toNat_ofNat, Nat.mod_eq_of_lt (by omega)]
  have hfinite : BitVec.ofNat 11 (exponentField m q) ≠ -1#_ := fun hall => by
    have hnat := congrArg BitVec.toNat hall
    rw [hexponent] at hnat
    simp only [BitVec.toNat_neg, BitVec.toNat_ofNat] at hnat
    omega
  change unpack Format.binary64 (pack Format.binary64 (.finite s m q h.pos)) = _
  rw [h.pack_eq s, unpack]
  simp only [unpackMantissa_packComponents, unpackExponent_packComponents,
    ofBitVec_unpackSign_packComponents]
  rw [if_neg hfinite, hexponent, hbias]
  -- The leading bit of a full mantissa is implied by an exponent field that is not zero.
  by_cases hfull : 2 ^ 52 ≤ m
  · have hexp : exponentField m q = (q + 1075).toNat := if_pos hfull
    have hlow := h.low
    have hne : BitVec.ofNat 11 (exponentField m q) ≠ 0#_ := fun hzero => by
      have hnat := congrArg BitVec.toNat hzero
      rw [hexponent, hexp] at hnat
      simp only [BitVec.toNat_ofNat] at hnat
      omega
    rw [if_neg hne]
    congr 1
    · change (1#1 ++ BitVec.ofNat 52 m).toNat = m
      rw [toNat_one_append, BitVec.toNat_ofNat]
      omega
    · rw [hexp]
      omega
  · have hexp : exponentField m q = 0 := if_neg hfull
    have hmantissa : (BitVec.ofNat 52 m).toNat = m := by
      rw [BitVec.toNat_ofNat, Nat.mod_eq_of_lt (by omega)]
    have hne : BitVec.ofNat 52 m ≠ 0#_ := fun hzero => by
      have hnat := congrArg BitVec.toNat hzero
      rw [hmantissa] at hnat
      simp only [BitVec.toNat_ofNat] at hnat
      omega
    rw [if_pos (by rw [hexp]), dif_neg hne]
    congr 1
    have := h.full.resolve_left hfull
    rw [hexp]
    omega

end IsDouble

/-! ## Packing undoes decoding -/

/-- The sign of a decoded double. -/
def signOf (negative : Bool) : Sign := if negative then .negative else .positive

theorem toNat_signOf (negative : Bool) : (signOf negative).toBitVec.toNat = negative.toNat := by
  cases negative <;> rfl

/-- The double of an unpacked result. -/
def packed (f : Float.Model.UnpackedFloat) : Float := .ofModel (.pack f)

/-- A double is known by its bits. -/
theorem eq_of_toNat_toBits {x y : Float} (h : x.toBits.toNat = y.toBits.toNat) : x = y := by
  obtain ⟨⟨bits, hbits⟩⟩ := x
  obtain ⟨⟨bits', hbits'⟩⟩ := y
  obtain rfl : bits = bits' := UInt64.toNat_inj.1 h
  rfl

theorem toNat_toBits_packed (f : Float.Model.UnpackedFloat) :
    (packed f).toBits.toNat = (pack Format.binary64 f).toNat := rfl

namespace Binary64

/-- The sign bit of a double. -/
theorem toNat_negative (x : Float) :
    (x.toBits.toNat / 0x8000000000000000 == 1).toNat = x.toBits.toNat / 2 ^ 63 := by
  have hlt : x.toBits.toNat < 2 ^ 64 := x.toBits.toNat_lt
  rcases (by omega : x.toBits.toNat / 0x8000000000000000 = 0 ∨
    x.toBits.toNat / 0x8000000000000000 = 1) with h | h <;> simp [h]

theorem ofFloat_eq (x : Float) : ofFloat x =
    let negative := x.toBits.toNat / 0x8000000000000000 == 1
    if x.toBits.toNat / 2 ^ 52 % 2 ^ 11 = 2047 then
      if x.toBits.toNat % 2 ^ 52 = 0 then infinite negative else nan
    else if x.toBits.toNat / 2 ^ 52 % 2 ^ 11 = 0 then
      finite negative (x.toBits.toNat % 2 ^ 52) (-1074)
    else
      finite negative (x.toBits.toNat % 2 ^ 52 + 2 ^ 52)
        ((x.toBits.toNat / 2 ^ 52 % 2 ^ 11 : Nat) - 1075) := rfl

variable {x : Float} {negative : Bool}

/-- **A finite double is packed from its mantissa and exponent**, which are those of a double. -/
theorem eq_packed_of_finite {m : Nat} {q : Int} (h : ofFloat x = finite negative m q)
    (hm : 0 < m) : ∃ hd : IsDouble m q, x = packed (.finite (signOf negative) m q hd.pos) := by
  have hlt : x.toBits.toNat < 2 ^ 64 := x.toBits.toNat_lt
  have hsign := toNat_negative x
  rw [ofFloat_eq] at h
  split at h
  · split at h <;> cases h
  split at h
  · obtain ⟨rfl, rfl, rfl⟩ := finite.inj h
    have hd : IsDouble (x.toBits.toNat % 2 ^ 52) (-1074) :=
      ⟨hm, by omega, le_rfl, by norm_num, .inr rfl⟩
    refine ⟨hd, eq_of_toNat_toBits ?_⟩
    rw [toNat_toBits_packed, hd.pack_eq, toNat_packComponents, toNat_signOf, hsign,
      BitVec.toNat_ofNat, BitVec.toNat_ofNat, exponentField, if_neg (by omega)]
    omega
  · obtain ⟨rfl, rfl, rfl⟩ := finite.inj h
    have hd : IsDouble (x.toBits.toNat % 2 ^ 52 + 2 ^ 52)
        ((x.toBits.toNat / 2 ^ 52 % 2 ^ 11 : Nat) - 1075) :=
      ⟨by omega, by omega, by omega, by omega, .inl (by omega)⟩
    refine ⟨hd, eq_of_toNat_toBits ?_⟩
    rw [toNat_toBits_packed, hd.pack_eq, toNat_packComponents, toNat_signOf, hsign,
      BitVec.toNat_ofNat, BitVec.toNat_ofNat, exponentField, if_pos (by omega)]
    omega

theorem eq_packed_of_zero {q : Int} (h : ofFloat x = finite negative 0 q) :
    x = packed (.zero (signOf negative)) := by
  have hlt : x.toBits.toNat < 2 ^ 64 := x.toBits.toNat_lt
  have hsign := toNat_negative x
  rw [ofFloat_eq] at h
  split at h
  · split at h <;> cases h
  split at h
  · obtain ⟨rfl, hm, -⟩ := finite.inj h
    refine eq_of_toNat_toBits ?_
    change _ = (packComponents Format.binary64 (signOf _) 0#11 0#52).toNat
    rw [toNat_packComponents, toNat_signOf, hsign]
    simp only [BitVec.toNat_ofNat]
    omega
  · obtain ⟨-, hm, -⟩ := finite.inj h
    omega

theorem eq_packed_of_infinite (h : ofFloat x = infinite negative) :
    x = packed (.infinity (signOf negative)) := by
  have hlt : x.toBits.toNat < 2 ^ 64 := x.toBits.toNat_lt
  have hsign := toNat_negative x
  rw [ofFloat_eq] at h
  split at h
  · split at h <;> cases h
    refine eq_of_toNat_toBits ?_
    change _ = (packComponents Format.binary64 (signOf _) (-1#11) 0#52).toNat
    rw [toNat_packComponents, toNat_signOf, hsign]
    simp only [BitVec.toNat_ofNat, BitVec.toNat_neg]
    omega
  · split at h <;> cases h

/-- There is one double that is no number. -/
theorem eq_packed_of_nan (h : ofFloat x = nan) : x = packed .notANumber := by
  have hlt : x.toBits.toNat < 2 ^ 64 := x.toBits.toNat_lt
  have hexponent : (@unpackExponent Format.binary64 x.toModel.toBits.toBitVec).toNat =
      x.toBits.toNat / 2 ^ 52 % 2 ^ 11 := by
    change x.toBits.toNat >>> 52 % 2 ^ 11 = _
    rw [Nat.shiftRight_eq_div_pow]
  have hmantissa : (@unpackMantissa Format.binary64 x.toModel.toBits.toBitVec).toNat =
      x.toBits.toNat % 2 ^ 52 := rfl
  rw [ofFloat_eq] at h
  have hfields : x.toBits.toNat / 2 ^ 52 % 2 ^ 11 = 2047 ∧ x.toBits.toNat % 2 ^ 52 ≠ 0 := by
    split at h
    · split at h
      · cases h
      · exact ⟨by assumption, by assumption⟩
    · split at h <;> cases h
  -- All such words are stored as one.
  have hvalid := x.toModel.valid.eq_packedNaN
  refine eq_of_toNat_toBits (congrArg BitVec.toNat (hvalid ?_ ?_))
  · refine BitVec.eq_of_toNat_eq ?_
    rw [hexponent]
    simp only [BitVec.toNat_neg, BitVec.toNat_ofNat]
    omega
  · intro hzero
    have hnat := congrArg BitVec.toNat hzero
    rw [hmantissa] at hnat
    simp only [BitVec.toNat_ofNat] at hnat
    omega

end Binary64

/-! ## Signs -/

/-- The opposite of a double. -/
theorem IsDouble.neg_packed {m : Nat} {q : Int} (h : IsDouble m q) :
    -packed (.finite .positive m q h.pos) = packed (.finite .negative m q h.pos) := by
  change packed (Float.Model.pack (.finite .positive m q h.pos)).unpack.neg = _
  rw [h.unpack_pack]
  rfl

end SiteAnalysis
