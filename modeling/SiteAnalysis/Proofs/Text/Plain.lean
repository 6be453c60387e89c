import SiteAnalysis.Proofs.Scalar.Identifier

set_option autoImplicit false

/-! # Plain texts and names

Texts that are written as arguments without quotes (`IsPlain`), texts that can be written on a line
at all (`FitsLine`), and names without regard to case. What reading makes of texts stays in some
classes of texts (`IsTextClass`); those that fit on a line are one (`isTextClass_fitsLine`).
-/

namespace SiteAnalysis

/-! ## Plain texts -/

/-- A character that may stand in an argument without quotes. -/
def isPlainChar (c : Char) : Bool := !isBlank c && c != '#' && !Argument.isQuote c

/-- **Whether a text is written as an argument without quotes.** -/
def IsPlain (s : String) : Prop := s.toList ≠ [] ∧ ∀ c ∈ s.toList, isPlainChar c = true

instance (s : String) : Decidable (IsPlain s) :=
  decidable_of_iff ((!s.toList.isEmpty && s.toList.all isPlainChar) = true) (by simp [IsPlain])

theorem isPlain_iff {s : String} : IsPlain s ↔ Argument.needsQuotes s = false := by
  simp only [IsPlain, isPlainChar, Argument.needsQuotes, Bool.or_eq_false_iff, List.any_eq_false]
  constructor
  · rintro ⟨hne, hall⟩
    refine ⟨by simpa using hne, fun c hc => ?_⟩
    have := hall c hc
    simp_all
  · rintro ⟨hne, hall⟩
    refine ⟨by simpa using hne, fun c hc => ?_⟩
    have := hall c hc
    simp_all

/-- Whether a text can be written as an argument on a line. -/
def FitsLine (a : String) : Prop := isWritable a = true ∧ '\n' ∉ a.toList

namespace IsPlain

variable {s : String} (h : IsPlain s)
include h

theorem quote : SiteAnalysis.quote s = s := by
  simp [SiteAnalysis.quote, isPlain_iff.1 h]

theorem not_mem {c : Char} (hc : isPlainChar c = false) : c ∉ s.toList := fun hmem => by
  simp [h.2 c hmem] at hc

theorem isBlank {c : Char} (hc : c ∈ s.toList) : SiteAnalysis.isBlank c = false := by
  have := h.2 c hc
  simp_all [isPlainChar]

theorem fitsLine : FitsLine s := by
  have hquote : '\'' ∉ s.toList := h.not_mem (by decide)
  exact ⟨by simp [isWritable, hquote], h.not_mem (by decide)⟩

theorem trim : SiteAnalysis.trim s = s := by
  have htrimmed : IsTrimmed s.toList := ⟨fun c hc => h.isBlank (List.mem_of_mem_head? hc),
    fun c hc => h.isBlank (List.mem_of_mem_getLast? hc)⟩
  rw [SiteAnalysis.trim, trimBlanks_of_isTrimmed htrimmed, String.ofList_toList]

end IsPlain

theorem isPlainChar_of_isWordChar {c : Char} (hc : isWordChar c = true) :
    isPlainChar c = true := by
  have hrange := toNat_of_isWordChar hc
  have hblank := isBlank_of_toNat hrange
  have hne : ∀ d : Char, d.toNat < 48 → c ≠ d := by
    rintro d hd rfl
    omega
  simp [isPlainChar, hblank, Argument.isQuote, hne '#' (by decide), hne '\'' (by decide),
    hne '"' (by decide)]

/-! ## Names without regard to case -/

theorem sameName_congr_right {s t : String} (h : sameName s t = true) (u : String) :
    sameName u s = sameName u t := by
  rw [Bool.eq_iff_iff, sameName_iff, sameName_iff, sameName_iff.1 h]

theorem sameName_comm (s t : String) : sameName s t = sameName t s := by
  rw [Bool.eq_iff_iff, sameName_iff, sameName_iff, eq_comm]

/-- A character before the letters stays itself in lower case, and no other becomes it. -/
theorem toLower_eq_iff {c d : Char} (hc : c.toNat < 65) : d.toLower = c ↔ d = c := by
  by_cases hupper : d.val ≥ 'A'.val ∧ d.val ≤ 'Z'.val
  · have hrange : 65 ≤ d.toNat ∧ d.toNat ≤ 90 := by
      simp only [ge_iff_le, UInt32.le_iff_toNat_le] at hupper
      exact hupper
    have hlower : d.toLower.toNat = d.toNat + 32 := by
      rw [Char.toLower, dif_pos hupper]
      change (d.val + 32).toNat = _
      rw [UInt32.toNat_add]
      have : d.val.toNat = d.toNat := rfl
      have h32 : (32 : UInt32).toNat = 32 := rfl
      omega
    constructor <;> rintro rfl <;> omega
  · rw [Char.toLower, dif_neg hupper]

theorem mem_toList_iff_of_sameName {s t : String} (h : sameName s t = true) {c : Char}
    (hc : c.toNat < 65) : c ∈ s.toList ↔ c ∈ t.toList := by
  have hmap : s.toList.map Char.toLower = t.toList.map Char.toLower := by
    simpa [sameName] using h
  have hmem : ∀ u : String, c ∈ u.toList ↔ c ∈ u.toList.map Char.toLower := fun u => by
    simp [List.mem_map, toLower_eq_iff hc]
  rw [hmem s, hmem t, hmap]

/-! ## Classes of texts -/

/-- **A class of texts that reading stays in**: it holds plain texts, and with a text what trimming
leaves of it and all that differ from it in case only. -/
structure IsTextClass (P : String → Prop) : Prop where
  plain : ∀ {s : String}, IsPlain s → P s
  trim : ∀ {s : String}, P s → P (trim s)
  same : ∀ {s t : String}, sameName s t = true → P s → P t

theorem isTextClass_true : IsTextClass fun _ => True :=
  ⟨fun _ => trivial, fun _ => trivial, fun _ _ => trivial⟩

theorem mem_toList_of_mem_trim {s : String} {c : Char} (h : c ∈ (trim s).toList) :
    c ∈ s.toList := by
  rw [trim, String.toList_ofList, trimBlanks, List.mem_reverse] at h
  have hreversed := (List.dropWhile_suffix _).subset h
  rw [List.mem_reverse] at hreversed
  exact (List.dropWhile_suffix _).subset hreversed

theorem isWritable_iff {s : String} :
    isWritable s = true ↔ '\'' ∉ s.toList ∨ '"' ∉ s.toList := by
  simp [isWritable, ← Bool.not_eq_true]

/-- **The texts that fit on a line are such a class.** -/
theorem isTextClass_fitsLine : IsTextClass FitsLine where
  plain h := h.fitsLine
  trim := by
    rintro s ⟨hwritable, hfeed⟩
    rw [isWritable_iff] at hwritable
    exact ⟨isWritable_iff.2 (hwritable.imp (mt mem_toList_of_mem_trim) (mt mem_toList_of_mem_trim)),
      mt mem_toList_of_mem_trim hfeed⟩
  same := by
    rintro s t hsame ⟨hwritable, hfeed⟩
    rw [isWritable_iff, mem_toList_iff_of_sameName hsame (by decide),
      mem_toList_iff_of_sameName hsame (by decide)] at hwritable
    rw [mem_toList_iff_of_sameName hsame (by decide)] at hfeed
    exact ⟨isWritable_iff.2 hwritable, hfeed⟩

end SiteAnalysis
