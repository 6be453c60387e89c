import SiteAnalysis.Proofs.Number.Printing

set_option autoImplicit false

/-! # Decimal numbers by their parts

What `readDecimal?` reads is made up of digits, of a point with the digits behind it, and of an
exponent with its mark (`Numeral`). It reads exactly the texts that are made up so
(`readDecimal?_chars`, `Numeral.exists_of_readDecimal?`), and takes both marks of an exponent for
the same (`Numeral.value_marked`).
-/

namespace SiteAnalysis

/-! ## Signs and digits -/

theorem ne_of_isDigit {c d : Char} (hc : c.isDigit = true) (hd : d.isDigit = false) : c ≠ d := by
  rintro rfl
  cases hc.symm.trans hd

theorem AreDigits.not_mem {ds : List Char} (h : AreDigits ds) {c : Char}
    (hc : c.isDigit = false) : c ∉ ds := fun hmem => ne_of_isDigit (h c hmem) hc rfl

/-- A digit stands nowhere among other characters. -/
theorem notMem_of_isDigit {c : Char} (hc : c.isDigit = true) {cs : List Char}
    (hcs : cs.any Char.isDigit = false) : c ∉ cs := fun hmem =>
  absurd hc (List.any_eq_false.1 hcs c hmem)

theorem areDigits_of_readNat? {cs : List Char} {n : Nat} (h : readNat? cs = some n) :
    cs ≠ [] ∧ AreDigits cs := by
  unfold readNat? at h
  obtain ⟨hcs, -⟩ := Option.ite_none_left_eq_some.1 h
  simpa [AreDigits] using hcs

/-- A text has a sign in front or none. -/
theorem readSign_cases (cs : List Char) : readSign cs = (false, cs) ∨
    (∃ rest, cs = '-' :: rest ∧ readSign cs = (true, rest)) ∨
      ∃ rest, cs = '+' :: rest ∧ readSign cs = (false, rest) := by
  unfold readSign
  split
  · next rest => exact Or.inr (Or.inl ⟨rest, rfl, rfl⟩)
  · next rest => exact Or.inr (Or.inr ⟨rest, rfl, rfl⟩)
  · exact Or.inl rfl

/-- **What an exponent looks like**: digits, with a sign in front or none. -/
theorem exists_of_readExponent? {es : List Char} (h : (readExponent? es).isSome = true) :
    ∃ c ds, es = c :: ds ∧ AreDigits ds ∧
      (c.isDigit = true ∨ (c = '+' ∨ c = '-') ∧ ds ≠ []) := by
  have hdigits : (readSign es).2 ≠ [] ∧ AreDigits (readSign es).2 := by
    cases hnat : readNat? (readSign es).2 with
    | some m => exact areDigits_of_readNat? hnat
    | none => simp [readExponent?, hnat] at h
  obtain hsign | ⟨rest, rfl, hsign⟩ | ⟨rest, rfl, hsign⟩ := readSign_cases es
  all_goals rw [hsign] at hdigits
  · obtain ⟨c, ds, rfl⟩ := List.exists_cons_of_ne_nil hdigits.1
    exact ⟨c, ds, rfl, fun d hd => hdigits.2 d (by simp [hd]), Or.inl (hdigits.2 c (by simp))⟩
  · exact ⟨'-', rest, rfl, hdigits.2, Or.inr ⟨by simp, hdigits.1⟩⟩
  · exact ⟨'+', rest, rfl, hdigits.2, Or.inr ⟨by simp, hdigits.1⟩⟩

/-! ## Parts -/

/-- **The parts of a decimal number**: the digits before the point, those behind it if there is a
point, and the exponent with its mark if there is one. -/
structure Numeral where
  whole : List Char
  fraction : Option (List Char)
  exponent : Option (Char × List Char)

namespace Numeral

/-- The text of the point and of the digits behind it. -/
def fractionChars (n : Numeral) : List Char :=
  match n.fraction with
  | none => []
  | some ds => '.' :: ds

/-- The text of the exponent. -/
def exponentChars (n : Numeral) : List Char :=
  match n.exponent with
  | none => []
  | some (mark, es) => mark :: es

/-- **The text of a decimal number.** -/
def chars (n : Numeral) : List Char := n.whole ++ (n.fractionChars ++ n.exponentChars)

/-- The digits before and behind the point. -/
def digits (n : Numeral) : List Char := n.whole ++ n.fraction.getD []

/-- The number that the exponent stands for. -/
def power (n : Numeral) : Int :=
  match n.exponent with
  | none => 0
  | some (_, es) => (readExponent? es).getD 0

/-- **The double that a decimal number stands for.** -/
def value (n : Numeral) : Float :=
  nearestDouble (digitsValue n.digits) (n.power - (n.fraction.getD []).length)

/-- **Decimal numbers as they are read**: with at least one digit, and a mark and a number for the
exponent. -/
structure WellFormed (n : Numeral) : Prop where
  whole : AreDigits n.whole
  fraction : ∀ ds ∈ n.fraction, AreDigits ds
  digits : n.digits ≠ []
  mark : ∀ e ∈ n.exponent, e.1 = 'e' ∨ e.1 = 'E'
  exponent : ∀ e ∈ n.exponent, (readExponent? e.2).isSome = true

/-- The number with another mark in its exponent. -/
def marked (mark : Char) (n : Numeral) : Numeral :=
  { n with exponent := n.exponent.map fun e => (mark, e.2) }

theorem value_marked (mark : Char) (n : Numeral) : (n.marked mark).value = n.value := by
  have hpower : (n.marked mark).power = n.power := by
    unfold power marked
    cases n.exponent <;> rfl
  unfold value
  rw [hpower]
  rfl

theorem WellFormed.marked {n : Numeral} (h : n.WellFormed) : (n.marked 'e').WellFormed := by
  refine ⟨h.whole, h.fraction, h.digits, ?_, ?_⟩
  · intro e he
    obtain ⟨e', -, rfl⟩ := Option.map_eq_some_iff.1 he
    exact Or.inl rfl
  · intro e he
    obtain ⟨e', he', rfl⟩ := Option.map_eq_some_iff.1 he
    exact h.exponent e' he'

/-! ## Reading a decimal number -/

/-- The exponent behind the digits, which is zero if nothing follows them. -/
def exponentOf? (rest : List Char) : Option Int :=
  match rest with
  | [] => some 0
  | c :: rest => if c == 'e' || c == 'E' then readExponent? rest else none

section

variable {whole ds tail : List Char} (hwhole : AreDigits whole)
  (htail : ∀ c ∈ tail.head?, c.isDigit = false)
include hwhole htail

theorem readDecimal?_whole (hpoint : '.' ∉ tail.head?) : readDecimal? (whole ++ tail) =
    if whole.isEmpty then none
    else (exponentOf? tail).map fun e => nearestDouble (digitsValue whole) e := by
  obtain ⟨htake, hdrop⟩ := hwhole.span tail htail
  unfold readDecimal?
  simp only [htake, hdrop]
  split
  · next rest => simp at hpoint
  · cases tail <;> simp [exponentOf?]

theorem readDecimal?_point (hds : AreDigits ds) : readDecimal? (whole ++ '.' :: (ds ++ tail)) =
    if whole.isEmpty && ds.isEmpty then none
    else (exponentOf? tail).map fun e => nearestDouble (digitsValue (whole ++ ds)) (e - ds.length) := by
  obtain ⟨htake, hdrop⟩ := hwhole.span ('.' :: (ds ++ tail)) (by simp)
  obtain ⟨htake', hdrop'⟩ := hds.span tail htail
  unfold readDecimal?
  simp only [htake, hdrop, htake', hdrop']
  rfl

end

/-- An exponent is read from its mark on. -/
theorem exponentOf?_mark {c : Char} (hc : c = 'e' ∨ c = 'E') (es : List Char) :
    exponentOf? (c :: es) = readExponent? es := by
  have hmark : (c == 'e' || c == 'E') = true := by simpa using hc
  exact if_pos hmark

theorem isDigit_of_mark {c : Char} (hc : c = 'e' ∨ c = 'E') : c.isDigit = false := by
  rcases hc with rfl | rfl <;> rfl

section

variable {n : Numeral} (h : n.WellFormed)
include h

theorem WellFormed.exponentOf? : Numeral.exponentOf? n.exponentChars = some n.power := by
  unfold exponentChars power
  cases hexponent : n.exponent with
  | none => rfl
  | some e =>
      obtain ⟨k, hk⟩ := Option.isSome_iff_exists.1 (h.exponent e hexponent)
      dsimp only
      rw [exponentOf?_mark (h.mark e hexponent), hk]
      rfl

/-- Neither a digit nor a point stands where the exponent starts. -/
theorem WellFormed.head_exponentChars :
    ∀ c ∈ n.exponentChars.head?, c.isDigit = false ∧ c ≠ '.' := by
  intro c hc
  unfold exponentChars at hc
  cases hexponent : n.exponent with
  | none =>
      rw [hexponent] at hc
      cases hc
  | some e =>
      rw [hexponent] at hc
      obtain rfl : e.1 = c := by simpa using hc
      refine ⟨isDigit_of_mark (h.mark e hexponent), ?_⟩
      rintro hpoint
      have hmark := h.mark e hexponent
      rw [hpoint] at hmark
      simp at hmark

/-- **A decimal number is read.** -/
theorem readDecimal?_chars : readDecimal? n.chars = some n.value := by
  have htail := fun c hc => (h.head_exponentChars c hc).1
  have hpoint : '.' ∉ n.exponentChars.head? := fun hc => (h.head_exponentChars _ hc).2 rfl
  have hdigits := h.digits
  unfold chars value
  unfold Numeral.digits fractionChars at *
  cases hfraction : n.fraction with
  | none =>
      have hne : n.whole ≠ [] := by simpa [hfraction] using hdigits
      dsimp only
      rw [List.nil_append, readDecimal?_whole h.whole htail hpoint, h.exponentOf?]
      simp [hne]
  | some ds =>
      have hne : ¬ (n.whole = [] ∧ ds = []) := by simpa [hfraction] using hdigits
      dsimp only
      rw [List.cons_append, readDecimal?_point h.whole htail (h.fraction ds hfraction),
        h.exponentOf?]
      simp [hne]

end

/-- **The characters of a decimal number.** -/
theorem WellFormed.mem_chars {n : Numeral} (h : n.WellFormed) {c : Char} (hc : c ∈ n.chars) :
    c.isDigit = true ∨ c ∈ ['.', 'e', 'E', '+', '-'] := by
  simp only [chars, List.mem_append] at hc
  obtain hc | hc | hc := hc
  · exact Or.inl (h.whole c hc)
  · unfold fractionChars at hc
    cases hfraction : n.fraction with
    | none => simp [hfraction] at hc
    | some ds =>
        obtain rfl | hc : c = '.' ∨ c ∈ ds := by simpa [hfraction] using hc
        · exact Or.inr (by simp)
        · exact Or.inl (h.fraction ds hfraction c hc)
  · unfold exponentChars at hc
    cases hexponent : n.exponent with
    | none => simp [hexponent] at hc
    | some e =>
        obtain rfl | hc : c = e.1 ∨ c ∈ e.2 := by simpa [hexponent] using hc
        · exact Or.inr (by rcases h.mark e hexponent with hmark | hmark <;> simp [hmark])
        · obtain ⟨d, ds, hes, hds, hd⟩ := exists_of_readExponent? (h.exponent e hexponent)
          rw [hes, List.mem_cons] at hc
          obtain rfl | hc := hc
          · exact hd.imp_right (by rintro ⟨rfl | rfl, -⟩ <;> simp)
          · exact Or.inl (hds c hc)

/-- The mark of the exponent does not tell whether a number is whole. -/
theorem readNat?_marked {n : Numeral} (h : n.WellFormed) :
    readNat? (n.marked 'e').chars = readNat? n.chars := by
  cases hexponent : n.exponent with
  | none =>
      have hmarked : n.marked 'e' = n := by
        unfold marked
        rw [hexponent, Option.map_none, ← hexponent]
      rw [hmarked]
  | some e =>
      have hmem : e.1 ∈ n.chars := by simp [chars, exponentChars, hexponent]
      have hmem' : 'e' ∈ (n.marked 'e').chars := by
        simp [chars, exponentChars, marked, hexponent]
      rw [readNat?_of_mem hmem' rfl, readNat?_of_mem hmem (isDigit_of_mark (h.mark e hexponent))]

/-! ## Texts that are read -/

/-- What stands behind the digits of a number is nothing or an exponent. -/
theorem exists_exponent {tail : List Char} (h : (exponentOf? tail).isSome = true) :
    ∃ exponent : Option (Char × List Char), (∀ e ∈ exponent, e.1 = 'e' ∨ e.1 = 'E') ∧
      (∀ e ∈ exponent, (readExponent? e.2).isSome = true) ∧
      tail = (Numeral.mk [] none exponent).exponentChars := by
  cases tail with
  | nil => exact ⟨none, by simp, by simp, rfl⟩
  | cons c es =>
      by_cases hc : c = 'e' ∨ c = 'E'
      · rw [exponentOf?_mark hc] at h
        exact ⟨some (c, es), by simpa using hc, by simpa using h, rfl⟩
      · have hmark : (c == 'e' || c == 'E') = false := by simpa using hc
        have hnone : exponentOf? (c :: es) = none := if_neg (by simp [hmark])
        simp [hnone] at h

/-- The digits at the front of a text, and what stands behind them. -/
theorem exists_areDigits_append (cs : List Char) : ∃ ds rest, cs = ds ++ rest ∧ AreDigits ds ∧
    ∀ c ∈ rest.head?, c.isDigit = false := by
  refine ⟨cs.takeWhile Char.isDigit, cs.dropWhile Char.isDigit,
    List.takeWhile_append_dropWhile.symm, fun c hc => List.mem_takeWhile_imp hc, fun c hc => ?_⟩
  have hnot := List.head?_dropWhile_not Char.isDigit cs
  rw [Option.mem_def.1 hc] at hnot
  exact hnot

/-- **Only decimal numbers are read.** -/
theorem exists_of_readDecimal? {cs : List Char} {x : Float} (h : readDecimal? cs = some x) :
    ∃ n : Numeral, n.WellFormed ∧ n.chars = cs := by
  obtain ⟨whole, rest, rfl, hwhole, hrest⟩ := exists_areDigits_append cs
  -- What stands behind the first digits is a point, with more digits, or the exponent.
  by_cases hpoint : '.' ∈ rest.head?
  · obtain ⟨behind, rfl⟩ := List.head?_eq_some_iff.1 hpoint
    obtain ⟨ds, tail, rfl, hds, htail⟩ := exists_areDigits_append behind
    rw [readDecimal?_point hwhole htail hds] at h
    obtain ⟨hne, h⟩ := Option.ite_none_left_eq_some.1 h
    obtain ⟨e, he, -⟩ := Option.map_eq_some_iff.1 h
    obtain ⟨exponent, hmark, hexponent, rfl⟩ := exists_exponent (Option.isSome_of_eq_some he)
    refine ⟨⟨whole, some ds, exponent⟩, ⟨hwhole, ?_, ?_, hmark, hexponent⟩, rfl⟩
    · simpa using hds
    · simpa [Numeral.digits] using hne
  · rw [readDecimal?_whole hwhole hrest hpoint] at h
    obtain ⟨hne, h⟩ := Option.ite_none_left_eq_some.1 h
    obtain ⟨e, he, -⟩ := Option.map_eq_some_iff.1 h
    obtain ⟨exponent, hmark, hexponent, rfl⟩ := exists_exponent (Option.isSome_of_eq_some he)
    refine ⟨⟨whole, none, exponent⟩, ⟨hwhole, by simp, ?_, hmark, hexponent⟩, rfl⟩
    simpa [Numeral.digits] using hne

end Numeral

end SiteAnalysis
