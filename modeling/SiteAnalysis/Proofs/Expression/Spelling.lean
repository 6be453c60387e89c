import SiteAnalysis.Proofs.Expression.Numeral

set_option autoImplicit false

/-! # Numbers as expressions write them

Two grammars of numbers meet where a text that was read as a number is given to the engine. The
text is a decimal number or a word for a float, with a sign or without (`body_of_read?`). An
expression asks for more: a digit in front, and behind each point (`isSpelledOut`,
`isSpelledOut_numeral_iff`).
-/

namespace SiteAnalysis

open Expression

/-! ## Digits in front and behind points -/

/-- Whether each point of a text has a digit behind it. -/
def pointsHaveDigits : List Char → Bool
  | [] => true
  | c :: cs => (c != '.' || Token.startsWithDigit cs) && pointsHaveDigits cs

/-- **Whether a text is a number as expressions write it**: a digit stands in front, behind the
sign, and behind each point. -/
def isSpelledOut (cs : List Char) : Bool :=
  Token.startsWithDigit (readSign cs).2 && pointsHaveDigits cs

theorem pointsHaveDigits_append {cs : List Char} (h : '.' ∉ cs) (rest : List Char) :
    pointsHaveDigits (cs ++ rest) = pointsHaveDigits rest := by
  induction cs with
  | nil => rfl
  | cons c cs ih =>
      obtain ⟨hc, hcs⟩ : '.' ≠ c ∧ '.' ∉ cs := by simpa using h
      have hne : (c != '.') = true := by simpa using Ne.symm hc
      rw [List.cons_append, pointsHaveDigits, hne, Bool.true_or, Bool.true_and, ih hcs]

theorem pointsHaveDigits_of_notMem {cs : List Char} (h : '.' ∉ cs) :
    pointsHaveDigits cs = true := by
  have happend := pointsHaveDigits_append h []
  rwa [List.append_nil] at happend

/-- A sign is no point. -/
theorem pointsHaveDigits_readSign (cs : List Char) :
    pointsHaveDigits (readSign cs).2 = pointsHaveDigits cs := by
  obtain h | ⟨rest, rfl, h⟩ | ⟨rest, rfl, h⟩ := readSign_cases cs
  all_goals simp [h, pointsHaveDigits]

section

variable {n : Numeral} (h : n.WellFormed)
include h

theorem point_notMem_exponentChars : '.' ∉ n.exponentChars := by
  unfold Numeral.exponentChars
  cases hexponent : n.exponent with
  | none => simp
  | some e =>
      obtain ⟨c, ds, hes, hds, hc⟩ := exists_of_readExponent? (h.exponent e hexponent)
      have hmark : '.' ≠ e.1 := by rcases h.mark e hexponent with hmark | hmark <;> simp [hmark]
      have hfirst : '.' ≠ c := by
        rintro rfl
        rcases hc with hc | ⟨hc | hc, -⟩ <;> cases hc
      simp [hes, hmark, hfirst, hds.not_mem]

/-- A decimal number is spelled out if it has digits before the point, and behind it if there is
one. -/
theorem isSpelledOut_numeral_iff : (Token.startsWithDigit n.chars && pointsHaveDigits n.chars) = true
    ↔ n.whole ≠ [] ∧ n.fraction ≠ some [] := by
  have hexponent := pointsHaveDigits_of_notMem (point_notMem_exponentChars h)
  have hwhole : '.' ∉ n.whole := h.whole.not_mem rfl
  have hdigits := h.digits
  rw [Bool.and_eq_true]
  refine and_congr ?_ ?_
  · unfold Numeral.chars
    cases hcons : n.whole with
    | cons d ds =>
        have hd : d.isDigit = true := h.whole d (by simp [hcons])
        simpa [Token.startsWithDigit] using hd
    | nil =>
        -- Without digits before the point there is one.
        cases hfraction : n.fraction with
        | none => simp [Numeral.digits, hcons, hfraction] at hdigits
        | some ds => simp [Token.startsWithDigit, Numeral.fractionChars, hfraction]
  · unfold Numeral.chars Numeral.fractionChars
    rw [pointsHaveDigits_append hwhole]
    cases hfraction : n.fraction with
    | none => simp [hexponent]
    | some ds =>
        have hpoint : pointsHaveDigits (('.' :: ds) ++ n.exponentChars) =
            Token.startsWithDigit (ds ++ n.exponentChars) := by
          rw [List.cons_append, pointsHaveDigits,
            pointsHaveDigits_append ((h.fraction ds hfraction).not_mem rfl), hexponent]
          simp
        dsimp only
        rw [hpoint]
        cases ds with
        | nil =>
            have hhead : Token.startsWithDigit n.exponentChars = false := by
              cases hcs : n.exponentChars with
              | nil => rfl
              | cons c cs => exact (h.head_exponentChars c (by rw [hcs]; rfl)).1
            simp [hhead]
        | cons d ds =>
            have hd : d.isDigit = true := h.fraction _ hfraction d (by simp)
            simpa [Token.startsWithDigit] using hd

end

/-! ## Texts of numbers -/

theorem isAlpha_of_toLower {c : Char} (h : c.toLower.isAlpha = true) : c.isAlpha = true := by
  by_cases hupper : c.val ≥ 'A'.val ∧ c.val ≤ 'Z'.val
  · simp only [ge_iff_le, UInt32.le_iff_toNat_le] at hupper
    exact isAlpha_iff.2 (Or.inl hupper)
  · rwa [Char.toLower, dif_neg hupper] at h

/-- The words for floats are words. -/
theorem isWord_of_floatWord {cs : List Char} (h : foldCase (String.ofList cs) ∈ floatWords) :
    IsWord cs := by
  have hall : ∀ w ∈ floatWords, w.toList ≠ [] ∧ w.toList.all Char.isAlpha = true := by decide
  obtain ⟨hne, hletters⟩ := hall _ h
  have hfold : (foldCase (String.ofList cs)).toList = cs.map Char.toLower := by
    rw [foldCase, String.toList_ofList, String.toList_ofList]
  rw [hfold] at hne hletters
  have halpha : ∀ c ∈ cs, c.isAlpha = true := fun c hc =>
    isAlpha_of_toLower (List.all_eq_true.1 hletters _ (List.mem_map_of_mem hc))
  cases cs with
  | nil => exact absurd rfl hne
  | cons c cs =>
      refine ⟨by simp [isWordStart, halpha c (by simp)], fun d hd => ?_⟩
      exact isWordChar_of_isAlpha (halpha d (by simp [hd]))

/-- **What is read as a number**, without its sign: a decimal number, or a word for a float. -/
theorem body_of_read? {s : String} {m : Expression.Number} (h : Number.read? s = some m) :
    (∃ n : Numeral, n.WellFormed ∧ (readSign s.toList).2 = n.chars) ∨
      foldCase (String.ofList (readSign s.toList).2) ∈ floatWords := by
  unfold Number.read? at h
  generalize hbody : (readSign s.toList).2 = body
  cases hint : readInt? s with
  | some i =>
      have hnat : readNat? body ≠ none := by
        intro hnone
        simp [readInt?, hbody, hnone] at hint
      obtain ⟨k, hk⟩ := Option.ne_none_iff_exists'.1 hnat
      obtain ⟨hne, hdigits⟩ := areDigits_of_readNat? hk
      -- An integer is a decimal number of digits alone.
      refine Or.inl ⟨⟨body, none, none⟩, ⟨hdigits, by simp, ?_, by simp, by simp⟩, ?_⟩
      · simpa [Numeral.digits] using hne
      · exact (List.append_nil body).symm
  | none =>
      rw [hint] at h
      obtain ⟨x, hx, -⟩ := Option.map_eq_some_iff.1 h
      unfold readFloat? at hx
      dsimp only at hx
      rw [hbody] at hx
      obtain ⟨y, hy, -⟩ := Option.map_eq_some_iff.1 hx
      have hfold : ∀ w : String, body.map Char.toLower = w.toList →
          foldCase (String.ofList body) = w := by
        intro w hw
        rw [foldCase_eq_iff, String.toList_ofList, hw]
      split at hy
      · next hword =>
          rw [Bool.or_eq_true, beq_iff_eq, beq_iff_eq] at hword
          rcases hword with hword | hword
          · exact Or.inr (by rw [hfold _ hword]; decide)
          · exact Or.inr (by rw [hfold _ hword]; decide)
      · split at hy
        · next hword =>
            rw [beq_iff_eq] at hword
            exact Or.inr (by rw [hfold _ hword]; decide)
        · obtain ⟨n, hn, hchars⟩ := Numeral.exists_of_readDecimal? hy
          exact Or.inl ⟨n, hn, hchars.symm⟩

end SiteAnalysis
