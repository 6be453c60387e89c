import SiteAnalysis.Proofs.Expression.Path
import SiteAnalysis.Proofs.Number.Numeral
import SiteAnalysis.Proofs.Scalar.Identifier

set_option autoImplicit false

/-! # Tokens of numbers

What is read from a digit on is one number or nothing (`readNumber_cases`). A decimal number is one
token, which stands for the same number as its text (`ofCharsFrom_chars`), unless a point stands in
it with no digit behind: then the number ends before the point (`ofCharsFrom_chars_point`).
-/

namespace SiteAnalysis

namespace Expression

/-- **The number that a text is read as**, an integer if it can be one. -/
def Number.read? (s : String) : Option Number :=
  match readInt? s with
  | some n => some (.int n)
  | none => (readFloat? s).map .float

namespace Number

/-- With a digit in front, what is read depends on the digits and on the decimal number alone. -/
theorem read?_congr {cs cs' : List Char} (hcs : ∃ c rest, cs = c :: rest ∧ c.isDigit = true)
    (hcs' : ∃ c rest, cs' = c :: rest ∧ c.isDigit = true) (hnat : readNat? cs = readNat? cs')
    (hdecimal : readDecimal? cs = readDecimal? cs') (negative : Bool) :
    read? (String.ofList (if negative then '-' :: cs else cs)) =
      read? (String.ofList (if negative then '-' :: cs' else cs')) := by
  have hint : readInt? (String.ofList (if negative then '-' :: cs else cs)) =
      readInt? (String.ofList (if negative then '-' :: cs' else cs')) := by
    unfold readInt?
    rw [String.toList_ofList, String.toList_ofList, readSign_of_negative hcs,
      readSign_of_negative hcs']
    dsimp only
    rw [hnat]
  unfold read?
  rw [hint, readFloat?_of_isDigit hcs, readFloat?_of_isDigit hcs', hdecimal]

section

variable {n : Numeral} (h : n.WellFormed) (hne : n.whole ≠ []) (negative : Bool)
include h hne

theorem exists_head_chars : ∃ c rest, n.chars = c :: rest ∧ c.isDigit = true :=
  h.whole.head hne _

/-- Both marks of an exponent are read as the same. -/
theorem read?_marked : read? (String.ofList
      (if negative then '-' :: (n.marked 'e').chars else (n.marked 'e').chars)) =
    read? (String.ofList (if negative then '-' :: n.chars else n.chars)) := by
  refine read?_congr (exists_head_chars h.marked hne) (exists_head_chars h hne)
    (Numeral.readNat?_marked h) ?_ negative
  rw [Numeral.readDecimal?_chars h.marked, Numeral.readDecimal?_chars h, Numeral.value_marked]

/-- A decimal number with a digit in front is read, with or without a sign. -/
theorem exists_read?_chars :
    ∃ m, read? (String.ofList (if negative then '-' :: n.chars else n.chars)) = some m := by
  unfold read?
  rw [readFloat?_of_isDigit (exists_head_chars h hne), Numeral.readDecimal?_chars h]
  cases readInt? (String.ofList (if negative then '-' :: n.chars else n.chars)) with
  | some i => exact ⟨_, rfl⟩
  | none => exact ⟨_, rfl⟩

end

end Number

namespace Token

/-- The token of a number. -/
def ofNumber : Number → Token
  | .int n => int n
  | .float x => float x

theorem ofNumber_ne_symbol (m : Number) (s : Symbol) : ofNumber m ≠ symbol s := by
  cases m <;> rintro ⟨⟩

theorem ofNumber_ne_invalid (m : Number) : ofNumber m ≠ invalid := by
  cases m <;> rintro ⟨⟩

theorem precedesSign_ofNumber (m : Number) : (ofNumber m).precedesSign = false := by
  cases m <;> rfl

theorem ofDecimal_eq (s : String) : ofDecimal s =
    match Number.read? s with
    | some m => ofNumber m
    | none => invalid := by
  unfold ofDecimal Number.read?
  cases readInt? s with
  | some n => rfl
  | none => cases readFloat? s <;> rfl

theorem ofDecimal_of_read? {s : String} {m : Number} (h : Number.read? s = some m) :
    ofDecimal s = ofNumber m := by
  rw [ofDecimal_eq, h]

/-- A decimal number is a number token if it can be read. -/
theorem ofDecimal_cases (s : String) : ofDecimal s = invalid ∨ ∃ m, ofDecimal s = ofNumber m := by
  rw [ofDecimal_eq]
  cases Number.read? s with
  | none => exact Or.inl rfl
  | some m => exact Or.inr ⟨m, rfl⟩

/-- A number in another base is a number token if it fits into a word. -/
theorem ofRadix_cases (base : Nat) (digits : List Char) :
    ofRadix base digits = invalid ∨ ∃ m, ofRadix base digits = ofNumber m := by
  unfold ofRadix
  split
  · exact Or.inl rfl
  · exact Or.inl rfl
  · dsimp only
    split_ifs
    · exact Or.inr ⟨.int _, rfl⟩
    · exact Or.inr ⟨.int _, rfl⟩
    · exact Or.inl rfl

/-- **What is read from a digit on** is a number token or none. -/
theorem readNumber_cases (sign : List Char) (first : Char) (cs : List Char) :
    (readNumber sign first cs).1 = invalid ∨ ∃ m, (readNumber sign first cs).1 = ofNumber m := by
  unfold readNumber
  split
  · exact ofDecimal_cases _
  · dsimp only
    split_ifs
    · exact ofRadix_cases _ _
    · exact Or.inl rfl

/-! ## Decimal numbers -/

theorem spanDecimal_digit {c : Char} (hc : c.isDigit = true) (cs : List Char) :
    spanDecimal (c :: cs) = (c :: (spanDecimal cs).1, (spanDecimal cs).2) := by
  rw [spanDecimal.eq_def]
  exact if_pos hc

theorem spanDecimal_digits {ds : List Char} (hd : AreDigits ds) (rest : List Char) :
    spanDecimal (ds ++ rest) = (ds ++ (spanDecimal rest).1, (spanDecimal rest).2) := by
  induction ds with
  | nil => rfl
  | cons d ds ih =>
      rw [List.cons_append, spanDecimal_digit (hd d (by simp)), ih fun c hc => hd c (by simp [hc])]
      rfl

/-- A point belongs to the number before it if a digit stands behind it. -/
theorem spanDecimal_point {c : Char} (hc : c.isDigit = true) (cs : List Char) :
    spanDecimal ('.' :: c :: cs) = ('.' :: (spanDecimal (c :: cs)).1, (spanDecimal (c :: cs)).2) := by
  have hbelongs : pointBelongsToNumber (c :: cs) = true := by
    simp [pointBelongsToNumber, hc]
  rw [spanDecimal.eq_def]
  dsimp only
  rw [if_neg (by decide), if_neg (by decide), hbelongs]
  rfl

/-- An exponent belongs to the number before it, and both marks become the same. -/
theorem spanDecimal_mark {mark : Char} (hmark : mark = 'e' ∨ mark = 'E') {c : Char}
    (hc : c.isDigit = true ∨ c = '+' ∨ c = '-') (cs : List Char) :
    spanDecimal (mark :: c :: cs) =
      ('e' :: c :: (spanDecimal cs).1, (spanDecimal cs).2) := by
  have hbelongs : exponentBelongsToNumber (c :: cs) = true := by
    simpa [exponentBelongsToNumber, or_assoc] using hc
  rw [spanDecimal.eq_def]
  dsimp only
  rcases hmark with rfl | rfl
  all_goals
    rw [if_neg (by decide), if_neg (by decide), if_neg (by simp), hbelongs]
    rfl

/-- The base of a number is chosen by a letter only. -/
theorem radixPart?_eq_none {cs : List Char}
    (h : ∀ c ∈ cs.head?, c ≠ '_' ∧ radixOf? c = none) : radixPart? cs = none := by
  unfold radixPart?
  cases cs with
  | nil => rfl
  | cons c cs =>
      obtain ⟨hc, hradix⟩ := h c rfl
      have hne : (c == '_') = false := by simpa using hc
      rw [List.dropWhile_cons_of_neg (by simp [hne])]
      simp [hradix]

theorem readNumber_decimal {first : Char} {cs : List Char} (hfirst : first.isDigit = true)
    (h : ∀ c ∈ cs.head?, c ≠ '_' ∧ radixOf? c = none) (sign : List Char) :
    readNumber sign first cs =
      (ofDecimal (String.ofList (sign ++ (spanDecimal (first :: cs)).1)),
        (spanDecimal (first :: cs)).2) := by
  unfold readNumber
  rw [radixPart?_eq_none h, ite_self, spanDecimal_digit hfirst]

/-- No character of a decimal number is a separator or chooses a base. -/
theorem ne_radix_of_mem_chars {n : Numeral} (h : n.WellFormed) {c : Char} (hc : c ∈ n.chars) :
    c ≠ '_' ∧ radixOf? c = none := by
  obtain hdigit | hmem := h.mem_chars hc
  · have hne := fun d : Char => ne_of_isDigit (d := d) hdigit
    simp [radixOf?, hne '_' rfl, hne 'x' rfl, hne 'X' rfl, hne 'o' rfl, hne 'O' rfl, hne 'b' rfl,
      hne 'B' rfl]
  · fin_cases hmem <;> decide

section

variable {n : Numeral} (h : n.WellFormed)
include h

theorem spanDecimal_exponentChars :
    spanDecimal n.exponentChars = ((n.marked 'e').exponentChars, []) := by
  unfold Numeral.exponentChars Numeral.marked
  cases hexponent : n.exponent with
  | none => rfl
  | some e =>
      obtain ⟨c, ds, hes, hds, hc⟩ := exists_of_readExponent? (h.exponent e hexponent)
      have hspan := spanDecimal_digits hds []
      rw [List.append_nil] at hspan
      dsimp only
      rw [hes, spanDecimal_mark (h.mark e hexponent) (hc.imp_right And.left), hspan]
      simp [spanDecimal, hes]

/-- **The text of a number**, unless a point stands in it with no digit behind. -/
theorem spanDecimal_chars (hpoint : n.fraction ≠ some []) :
    spanDecimal n.chars = ((n.marked 'e').chars, []) := by
  unfold Numeral.chars Numeral.fractionChars
  cases hfraction : n.fraction with
  | none =>
      rw [spanDecimal_digits h.whole]
      simp [spanDecimal_exponentChars h, Numeral.marked, hfraction]
  | some ds =>
      have hds := h.fraction ds hfraction
      cases ds with
      | nil => exact absurd hfraction hpoint
      | cons d ds =>
          have hdigits := spanDecimal_digits hds n.exponentChars
          rw [spanDecimal_digits h.whole]
          dsimp only
          rw [List.cons_append, List.cons_append, spanDecimal_point (hds d (by simp)),
            ← List.cons_append, hdigits]
          simp [spanDecimal_exponentChars h, Numeral.marked, hfraction]

/-- A point with no digit behind it does not belong to the number. -/
theorem spanDecimal_chars_point (hpoint : n.fraction = some []) :
    spanDecimal n.chars = (n.whole, '.' :: n.exponentChars) := by
  have hstop : spanDecimal ('.' :: n.exponentChars) = ([], '.' :: n.exponentChars) := by
    have hbelongs : pointBelongsToNumber n.exponentChars = false := by
      unfold Numeral.exponentChars
      cases hexponent : n.exponent with
      | none => rfl
      | some e =>
          rcases h.mark e hexponent with hmark | hmark
          all_goals
            dsimp only
            rw [hmark]
            rfl
    rw [spanDecimal.eq_def]
    dsimp only
    rw [if_neg (by decide), if_neg (by decide), hbelongs]
    rfl
  unfold Numeral.chars Numeral.fractionChars
  rw [hpoint, spanDecimal_digits h.whole]
  dsimp only
  rw [List.cons_append, List.nil_append, hstop, List.append_nil]

end

/-! ## Numbers at the front of a text -/

section

variable (signed negative : Bool) {d : Char} (cs : List Char) (hd : d.isDigit = true)
  (hsign : negative = true → signed = true)
include hd hsign

/-- A number starts with a digit or with the sign that belongs to it. -/
theorem readToken_number : ∃ c rest, (if negative then '-' :: d :: cs else d :: cs) = c :: rest ∧
    c ≠ '/' ∧ isSpace c = false ∧
      readToken signed c rest = readNumber (if negative then ['-'] else []) d cs := by
  cases negative with
  | true =>
      obtain rfl := hsign rfl
      have hdigit : startsWithDigit (d :: cs) = true := hd
      refine ⟨'-', d :: cs, rfl, by decide, by decide, ?_⟩
      unfold readToken
      rw [hdigit]
      rfl
  | false =>
      have hne := fun c : Char => ne_of_isDigit (d := c) hd
      refine ⟨d, cs, rfl, hne '/' rfl, ?_, ?_⟩
      · simp [isSpace, hne ' ' rfl, hne '\t' rfl, hne '\n' rfl, hne '\r' rfl, hne '\x0c' rfl]
      · unfold readToken
        exact if_pos hd

theorem ofCharsFrom_number {m : Number} {rest : List Char}
    (hread : readNumber (if negative then ['-'] else []) d cs = (ofNumber m, rest)) :
    ofCharsFrom signed (if negative then '-' :: d :: cs else d :: cs) =
      ofNumber m :: ofCharsFrom false rest := by
  obtain ⟨c, tail, htext, hslash, hspace, htoken⟩ := readToken_number signed negative cs hd hsign
  rw [htext, ofCharsFrom_of_readToken hslash hspace (ofNumber_ne_invalid m) (htoken.trans hread),
    precedesSign_ofNumber]

theorem ofCharsFrom_number_invalid
    (hread : (readNumber (if negative then ['-'] else []) d cs).1 = invalid) :
    ofCharsFrom signed (if negative then '-' :: d :: cs else d :: cs) = [invalid] := by
  obtain ⟨c, tail, htext, hslash, hspace, htoken⟩ := readToken_number signed negative cs hd hsign
  rw [htext]
  exact ofCharsFrom_of_invalid hslash hspace (htoken.trans (Prod.ext hread rfl))

end

section

variable (signed negative : Bool) {n : Numeral} (h : n.WellFormed) (hne : n.whole ≠ [])
  (hsign : negative = true → signed = true)
include h hne hsign

/-- **A decimal number is one token**, unless a point stands in it with no digit behind. -/
theorem ofCharsFrom_chars (hpoint : n.fraction ≠ some []) {m : Number}
    (hm : Number.read? (String.ofList (if negative then '-' :: n.chars else n.chars)) = some m) :
    ofCharsFrom signed (if negative then '-' :: n.chars else n.chars) = [ofNumber m] := by
  have hspan := spanDecimal_chars h hpoint
  have hread := Number.read?_marked h hne negative
  have hmem : ∀ c ∈ n.chars, c ≠ '_' ∧ radixOf? c = none := fun c hc => ne_radix_of_mem_chars h hc
  obtain ⟨d, cs, hchars, hd⟩ := Number.exists_head_chars h hne
  rw [hchars] at hspan hmem
  have hnumber : readNumber (if negative then ['-'] else []) d cs = (ofNumber m, []) := by
    rw [readNumber_decimal hd fun c hc => hmem c (by simp [List.mem_of_mem_head? hc]), hspan]
    refine Prod.ext (ofDecimal_of_read? ?_) rfl
    rw [← hm, ← hread]
    cases negative <;> rfl
  rw [hchars, ofCharsFrom_number signed negative cs hd hsign hnumber, ofCharsFrom]

/-- A point with no digit behind it is a token of its own. -/
theorem ofCharsFrom_chars_point (hpoint : n.fraction = some []) : ∃ m,
    ofCharsFrom signed (if negative then '-' :: n.chars else n.chars) =
      ofNumber m :: ofCharsFrom false ('.' :: n.exponentChars) := by
  have hspan := spanDecimal_chars_point h hpoint
  have hmem : ∀ c ∈ n.chars, c ≠ '_' ∧ radixOf? c = none := fun c hc => ne_radix_of_mem_chars h hc
  -- What is read is the number before the point.
  have hwhole : (Numeral.mk n.whole none none).WellFormed :=
    ⟨h.whole, by simp, by simpa [Numeral.digits] using hne, by simp, by simp⟩
  obtain ⟨m, hm⟩ := Number.exists_read?_chars hwhole hne negative
  have htext : (Numeral.mk n.whole none none).chars = n.whole :=
    List.append_nil n.whole
  rw [htext] at hm
  obtain ⟨d, cs, hchars, hd⟩ := Number.exists_head_chars h hne
  rw [hchars] at hspan hmem
  have hnumber : readNumber (if negative then ['-'] else []) d cs =
      (ofNumber m, '.' :: n.exponentChars) := by
    rw [readNumber_decimal hd fun c hc => hmem c (by simp [List.mem_of_mem_head? hc]), hspan]
    refine Prod.ext (ofDecimal_of_read? ?_) rfl
    rw [← hm]
    cases negative <;> rfl
  exact ⟨m, by rw [hchars, ofCharsFrom_number signed negative cs hd hsign hnumber]⟩

end

end Token

theorem Parser.leaf?_ofNumber (m : Number) : leaf? (.ofNumber m) = some (.ofNumber m) := by
  cases m <;> rfl

end Expression

end SiteAnalysis
