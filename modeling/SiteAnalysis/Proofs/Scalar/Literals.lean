import SiteAnalysis.Proofs.Expression.Spelling
import SiteAnalysis.Proofs.Expression.Stuck

set_option autoImplicit false

/-! # Literals as expressions

A text that is read as a number can also be given to the engine. Main statement:

* `Scalar.eval_trim_eq_ok_iff`: where the engine gives a number for such a text, it is the one that
  was read; and it gives one exactly if the text is spelled out and the limits leave room for it.

The engine takes the words for floats for variables, which are not bound, and a point with no digit
before or behind it for the start of a property, which no number has. Nothing that follows makes up
for it (`startsStuck_of_not_isSpelledOut`).
-/

namespace SiteAnalysis

open Expression

/-! ## Texts that are no numbers to the engine -/

namespace Expression

/-- A word alone that is not bound has no value. -/
theorem startsStuck_word {b : Bindings} {cs : List Char} (h : IsWord cs)
    (hfree : String.ofList cs ∉ Token.reserved) (hb : b.value? (String.ofList cs) = none) :
    Parser.StartsStuck b (Token.ofChars cs) := by
  rw [ofChars_word h, Token.ofWord]
  split
  · refine Parser.startsStuck_leaf (by simp) (by simp) fun e hleaf fuel e' rest hp => ?_
    obtain ⟨-, hword⟩ | ⟨hreserved, -⟩ := Parser.word?_cases (String.ofList cs)
    · obtain rfl := Option.some.inj (hword.symm.trans hleaf)
      exact Parser.stuck_of_postfixes (.var hb) hp
    · exact absurd hreserved hfree
  · exact Parser.startsStuck_invalid b []

/-- The words for floats are not reserved. -/
theorem notMem_reserved_of_floatWord {s : String} (h : foldCase s ∈ floatWords) :
    s ∉ Token.reserved := by
  have hall : ∀ w ∈ Token.reserved, foldCase w ∉ floatWords := by decide
  exact fun hs => hall s hs h

section

variable {n : Numeral} (h : n.WellFormed)
include h

/-- Without digits before the point, a number starts with the point. -/
theorem startsStuck_of_whole (b : Bindings) (hwhole : n.whole = []) :
    ∃ c cs, n.chars = '.' :: c :: cs ∧ c.isDigit = true ∧
      Parser.StartsStuck b (Token.ofChars n.chars) := by
  have hdigits := h.digits
  cases hfraction : n.fraction with
  | none => simp [Numeral.digits, hwhole, hfraction] at hdigits
  | some ds =>
      cases ds with
      | nil => simp [Numeral.digits, hwhole, hfraction] at hdigits
      | cons c ds =>
          have hc : c.isDigit = true := h.fraction _ hfraction c (by simp)
          have hchars : n.chars = '.' :: c :: (ds ++ n.exponentChars) := by
            simp [Numeral.chars, Numeral.fractionChars, hwhole, hfraction]
          have hne : c ∉ ['.', '=', '>'] := notMem_of_isDigit hc rfl
          refine ⟨c, _, hchars, hc, ?_⟩
          rw [hchars, Token.ofChars, Token.ofCharsFrom_symbol _ (by simp) hne (by simp)]
          exact Parser.startsStuck_dot b _

/-- Behind a point with no digit behind it an exponent is the name of a property, with no call. -/
theorem ofCharsFrom_point_exponentChars : ∃ ts,
    Token.ofCharsFrom false ('.' :: n.exponentChars) = .symbol .dot :: ts ∧
      ∀ f behind, ts ≠ .name f :: .symbol .leftParen :: behind := by
  unfold Numeral.exponentChars
  cases hexponent : n.exponent with
  | none =>
      have hread : Token.readToken false '.' [] = (.symbol .dot, []) := rfl
      refine ⟨[], ?_, by simp⟩
      rw [Token.ofCharsFrom_of_readToken (by decide) (by decide) (by rintro ⟨⟩) hread,
        Token.ofCharsFrom]
  | some e =>
      obtain ⟨mark, es⟩ := e
      have hmark := h.mark _ hexponent
      obtain ⟨c, ds, hes, hds, hc⟩ := exists_of_readExponent? (h.exponent _ hexponent)
      obtain rfl : es = c :: ds := hes
      have hstart : isWordStart mark = true := by rcases hmark with rfl | rfl <;> rfl
      have hlegal : ∀ cs, Token.isLegalName (mark :: cs) = true := by
        rcases hmark with rfl | rfl <;> exact fun _ => rfl
      have hne : mark ∉ ['.', '=', '>'] := by
        rcases hmark with rfl | rfl <;> decide
      dsimp only
      rw [Token.ofCharsFrom_symbol (c :: ds) (by simp) hne (by simp)]
      rcases hc with hc | ⟨hc, hds'⟩
      · -- Mark and digits make one word.
        have hword : IsWord (mark :: c :: ds) := by
          exact ⟨hstart, List.forall_mem_cons.2
            ⟨isWordChar_of_isDigit hc, fun d hd => isWordChar_of_isDigit (hds d hd)⟩⟩
        exact ⟨_, congrArg _ (ofCharsFrom_word hword), by simp⟩
      · -- The word ends before the sign, which is an operator.
        have hword : IsWord [mark] := ⟨hstart, by simp⟩
        obtain ⟨d, ds, rfl⟩ := List.exists_cons_of_ne_nil hds'
        have hd : d ∉ [c, '=', '>'] := by
          refine notMem_of_isDigit (hds d (by simp)) ?_
          rcases hc with rfl | rfl <;> rfl
        have htokens : Token.ofCharsFrom false ([mark] ++ c :: d :: ds) = _ :=
          ofCharsFrom_name hword (hlegal _) (by rcases hc with rfl | rfl <;> simp <;> decide)
        rw [Token.ofCharsFrom_symbol ds (by tauto) hd (by simp)] at htokens
        refine ⟨_, congrArg _ htokens, fun f behind heq => ?_⟩
        rcases hc with rfl | rfl <;> cases heq

/-- A point with no digit behind it asks for a property of the number before it. -/
theorem startsStuck_of_point (b : Bindings) (hwhole : n.whole ≠ []) (hpoint : n.fraction = some [])
    (negative : Bool) : Parser.StartsStuck b
      (Token.ofChars (if negative then '-' :: n.chars else n.chars)) := by
  obtain ⟨m, hnumber⟩ :=
    Token.ofCharsFrom_chars_point true negative h hwhole (fun _ => rfl) hpoint
  obtain ⟨ts, hts, hcall⟩ := ofCharsFrom_point_exponentChars h
  rw [Token.ofChars, hnumber, hts]
  refine Parser.startsStuck_leaf (Token.ofNumber_ne_symbol m) (by simp) ?_
  intro e hleaf fuel e' rest hp
  obtain rfl : e = .ofNumber m := by
    rw [Parser.leaf?_ofNumber] at hleaf
    exact (Option.some.inj hleaf).symm
  exact Parser.stuck_of_postfixes_literal (by cases m <;> rfl) hcall hp

end

/-! ## With and without a sign -/

/-- A sign in front of what has no value gives it none. -/
theorem startsStuck_of_readSign {b : Bindings} {cs rest : List Char} {c : Char}
    (hbody : (readSign cs).2 = c :: rest) (hc : c ∉ ['+', '-', '=', '>'])
    (hdigit : (readSign cs).1 = true → c.isDigit = false)
    (h : Parser.StartsStuck b (Token.ofChars (c :: rest))) :
    Parser.StartsStuck b (Token.ofChars cs) := by
  have hne : ∀ sign : Char, sign = '+' ∨ sign = '-' → c ∉ [sign, '=', '>'] := by
    rintro sign (rfl | rfl)
    all_goals simp_all
  obtain hsign | ⟨body, rfl, hsign⟩ | ⟨body, rfl, hsign⟩ := readSign_cases cs
  all_goals rw [hsign] at hbody hdigit
  · rwa [show cs = c :: rest from hbody]
  · obtain rfl : body = c :: rest := hbody
    rw [Token.ofChars, Token.ofCharsFrom_symbol rest (by simp) (hne '-' (by simp))
      (by simp [hdigit rfl])]
    exact Parser.startsStuck_sign (by simp) h
  · obtain rfl : body = c :: rest := hbody
    rw [Token.ofChars, Token.ofCharsFrom_symbol rest (by simp) (hne '+' (by simp)) (by simp)]
    exact Parser.startsStuck_sign (by simp) h

/-- **A number that is not spelled out has no value as an expression.** -/
theorem startsStuck_of_not_isSpelledOut {s : String} {m : Number} (h : Number.read? s = some m)
    (hnot : isSpelledOut s.toList = false) :
    Parser.StartsStuck .empty (Token.ofChars s.toList) := by
  obtain ⟨n, hn, hbody⟩ | hword := body_of_read? h
  -- Such a number begins with its point, or ends in it, or is a word.
  · by_cases hwhole : n.whole = []
    · obtain ⟨c, cs, hchars, hc, hstuck⟩ := startsStuck_of_whole hn .empty hwhole
      rw [hchars] at hbody hstuck
      exact startsStuck_of_readSign hbody (by decide) (fun _ => rfl) hstuck
    · have hpoint : n.fraction = some [] := by
        by_contra hfraction
        have hspelled := (isSpelledOut_numeral_iff hn).2 ⟨hwhole, hfraction⟩
        rw [← hbody, pointsHaveDigits_readSign] at hspelled
        simp [isSpelledOut, hspelled] at hnot
      obtain ⟨c, cs, hchars, hc⟩ := Number.exists_head_chars hn hwhole
      have hstuck := startsStuck_of_point hn .empty hwhole hpoint
      by_cases hnegative : (readSign s.toList).1 = true
      · -- The sign belongs to the number.
        have htext : s.toList = '-' :: n.chars := by
          rw [← hbody]
          obtain hsign | ⟨body, hcs, hsign⟩ | ⟨body, hcs, hsign⟩ := readSign_cases s.toList
          all_goals simp_all
        rw [htext]
        exact hstuck true
      · have hunsigned : Parser.StartsStuck .empty (Token.ofChars n.chars) := hstuck false
        rw [hchars] at hbody hunsigned
        exact startsStuck_of_readSign hbody (notMem_of_isDigit hc rfl)
          (fun h => absurd h hnegative) hunsigned
  · have hcs := isWord_of_floatWord hword
    have hstuck := startsStuck_word (b := .empty) hcs (notMem_reserved_of_floatWord hword) rfl
    generalize hbody : (readSign s.toList).2 = body at hcs hstuck
    obtain ⟨hc, -⟩ := hcs
    rename_i c cs
    have hsigns : c ∉ ['+', '-', '=', '>'] := by
      intro hmem
      fin_cases hmem <;> cases hc
    exact startsStuck_of_readSign hbody hsigns (fun _ => isDigit_of_isWordStart hc) hstuck

/-! ## Numbers to the engine -/

/-- What is read depends on the sign and on what stands behind it. -/
theorem Number.read?_of_readSign {s t : String} (h : readSign s.toList = readSign t.toList) :
    read? s = read? t := by
  unfold read? readInt? readFloat?
  rw [h]

/-- The literal that a number which is spelled out is read as. A plus is no part of its token. -/
def literalOf (cs : List Char) (m : Number) : Expr :=
  if cs.head? = some '+' then .unary .plus (.ofNumber m) else .ofNumber m

theorem settled_literalOf (cs : List Char) (m : Number) :
    (literalOf cs m).settled = .ofNumber m := by
  unfold literalOf
  split <;> cases m <;> rfl

theorem admits_literalOf {l : Limits} {cs : List Char} {m : Number} :
    l.Admits (literalOf cs m) ↔ (l.depth = 1 → cs.head? ≠ some '+') := by
  have hone : (Expr.ofNumber m).depth = 1 := by cases m <;> rfl
  unfold Limits.Admits literalOf
  split
  · next hplus =>
      rw [hplus]
      simp only [Expr.depth, hone, ne_eq, not_true_eq_false, imp_false]
      omega
  · next hplus =>
      rw [hone]
      simp only [ne_eq, hplus, not_false_eq_true, implies_true, iff_true]
      omega

theorem exists_numeral_of_isSpelledOut {s : String} {m : Number} (h : Number.read? s = some m)
    (hs : isSpelledOut s.toList = true) : ∃ n : Numeral, n.WellFormed ∧ n.whole ≠ [] ∧
      n.fraction ≠ some [] ∧ (readSign s.toList).2 = n.chars := by
  rw [isSpelledOut, ← pointsHaveDigits_readSign] at hs
  obtain ⟨n, hn, hbody⟩ | hword := body_of_read? h
  · rw [hbody] at hs
    obtain ⟨hwhole, hfraction⟩ := (isSpelledOut_numeral_iff hn).1 hs
    exact ⟨n, hn, hwhole, hfraction, hbody⟩
  · have hcs := isWord_of_floatWord hword
    generalize (readSign s.toList).2 = body at hs hcs
    obtain ⟨hc, -⟩ := hcs
    simp [Token.startsWithDigit, isDigit_of_isWordStart hc] at hs

theorem read_of_parse {s : String} {ts : List Token} {e : Expr} (hts : Token.ofChars s.toList = ts)
    (hparse : Parser.parse ts = .ok e) : Expression.read s = .expression e := by
  unfold Expression.read
  dsimp only
  rw [hts, hparse]

/-- **What a number that is spelled out is read as.** -/
theorem read_of_isSpelledOut {s : String} {m : Number} (h : Number.read? s = some m)
    (hs : isSpelledOut s.toList = true) :
    Expression.read s = .expression (literalOf s.toList m) := by
  obtain ⟨n, hn, hwhole, hfraction, hbody⟩ := exists_numeral_of_isSpelledOut h hs
  have htokens : ∀ negative : Bool,
      Number.read? (String.ofList (if negative then '-' :: n.chars else n.chars)) = some m →
      Token.ofCharsFrom true (if negative then '-' :: n.chars else n.chars) = [Token.ofNumber m] :=
    fun negative => Token.ofCharsFrom_chars true negative hn hwhole (fun _ => rfl) hfraction
  have hone : Parser.parse [Token.ofNumber m] = .ok (.ofNumber m) := by cases m <;> rfl
  have hplus : Parser.parse [.symbol .plus, Token.ofNumber m] =
      .ok (.unary .plus (.ofNumber m)) := by
    cases m <;> rfl
  obtain ⟨c, cs, hchars, hc⟩ := Number.exists_head_chars hn hwhole
  have hne : c ∉ ['+', '=', '>'] := notMem_of_isDigit hc rfl
  unfold literalOf
  -- A minus is read with the number, and a plus is an operator before it.
  obtain hsign | ⟨body, hcs, hsign⟩ | ⟨body, hcs, hsign⟩ := readSign_cases s.toList
  all_goals rw [hsign] at hbody
  · have hcs : s.toList = n.chars := hbody
    rw [if_neg (by rw [hcs, hchars]; simp_all)]
    refine read_of_parse ?_ hone
    rw [hcs]
    exact htokens false (by rw [← h, ← String.ofList_toList (s := s), hcs]; rfl)
  · obtain rfl : body = n.chars := hbody
    rw [if_neg (by rw [hcs]; simp)]
    refine read_of_parse ?_ hone
    rw [hcs]
    exact htokens true (by rw [← h, ← String.ofList_toList (s := s), hcs]; rfl)
  · obtain rfl : body = n.chars := hbody
    rw [if_pos (by rw [hcs]; rfl)]
    refine read_of_parse ?_ hplus
    have hread : Number.read? (String.ofList n.chars) = some m := by
      rw [← h]
      refine Number.read?_of_readSign ?_
      rw [hsign, String.toList_ofList]
      exact readSign_of_isDigit (Number.exists_head_chars hn hwhole)
    rw [hcs, hchars, Token.ofChars, Token.ofCharsFrom_symbol cs (by simp) hne (by simp), ← hchars]
    exact congrArg _ (htokens false hread)

/-- **The value of a source that is a number.** It takes one step and the end of the evaluation
another one. -/
theorem Limits.eval_of_settled {l : Limits} {b : Bindings} {source : String} {e : Expr} {m : Number}
    (hread : Expression.read source = .expression e) (he : e.settled = .ofNumber m) {x : Float} :
    l.eval source b = .ok x ↔ (l.Admits e ∧ l.operations ≠ 1) ∧ m.toFloat = x := by
  have hsimplified : e.settled.simplified = .ofNumber m := by
    rw [he]
    cases m <;> rfl
  have heval : (Expr.ofNumber m).eval .lenient b = .ok (.ofNumber m) := by cases m <;> rfl
  have hsteps : (Expr.ofNumber m).steps = 1 := by cases m <;> rfl
  have haffords : l.Affords (Expr.ofNumber m) ↔ l.operations ≠ 1 := by
    unfold Affords
    omega
  rw [eval_eq_ok_iff_of_read hread (by rw [hsimplified, heval]), hsimplified, haffords]

end Expression

/-! ## Literals -/

namespace Scalar

/-- What is no expression is a number, whatever is bound. -/
theorem exists_number_of_read {t : String} (h : (read t).isExpression = false) :
    ∃ m, Expression.Number.read? (trim t) = some m ∧
      ∀ (l : Limits) (b : Bindings), (read t).evaluate l b = .ok m.toFloat := by
  unfold Expression.Number.read?
  cases hread : read t with
  | int n =>
      rw [read_eq_int_iff.1 hread]
      exact ⟨.int n, rfl, fun _ _ => rfl⟩
  | float x =>
      obtain ⟨hint, hfloat⟩ := read_eq_float_iff.1 hread
      rw [hint, hfloat]
      exact ⟨.float x, rfl, fun _ _ => rfl⟩
  | expression source =>
      rw [hread] at h
      cases h

/-- **A literal as an expression.** For a text that is read as a number, the engine gives a number
exactly if the text is spelled out and the limits leave room for it, and then it gives the number
that was read. -/
theorem eval_trim_eq_ok_iff {t : String} (h : (read t).isExpression = false) (l : Limits)
    (x : Float) : l.eval (trim t) .empty = .ok x ↔
      (isSpelledOut (trim t).toList = true ∧ l.operations ≠ 1 ∧
        (l.depth = 1 → (trim t).toList.head? ≠ some '+')) ∧
          ∀ (l' : Limits) (b : Bindings), (read t).evaluate l' b = .ok x := by
  obtain ⟨m, hm, hvalue⟩ := exists_number_of_read h
  have hall : (∀ (l' : Limits) (b : Bindings), (read t).evaluate l' b = .ok x) ↔ m.toFloat = x := by
    constructor
    · exact fun hall => Except.ok.inj ((hvalue l .empty).symm.trans (hall l .empty))
    · rintro rfl
      exact hvalue
  rw [hall]
  by_cases hspelled : isSpelledOut (trim t).toList = true
  · rw [Limits.eval_of_settled (read_of_isSpelledOut hm hspelled) (settled_literalOf _ m),
      admits_literalOf, and_iff_right hspelled, and_comm (a := l.operations ≠ 1)]
  · rw [Bool.not_eq_true] at hspelled
    refine iff_of_false (Limits.eval_ne_ok (startsStuck_of_not_isSpelledOut hm hspelled) x) ?_
    rintro ⟨⟨hspelled', -⟩, -⟩
    rw [hspelled] at hspelled'
    cases hspelled'

/-- The least integer keeps its sign, and a plus and leading zeros change nothing. -/
theorem eval_trim_least_and_plus :
    Limits.eval ⟨100000, 64⟩ (trim " -9223372036854775808") .empty =
        .ok (Float.ofInt (-9223372036854775808)) ∧
      Limits.eval ⟨100000, 64⟩ (trim "+007 ") .empty = .ok (Float.ofInt 7) := by
  have hleast : read " -9223372036854775808" = int (-9223372036854775808) :=
    read_eq_int_iff.2 (by decide +kernel)
  have hplus : read "+007 " = int 7 := read_eq_int_iff.2 (by decide +kernel)
  exact ⟨(eval_trim_eq_ok_iff (by rw [hleast]; rfl) _ _).2 ⟨by decide +kernel,
      fun _ _ => by rw [hleast]; rfl⟩,
    (eval_trim_eq_ok_iff (by rw [hplus]; rfl) _ _).2 ⟨by decide +kernel,
      fun _ _ => by rw [hplus]; rfl⟩⟩

end Scalar

end SiteAnalysis
