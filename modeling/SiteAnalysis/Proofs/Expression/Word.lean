import Mathlib
import SiteAnalysis.Expression.Token
import SiteAnalysis.Node.Entries
import SiteAnalysis.Proofs.Expression.Levels
import SiteAnalysis.Proofs.Expression.Outcomes

set_option autoImplicit false

/-! # Sources that are a single word

What the engine makes of a source that has the form of an identifier (`IsWord`). The word is one
token, and the token is the whole expression. It is a variable if a letter comes before any digit
and the word is not reserved (`IsVariable`), and only then does the source give a number: the one
that is bound to the word (`eval_word_eq_ok_iff`, `check_word_eq_ok_iff`).

The first token of a text that starts neither with a blank nor with a slash is read from its front
by `readToken` (`Token.ofCharsFrom_of_readToken`). Where no token can be read, nothing that follows
is looked at (`Token.ofCharsFrom_of_invalid`).
-/

namespace SiteAnalysis

/-! ## The first token of a text -/

namespace Expression.Token

section

variable {signed : Bool} {c : Char} {cs rest : List Char} (hslash : c ≠ '/')
  (hspace : isSpace c = false)
include hslash hspace

theorem ofCharsFrom_cons : ofCharsFrom signed (c :: cs) =
    match readToken signed c cs with
    | (invalid, _) => [invalid]
    | (token, rest) => token :: ofCharsFrom token.precedesSign rest := by
  rw [ofCharsFrom]
  · rw [hspace, if_neg Bool.false_ne_true]
    split <;> simp [*]
  · simp [hslash]
  · simp [hslash]

theorem ofCharsFrom_of_readToken {token : Token} (htoken : token ≠ invalid)
    (h : readToken signed c cs = (token, rest)) :
    ofCharsFrom signed (c :: cs) = token :: ofCharsFrom token.precedesSign rest := by
  rw [ofCharsFrom_cons hslash hspace, h]
  split
  · next heq =>
      obtain ⟨rfl, -⟩ := Prod.mk.inj heq
      exact absurd rfl htoken
  · next heq =>
      obtain ⟨rfl, rfl⟩ := Prod.mk.inj heq
      rfl

theorem ofCharsFrom_of_invalid (h : readToken signed c cs = (invalid, rest)) :
    ofCharsFrom signed (c :: cs) = [invalid] := by
  rw [ofCharsFrom_cons hslash hspace, h]

end

/-! ## Signs and points -/

section

variable {signed : Bool} {sign c : Char} (cs : List Char)
  (hsign : sign = '+' ∨ sign = '-' ∨ sign = '.')
include hsign

theorem pair?_eq_none (hc : c ∉ [sign, '=', '>']) : pair? sign c = none := by
  unfold pair?
  rcases hsign with rfl | rfl | rfl <;> split <;> simp_all

/-- **A sign or a point is a token of its own**, unless it makes another one with what follows. -/
theorem ofCharsFrom_symbol (hc : c ∉ [sign, '=', '>'])
    (hnumber : (signed && sign == '-' && c.isDigit) = false) :
    ofCharsFrom signed (sign :: c :: cs) =
      single sign :: ofCharsFrom (single sign).precedesSign (c :: cs) := by
  have htoken : readToken signed sign (c :: cs) = (single sign, c :: cs) := by
    have hdigit : startsWithDigit (c :: cs) = c.isDigit := rfl
    unfold readToken
    rw [hdigit, hnumber]
    dsimp only
    rw [pair?_eq_none hsign hc]
    rcases hsign with rfl | rfl | rfl <;> rfl
  rcases hsign with rfl | rfl | rfl
  all_goals exact ofCharsFrom_of_readToken (by decide) (by decide) (by rintro ⟨⟩) htoken

end

end Expression.Token

/-! ## Characters of words -/

/-- The characters that a word may start with. -/
def isWordStart (c : Char) : Bool := c.isAlpha || c == '_'

/-- **Words**: a letter or `_`, and then letters, digits and `_`. -/
inductive IsWord : List Char → Prop
  | mk {c : Char} {cs : List Char} (hc : isWordStart c = true)
      (hcs : ∀ d ∈ cs, isWordChar d = true) : IsWord (c :: cs)

theorem isIdentifier_iff {s : String} : isIdentifier s = true ↔ IsWord s.toList := by
  unfold isIdentifier
  split
  · next hnil => exact iff_of_false Bool.false_ne_true (by rw [hnil]; rintro ⟨⟩)
  · next c cs hcons =>
      rw [hcons, Bool.and_eq_true, List.all_eq_true]
      constructor
      · exact fun h => ⟨h.1, h.2⟩
      · rintro ⟨hc, hcs⟩
        exact ⟨hc, hcs⟩

theorem isDigit_iff {c : Char} : c.isDigit = true ↔ 48 ≤ c.toNat ∧ c.toNat ≤ 57 := by
  simp only [Char.isDigit, Bool.and_eq_true, decide_eq_true_eq, ge_iff_le, UInt32.le_iff_toNat_le]
  rfl

theorem isAlpha_iff {c : Char} : c.isAlpha = true ↔
    (65 ≤ c.toNat ∧ c.toNat ≤ 90) ∨ (97 ≤ c.toNat ∧ c.toNat ≤ 122) := by
  simp only [Char.isAlpha, Char.isUpper, Char.isLower, Bool.or_eq_true, Bool.and_eq_true,
    decide_eq_true_eq, ge_iff_le, UInt32.le_iff_toNat_le]
  rfl

theorem isWordChar_of_isDigit {c : Char} (h : c.isDigit = true) : isWordChar c = true := by
  simp [isWordChar, Char.isAlphanum, h]

theorem isWordChar_of_isAlpha {c : Char} (h : c.isAlpha = true) : isWordChar c = true := by
  simp [isWordChar, Char.isAlphanum, h]

/-- All characters of words but the digits can start one. -/
theorem isWordStart_of_isWordChar {c : Char} (h : isWordChar c = true)
    (hdigit : ¬ c.isDigit = true) : isWordStart c = true := by
  simpa [isWordChar, Char.isAlphanum, hdigit, isWordStart] using h

theorem toNat_of_isWordStart {c : Char} (h : isWordStart c = true) :
    65 ≤ c.toNat ∧ c.toNat ≤ 122 := by
  simp only [isWordStart, Bool.or_eq_true, beq_iff_eq, isAlpha_iff] at h
  rcases h with h | rfl
  · omega
  · decide

theorem toNat_of_isWordChar {c : Char} (h : isWordChar c = true) :
    48 ≤ c.toNat ∧ c.toNat ≤ 122 := by
  simp only [isWordChar, Char.isAlphanum, Bool.or_eq_true, beq_iff_eq, isAlpha_iff,
    isDigit_iff] at h
  rcases h with h | rfl
  · omega
  · decide

theorem isDigit_of_isWordStart {c : Char} (h : isWordStart c = true) : c.isDigit = false := by
  have hrange := toNat_of_isWordStart h
  rw [← Bool.not_eq_true, isDigit_iff]
  omega

/-- Signs, points and blanks come before the letters. -/
theorem ne_of_isWordStart {c d : Char} (h : isWordStart c = true) (hd : d.toNat < 65) : c ≠ d := by
  have hrange := toNat_of_isWordStart h
  rintro rfl
  omega

namespace Expression

/-! ## One token -/

theorem isSpace_of_isWordStart {c : Char} (h : isWordStart c = true) :
    Token.isSpace c = false := by
  rw [← Bool.not_eq_true]
  intro hspace
  simp only [Token.isSpace, Bool.or_eq_true, beq_iff_eq, or_assoc] at hspace
  rcases hspace with hd | hd | hd | hd | hd <;> exact ne_of_isWordStart h (by decide) hd

/-- A word takes up all characters that may stand in one. -/
theorem readToken_wordStart {c : Char} (hc : isWordStart c = true) (signed : Bool)
    (cs : List Char) : Token.readToken signed c cs =
      (Token.ofWord (c :: cs.takeWhile isWordChar), cs.dropWhile isWordChar) := by
  have hminus : (c == '-') = false := by simpa using ne_of_isWordStart hc (by decide)
  have hstart : (c.isAlpha || c == '_') = true := hc
  unfold Token.readToken
  rw [if_neg (by simp [isDigit_of_isWordStart hc]), if_neg (by simp [hminus]), if_pos hstart]

/-- Only a slash could start a comment. -/
theorem ne_slash_of_isWordStart {c : Char} (hc : isWordStart c = true) : c ≠ '/' :=
  ne_of_isWordStart hc (by decide)

/-- **A word is one token**, or none can be read. -/
theorem ofCharsFrom_word {signed : Bool} {cs : List Char} (h : IsWord cs) :
    Token.ofCharsFrom signed cs = [Token.ofWord cs] := by
  obtain ⟨hc, hcs⟩ := h
  rename_i c cs
  have hread := readToken_wordStart hc signed cs
  rw [List.takeWhile_eq_self_iff.2 hcs, List.dropWhile_eq_nil_iff.2 hcs] at hread
  by_cases hlegal : Token.isLegalName (c :: cs) = true
  · rw [Token.ofWord, if_pos hlegal] at hread ⊢
    rw [Token.ofCharsFrom_of_readToken (ne_slash_of_isWordStart hc) (isSpace_of_isWordStart hc)
      (by simp) hread, Token.ofCharsFrom]
  · rw [Token.ofWord, if_neg hlegal] at hread ⊢
    exact Token.ofCharsFrom_of_invalid (ne_slash_of_isWordStart hc) (isSpace_of_isWordStart hc)
      hread

theorem ofChars_word {cs : List Char} (h : IsWord cs) : Token.ofChars cs = [Token.ofWord cs] :=
  ofCharsFrom_word h

/-! ## One expression -/

namespace Parser

/-- What becomes of a word with nothing behind it. -/
def alone (x : String) : Step (Expr × List Token) :=
  match word? x with
  | some e => .ok (e, [])
  | none => .error [.name x]

theorem ends_alone (x : String) : Ends (alone x) := by
  unfold alone
  cases word? x with
  | none => exact ends_error _
  | some e => exact ends_nil e

theorem signed_name (fuel : Nat) (x : String) : signed (fuel + 2) [.name x] = alone x := by
  change (alone x >>= fun p => postfixes (fuel + 1) p.1 p.2) = alone x
  unfold alone
  cases word? x <;> rfl

theorem parse_name (x : String) : parse [.name x] =
    match word? x with
    | some e => .ok e
    | none => .error [.name x] := by
  rw [parse_of_signed (fun fuel => signed_name (fuel + 16) x) (ends_alone x)]
  unfold alone
  cases word? x <;> rfl

/-- A word is a truth value, a variable, or reserved for something else. -/
theorem word?_cases (x : String) :
    (x ∉ Token.reserved ∧ word? x = some (.var x)) ∨
      (x ∈ Token.reserved ∧ (word? x = none ∨ ∃ t, word? x = some (.bool t))) := by
  unfold word?
  by_cases htrue : x = "true"
  · exact Or.inr ⟨by rw [htrue]; decide, Or.inr ⟨true, by simp [htrue]⟩⟩
  by_cases hfalse : x = "false"
  · exact Or.inr ⟨by rw [hfalse]; decide, Or.inr ⟨false, by simp [hfalse]⟩⟩
  by_cases hreserved : x ∈ Token.reserved
  · exact Or.inr ⟨hreserved, Or.inl (by simp [htrue, hfalse, hreserved])⟩
  · exact Or.inl ⟨hreserved, by simp [htrue, hfalse, hreserved]⟩

end Parser

/-- **Words that are variables.** -/
structure IsVariable (source : String) : Prop where
  legal : Token.isLegalName source.toList = true
  free : source ∉ Token.reserved

/-- **What a word is read as.** -/
theorem read_word {source : String} (h : IsWord source.toList) :
    (IsVariable source ∧ read source = .expression (.var source)) ∨
      (¬ IsVariable source ∧
        (read source = .malformed [] ∨ ∃ t, read source = .expression (.bool t))) := by
  rw [read, ofChars_word h, Token.ofWord]
  by_cases hlegal : Token.isLegalName source.toList = true
  · rw [if_pos hlegal, String.ofList_toList, Parser.parse_name]
    obtain ⟨hfree, hword⟩ | ⟨hreserved, hword | ⟨t, hword⟩⟩ := Parser.word?_cases source
    · exact Or.inl ⟨⟨hlegal, hfree⟩, by rw [hword]⟩
    · exact Or.inr ⟨fun hvar => hvar.free hreserved, Or.inl (by rw [hword]; rfl)⟩
    · exact Or.inr ⟨fun hvar => hvar.free hreserved, Or.inr ⟨t, by rw [hword]⟩⟩
  · rw [if_neg hlegal]
    exact Or.inr ⟨fun hvar => hlegal hvar.legal, Or.inl rfl⟩

theorem IsVariable.read_eq {source : String} (hvar : IsVariable source)
    (h : IsWord source.toList) : read source = .expression (.var source) := by
  obtain ⟨-, hread⟩ | ⟨hnot, -⟩ := read_word h
  · exact hread
  · exact absurd hvar hnot

theorem cases_of_read_word {source : String} (h : IsWord source.toList) {e : Expr}
    (hread : read source = .expression e) :
    (IsVariable source ∧ e = .var source) ∨ ∃ t, e = .bool t := by
  obtain ⟨hvar, hword⟩ | ⟨-, hword | ⟨t, hword⟩⟩ := read_word h
  · exact Or.inl ⟨hvar, Parsed.expression.inj (hread.symm.trans hword)⟩
  · cases hread.symm.trans hword
  · exact Or.inr ⟨t, Parsed.expression.inj (hread.symm.trans hword)⟩

/-! ## One number -/

namespace Limits

variable {l : Limits} {b : Bindings} {source : String}

theorem admits_of_depth {e : Expr} (h : e.depth = 1) : l.Admits e := by
  unfold Admits
  omega

/-- A variable takes one step and the end of the evaluation another one. -/
theorem run_var {n : Number} (hb : b.find? none source = some n) (hl : l.operations ≠ 1)
    (mode : Mode) : l.run mode b (.var source) = .ok (.ofNumber n) := by
  rw [run, if_neg (by rw [Expr.steps]; omega), Expr.eval, Bindings.value?, hb]

theorem run_of_operations (hl : l.operations = 1) {e : Expr} (he : e.steps = 1) (mode : Mode) :
    l.run mode b e = .error .tooManyOperations := by
  rw [run, if_pos (by omega)]

/-- A truth value is no number, and too many operations are no failure of arithmetic. -/
theorem run_bool (t : Bool) (mode : Mode) :
    ¬ GivesNumber (l.run mode b (.bool t)) ∧ ¬ FailsInArithmetic (l.run mode b (.bool t)) := by
  unfold run
  split
  · exact ⟨by rintro ⟨_, _, ⟨⟩, _⟩, by rintro ⟨_, ⟨⟩⟩⟩
  · exact ⟨by rintro ⟨_, _, ⟨⟩, ⟨⟩⟩, by rintro ⟨_, ⟨⟩⟩⟩

section

variable (h : IsWord source.toList) {n : Number} (hb : b.find? none source = some n)

include h hb

/-- **The value of a word** is the number bound to it, and only variables have one. -/
theorem eval_word_eq_ok_iff {x : Float} : l.eval source b = .ok x ↔
    (IsVariable source ∧ l.operations ≠ 1) ∧ n.toFloat = x := by
  have hnumber := Value.number?_ofNumber n
  rw [eval_eq_ok_iff]
  constructor
  · rintro ⟨e', v, m, hcompile, hrun, hm, rfl⟩
    obtain ⟨e, hread, -, rfl⟩ := compile_eq_ok_iff.1 hcompile
    -- Neither a variable nor a truth value is changed when it is compiled.
    obtain ⟨hvar, rfl⟩ | ⟨t, rfl⟩ := cases_of_read_word h hread
    · have hl : l.operations ≠ 1 := by
        intro hone
        cases hrun.symm.trans (run_of_operations hone rfl _)
      obtain rfl := Except.ok.inj (hrun.symm.trans (run_var hb hl _))
      obtain rfl := Option.some.inj (hm.symm.trans hnumber)
      exact ⟨⟨hvar, hl⟩, rfl⟩
    · exact absurd ⟨v, m, hrun, hm⟩ (run_bool t .lenient).1
  · rintro ⟨⟨hvar, hl⟩, rfl⟩
    have hcompile : l.compile source = .ok (.var source) :=
      compile_eq_ok_iff.2 ⟨_, hvar.read_eq h, admits_of_depth rfl, rfl⟩
    exact ⟨_, _, n, hcompile, run_var hb hl _, hnumber, rfl⟩

/-- **A word passes its check** exactly if it has a value. -/
theorem check_word_eq_ok_iff : l.check source b = .ok () ↔
    IsVariable source ∧ l.operations ≠ 1 := by
  have hbound : ∀ x ∈ (Expr.var source).names, b.isBound none x = true ∨ b.hasGroup x = true := by
    intro x hx
    obtain rfl := List.mem_singleton.1 hx
    exact Or.inl (by rw [Bindings.isBound_eq, hb]; rfl)
  rw [check_eq_ok_iff]
  constructor
  · rintro ⟨e', hcompile, hrun⟩
    obtain ⟨e, hread, -, -, rfl⟩ := compileBound_eq_ok_iff.1 hcompile
    obtain ⟨hvar, rfl⟩ | ⟨t, rfl⟩ := cases_of_read_word h hread
    · refine ⟨hvar, fun hone => ?_⟩
      have hrefused := run_of_operations (b := b) hone (e := .var source) rfl .strict
      obtain ⟨v, m, hv, -⟩ | ⟨fault, hfault⟩ := hrun
      · cases hv.symm.trans hrefused
      · cases hfault.symm.trans hrefused
    · exact absurd hrun (not_or.2 (run_bool t .strict))
  · rintro ⟨hvar, hl⟩
    have hcompile : l.compileBound b source = .ok (.var source) :=
      compileBound_eq_ok_iff.2 ⟨_, hvar.read_eq h, admits_of_depth rfl, hbound, rfl⟩
    refine ⟨_, hcompile, Or.inl ⟨_, n, run_var hb hl _, ?_⟩⟩
    cases n <;> rfl

end

end Limits

end Expression

end SiteAnalysis
