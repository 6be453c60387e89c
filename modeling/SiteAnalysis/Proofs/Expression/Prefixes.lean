import SiteAnalysis.Proofs.Expression.Numeral
import SiteAnalysis.Proofs.Expression.Stuck
import SiteAnalysis.Proofs.Node.Entries

set_option autoImplicit false

/-! # Names as prefixes

A name made by `niceName` holds only characters of identifiers, but it may start with a digit or be
a reserved word. Main statement:

* `Limits.eval_niceName_eq_ok_iff`: a parameter bound under such a name is found by the path of the
  two exactly if both of them are variables, and the limits leave room for a property.

No other path of such texts has a value, whatever is bound (`Limits.eval_path_ne_ok`): a group that
starts with a digit is read as a number, which has no properties, and what the number leaves of
the group makes no expression with it.
-/

namespace SiteAnalysis.Expression

/-- Texts of the characters of identifiers only. -/
def AreWordChars (cs : List Char) : Prop := ∀ c ∈ cs, isWordChar c = true

theorem AreWordChars.suffix {cs cs' : List Char} (h : AreWordChars cs) (hs : cs' <:+ cs) :
    AreWordChars cs' := fun c hc => h c (hs.subset hc)

/-! ## What a number leaves of a name -/

namespace Token

/-- The point behind a name ends what is dropped from the name. -/
theorem dropWhile_append_point {p : Char → Bool} (hp : p '.' = false) (cs rest : List Char) :
    (cs ++ '.' :: rest).dropWhile p = cs.dropWhile p ++ '.' :: rest := by
  rw [List.dropWhile_append]
  split
  · next hnil =>
      rw [List.isEmpty_iff.1 hnil, List.dropWhile_cons_of_neg (by simp [hp])]
      rfl
  · rfl

/-- What a number leaves behind a character of a name. -/
theorem spanDecimal_wordChar {c : Char} (hc : isWordChar c = true) (cs : List Char) :
    (spanDecimal (c :: cs)).2 =
      if c.isDigit || c == '_' then (spanDecimal cs).2
      else if isExponentMark c && exponentBelongsToNumber cs then (spanDecimal cs.tail).2
      else c :: cs := by
  have hpoint : (c == '.') = false := by
    rw [beq_eq_false_iff_ne]
    rintro rfl
    cases hc
  rw [spanDecimal.eq_def]
  dsimp only
  rw [hpoint]
  by_cases hdigit : c.isDigit = true
  · simp [hdigit]
  by_cases hscore : c = '_'
  · simp [hscore]
  by_cases hexponent : (isExponentMark c && exponentBelongsToNumber cs) = true
  · cases cs with
    | nil => simp [exponentBelongsToNumber] at hexponent
    | cons d cs => simp [hdigit, hscore, hexponent]
  · simp [hdigit, hscore, hexponent]

section

variable {name : List Char} (hname : IsWord name)
include hname

theorem spanDecimal_point_name : (spanDecimal ('.' :: name)).2 = '.' :: name := by
  obtain ⟨hc, -⟩ := hname
  rename_i c cs
  have hstart : (c.isAlpha || c == '_') = true := hc
  have hbelongs : pointBelongsToNumber (c :: cs) = false := by
    unfold pointBelongsToNumber
    dsimp only
    rw [isDigit_of_isWordStart hc, hstart]
    rfl
  rw [spanDecimal.eq_def]
  dsimp only
  rw [if_neg (by decide), if_neg (by decide), hbelongs]
  rfl

/-- A decimal number does not reach beyond the point before a name. -/
theorem exists_suffix_spanDecimal {cs : List Char} (hcs : AreWordChars cs) : ∃ rest,
    rest <:+ cs ∧ (spanDecimal (cs ++ '.' :: name)).2 = rest ++ '.' :: name := by
  -- By induction in steps of two characters, which an exponent takes.
  induction cs using List.twoStepInduction with
  | nil => exact ⟨[], List.suffix_rfl, spanDecimal_point_name hname⟩
  | singleton c =>
      have hspan := spanDecimal_wordChar (hcs c (by simp)) ('.' :: name)
      have hbelongs : exponentBelongsToNumber ('.' :: name) = false := rfl
      rw [hbelongs, Bool.and_false, if_neg Bool.false_ne_true,
        spanDecimal_point_name hname] at hspan
      split at hspan
      · exact ⟨[], List.nil_suffix, hspan⟩
      · exact ⟨[c], List.suffix_rfl, hspan⟩
  | cons_cons c d cs ih ih' =>
      have hspan := spanDecimal_wordChar (hcs c (by simp)) (d :: cs ++ '.' :: name)
      split at hspan
      · obtain ⟨rest, hrest, heq⟩ := ih' d (hcs.suffix (List.suffix_cons c _))
        exact ⟨rest, hrest.trans (List.suffix_cons c _), hspan.trans heq⟩
      · split at hspan
        · have hsuffix : cs <:+ c :: d :: cs := (List.suffix_cons d cs).trans (List.suffix_cons c _)
          obtain ⟨rest, hrest, heq⟩ := ih (hcs.suffix hsuffix)
          exact ⟨rest, hrest.trans hsuffix, hspan.trans heq⟩
        · exact ⟨c :: d :: cs, List.suffix_rfl, hspan⟩

/-- **A number at the front of a path** is followed by what it leaves of the group. -/
theorem exists_suffix_readNumber {cs : List Char} (hcs : AreWordChars cs) (first : Char) :
    ∃ rest, rest <:+ cs ∧ (readNumber [] first (cs ++ '.' :: name)).2 = rest ++ '.' :: name := by
  unfold readNumber
  split
  · exact exists_suffix_spanDecimal hname hcs
  · next base digits hradix =>
      obtain ⟨-, hradix⟩ := Option.ite_none_right_eq_some.1 hradix
      -- The base is chosen by a letter of the group.
      unfold radixPart? at hradix
      rw [dropWhile_append_point (by decide)] at hradix
      cases hdrop : cs.dropWhile (· == '_') with
      | nil =>
          rw [hdrop] at hradix
          cases hradix
      | cons c tail =>
          rw [hdrop] at hradix
          obtain ⟨base', -, heq⟩ := Option.map_eq_some_iff.1 hradix
          obtain ⟨-, rfl⟩ := Prod.mk.inj heq
          have hsuffix : tail <:+ cs := by
            have hdropped := List.dropWhile_suffix (l := cs) (· == '_')
            rw [hdrop] at hdropped
            exact (List.suffix_cons c tail).trans hdropped
          refine ⟨tail.dropWhile fun d => (digitIn? base d).isSome || d == '_',
            (List.dropWhile_suffix _).trans hsuffix, ?_⟩
          have hpoint : digitIn? base '.' = none := by
            unfold digitIn?
            exact if_neg (lt_irrefl base)
          exact dropWhile_append_point (by rw [hpoint]; rfl) tail name

end

/-- **A character of a name is no symbol**, and no symbol starts with one. -/
theorem exists_ofCharsFrom_wordChar {c : Char} (hc : isWordChar c = true) (signed : Bool)
    (cs : List Char) : ∃ t rest, ofCharsFrom signed (c :: cs) = t :: rest ∧ ∀ s, t ≠ symbol s := by
  by_cases hdigit : c.isDigit = true
  · obtain hinvalid | ⟨m, hm⟩ := readNumber_cases [] c cs
    · have htokens := ofCharsFrom_number_invalid signed false cs hdigit (by simp) hinvalid
      exact ⟨invalid, [], htokens, by rintro s ⟨⟩⟩
    · have hread : readNumber [] c cs = (ofNumber m, (readNumber [] c cs).2) := Prod.ext hm rfl
      have htokens := ofCharsFrom_number signed false cs hdigit (by simp) hread
      exact ⟨_, _, htokens, ofNumber_ne_symbol m⟩
  · have hstart := isWordStart_of_isWordChar hc hdigit
    have hread := readToken_wordStart hstart signed cs
    rw [ofWord] at hread
    split at hread
    · exact ⟨_, _, ofCharsFrom_of_readToken (ne_slash_of_isWordStart hstart)
        (isSpace_of_isWordStart hstart) (by rintro ⟨⟩) hread, by rintro s ⟨⟩⟩
    · exact ⟨_, _, ofCharsFrom_of_invalid (ne_slash_of_isWordStart hstart)
        (isSpace_of_isWordStart hstart) hread, by rintro s ⟨⟩⟩

end Token

/-- Where a word is no legal name no token can be read. -/
theorem ofCharsFrom_illegal {signed : Bool} {cs rest : List Char} (h : IsWord cs)
    (hlegal : ¬ Token.isLegalName cs = true) (hrest : ∀ d ∈ rest.head?, isWordChar d = false) :
    Token.ofCharsFrom signed (cs ++ rest) = [.invalid] := by
  obtain ⟨hc, hcs⟩ := h
  rename_i c cs
  have htoken := readToken_wordStart hc signed (cs ++ rest)
  rw [Argument.takeWhile_append_of_stop hcs hrest, Token.ofWord, if_neg hlegal] at htoken
  exact Token.ofCharsFrom_of_invalid (ne_slash_of_isWordStart hc) (isSpace_of_isWordStart hc) htoken

/-! ## Paths without a value -/

namespace Parser

/-- A property is asked for by a variable only. -/
theorem isVariable_of_postfixes {x : String} {fuel : Nat} {e e' : Expr} {rest : List Token}
    (hp : postfixes fuel e [.symbol .dot, Token.ofWord x.toList] = .ok (e', rest)) :
    IsVariable x := by
  cases fuel with
  | zero => cases hp
  | succ fuel =>
      unfold Token.ofWord at hp
      split at hp
      · next hlegal =>
          rw [String.ofList_toList] at hp
          refine ⟨hlegal, fun hreserved => ?_⟩
          simp [postfixes, hreserved] at hp
      · cases hp

/-- Tokens that are left behind a number are not joined to it. -/
theorem parse_leftover (m : Number) {t : Token} (ht : ∀ s, t ≠ .symbol s) (ts : List Token) :
    parse (.ofNumber m :: t :: ts) = .error (t :: ts) := by
  have hsigned : ∀ fuel, signed (fuel + 18) (.ofNumber m :: t :: ts) =
      .ok (.ofNumber m, t :: ts) := by
    intro fuel
    rw [signed_leaf (fuel + 16) (Token.ofNumber_ne_symbol m) (by simpa using ht .leftParen),
      leaf?_ofNumber]
    cases t with
    | symbol s => exact absurd rfl (ht s)
    | _ => rfl
  exact parse_of_signed hsigned (ends_cons _ ht ts)

end Parser

namespace Limits

variable {l : Limits} {b : Bindings} {group name : String}

theorem eval_ne_ok_of_parse {source : String} {rest : List Token}
    (hparse : Parser.parse (Token.ofChars source.toList) = .error rest) (x : Float) :
    l.eval source b ≠ .ok x := by
  rw [Ne, eval_eq_ok_iff]
  rintro ⟨e', v, n, hcompile, -⟩
  obtain ⟨e, hread, -⟩ := compile_eq_ok_iff.1 hcompile
  unfold read at hread
  dsimp only at hread
  rw [hparse] at hread
  cases hread

/-- A path starts with a word that is not reserved, and ends in one. -/
theorem eval_path_ne_ok_of_isWord (hgroup : IsWord group.toList) (hname : IsWord name.toList)
    (hnot : ¬ (IsVariable group ∧ IsVariable name)) (x : Float) :
    l.eval (path group name) b ≠ .ok x := by
  refine eval_ne_ok ?_ x
  by_cases hlegal : Token.isLegalName group.toList = true
  · rw [toList_path, Token.ofChars, ofCharsFrom_name hgroup hlegal (by simp; decide),
      ofCharsFrom_point hname, ofCharsFrom_word hname, String.ofList_toList]
    refine Parser.startsStuck_leaf (by simp) (by simp) fun e hleaf fuel e' rest hp => ?_
    obtain ⟨hfree, -⟩ | ⟨-, hword | ⟨t, hword⟩⟩ := Parser.word?_cases group
    · exact absurd ⟨⟨hlegal, hfree⟩, Parser.isVariable_of_postfixes hp⟩ hnot
    · cases hword.symm.trans hleaf
    · obtain rfl := Option.some.inj (hword.symm.trans hleaf)
      exact Parser.stuck_of_postfixes_literal rfl (by simp) hp
  · have htokens : Token.ofCharsFrom true (group.toList ++ '.' :: name.toList) = [.invalid] :=
      ofCharsFrom_illegal hgroup hlegal (by simp; decide)
    rw [toList_path, Token.ofChars, htokens]
    exact Parser.startsStuck_invalid b []

/-- What starts with a digit is a number, which has no properties. -/
theorem eval_path_ne_ok_of_isDigit {c : Char} {cs : List Char} (hgroup : group.toList = c :: cs)
    (hc : c.isDigit = true) (hcs : AreWordChars cs) (hname : IsWord name.toList) (x : Float) :
    l.eval (path group name) b ≠ .ok x := by
  obtain ⟨rest, hrest, hspan⟩ := Token.exists_suffix_readNumber hname hcs c
  obtain hinvalid | ⟨m, hm⟩ := Token.readNumber_cases [] c (cs ++ '.' :: name.toList)
  · have htokens : Token.ofChars (path group name).toList = [.invalid] := by
      rw [toList_path, hgroup]
      exact Token.ofCharsFrom_number_invalid true false _ hc (by simp) hinvalid
    refine eval_ne_ok ?_ x
    rw [htokens]
    exact Parser.startsStuck_invalid b []
  · have htokens : Token.ofChars (path group name).toList =
        .ofNumber m :: Token.ofCharsFrom false (rest ++ '.' :: name.toList) := by
      rw [toList_path, hgroup]
      exact Token.ofCharsFrom_number true false _ hc (by simp) (Prod.ext hm hspan)
    cases rest with
    | nil =>
        -- The number is the whole group.
        refine eval_ne_ok ?_ x
        rw [htokens, List.nil_append, ofCharsFrom_point hname, ofCharsFrom_word hname]
        refine Parser.startsStuck_leaf (Token.ofNumber_ne_symbol m) (by simp) ?_
        intro e hleaf fuel e' rest hp
        obtain rfl := Option.some.inj ((Parser.leaf?_ofNumber m).symm.trans hleaf)
        exact Parser.stuck_of_postfixes_literal (by cases m <;> rfl) (by simp) hp
    | cons d rest =>
        have hd : isWordChar d = true := hcs d (hrest.subset (by simp))
        obtain ⟨t, ts, ht, hsymbol⟩ :=
          Token.exists_ofCharsFrom_wordChar hd false (rest ++ '.' :: name.toList)
        have hparse : Parser.parse (Token.ofChars (path group name).toList) = .error (t :: ts) := by
          rw [htokens, List.cons_append, ht]
          exact Parser.parse_leftover m hsymbol ts
        exact eval_ne_ok_of_parse hparse x

/-- A variable starts with no digit. -/
theorem isWord_of_isVariable (hchars : IsWordName group) (h : IsVariable group) :
    IsWord group.toList := by
  have hlegal := h.legal
  unfold IsWordName at hchars
  cases hcs : group.toList with
  | nil =>
      rw [hcs] at hlegal
      cases hlegal
  | cons c cs =>
      rw [hcs] at hlegal hchars
      refine ⟨?_, fun d hd => hchars d (by simp [hd])⟩
      by_cases hscore : c = '_'
      · simp [isWordStart, hscore]
      · have halpha : c.isAlpha = true := by
          simpa [Token.isLegalName, List.dropWhile_cons, hscore] using hlegal
        simp [isWordStart, halpha]

/-- **No other path has a value**, whatever is bound. -/
theorem eval_path_ne_ok (hgroup : group ≠ "") (hchars : IsWordName group)
    (hname : IsWord name.toList) (hnot : ¬ (IsVariable group ∧ IsVariable name)) (x : Float) :
    l.eval (path group name) b ≠ .ok x := by
  cases hcs : group.toList with
  | nil => exact absurd (String.toList_inj.1 hcs) hgroup
  | cons c cs =>
      have hcs' : AreWordChars cs := fun d hd => hchars d (by simp [hcs, hd])
      by_cases hdigit : c.isDigit = true
      · exact eval_path_ne_ok_of_isDigit hcs hdigit hcs' hname x
      · have hstart := isWordStart_of_isWordChar (hchars c (by simp [hcs])) hdigit
        exact eval_path_ne_ok_of_isWord (by rw [hcs]; exact ⟨hstart, hcs'⟩) hname hnot x

/-- **The value of a path** is the number bound in the group exactly if both parts are variables
and the limits leave room for the property. -/
theorem eval_path_eq_ok_iff (hgroup : group ≠ "") (hchars : IsWordName group)
    (hname : IsWord name.toList) {n : Number} (hplain : b.find? none group = none)
    (hb : b.find? (some group) name = some n) : l.eval (path group name) b = .ok n.toFloat ↔
      (IsVariable group ∧ IsVariable name) ∧ l.Admits (.property (.var group) name) ∧
        l.Affords (.property (.var group) name) := by
  by_cases hvar : IsVariable group ∧ IsVariable name
  · have hread := read_path (isWord_of_isVariable hchars hvar.1) hname hvar.1 hvar.2
    rw [eval_eq_ok_iff_of_read hread (eval_property hplain hb .lenient), and_iff_right hvar]
    exact and_iff_left rfl
  · exact iff_of_false (eval_path_ne_ok hgroup hchars hname hvar _) fun h => hvar h.1

/-! ## Names that are made fit -/

/-- **A name as the prefix of a parameter.** With nothing but the parameter bound, its path gives its
value exactly if the name made from the text and the name of the parameter are variables, and the
limits leave room for a property. -/
theorem eval_niceName_eq_ok_iff {t x : String} (ht : niceName t ≠ "")
    (hx : isIdentifier x = true) (l : Limits) (v : Number) :
    l.eval (path (niceName t) x) (.bind .empty (some (niceName t)) x v) = .ok v.toFloat ↔
      (IsVariable (niceName t) ∧ IsVariable x) ∧ l.depth ≠ 1 ∧ l.operations ∉ [1, 2] := by
  have hplain : (Bindings.bind .empty (some (niceName t)) x v).find? none (niceName t) = none := rfl
  have hb : (Bindings.bind .empty (some (niceName t)) x v).find? (some (niceName t)) x = some v := by
    simp [Bindings.bind, Bindings.empty, Bindings.isBound, Bindings.find?]
  rw [eval_path_eq_ok_iff ht (isWordName_niceName t) (isIdentifier_iff.1 hx) hplain hb]
  refine and_congr_right' (and_congr ?_ ?_)
  · simp only [Admits, Expr.depth]
    omega
  · simp only [Affords, Expr.steps, List.mem_cons, List.not_mem_nil, or_false]
    omega

theorem eval_niceName_spaced :
    Limits.eval ⟨100000, 64⟩ (path (niceName " Liquid Water ") "n")
      (.bind .empty (some (niceName " Liquid Water ")) "n" (.int 4)) = .ok (Number.int 4).toFloat := by
  have hgroup : IsVariable (niceName " Liquid Water ") := ⟨by decide, by decide⟩
  have hname : IsVariable "n" := ⟨by decide, by decide⟩
  exact (eval_niceName_eq_ok_iff (by decide) (by decide) ⟨100000, 64⟩ (.int 4)).2
    ⟨⟨hgroup, hname⟩, by decide, by decide⟩

/-- **Names that are no prefixes.** A text that starts with a digit stays as it is, and so does a
reserved word. -/
theorem not_eval_niceName : isIdentifier "n" = true ∧ "n" ∉ Token.reserved ∧
    ∀ t ∈ ["1st", "true"], niceName t = t ∧ niceName t ≠ "" ∧
      ∀ y, Limits.eval ⟨100000, 64⟩ (path (niceName t) "n")
        (.bind .empty (some (niceName t)) "n" (.int 4)) ≠ .ok y := by
  have hname : IsWord "n".toList := isIdentifier_iff.1 (by decide)
  have hfit : ∀ t ∈ ["1st", "true"], niceName t = t ∧ niceName t ≠ "" := by decide
  have hnot : ∀ t ∈ ["1st", "true"], ¬ IsVariable (niceName t) := by
    intro t ht hvar
    have hall : ∀ t ∈ ["1st", "true"],
        Token.isLegalName (niceName t).toList = false ∨ niceName t ∈ Token.reserved := by decide
    rcases hall t ht with hlegal | hreserved
    · exact absurd hvar.legal (by simp [hlegal])
    · exact hvar.free hreserved
  refine ⟨by decide, by decide, fun t ht => ⟨(hfit t ht).1, (hfit t ht).2, ?_⟩⟩
  exact eval_path_ne_ok (hfit t ht).2 (isWordName_niceName t) hname fun h => hnot t ht h.1

end Limits

end SiteAnalysis.Expression
