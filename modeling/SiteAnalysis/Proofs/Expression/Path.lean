import SiteAnalysis.Proofs.Expression.Word
import SiteAnalysis.Proofs.Text.Quoting

set_option autoImplicit false

/-! # Sources that are a path

What the engine makes of a source `group.name`, where both parts are variables by their form. It is
read as a property of a variable (`read_path`), and its value is the number bound to the name in
the group, unless a plain variable hides the group (`eval_path`).
-/

namespace SiteAnalysis.Expression

/-- **The source of a path.** -/
def path (group name : String) : String := group ++ "." ++ name

theorem toList_path (group name : String) :
    (path group name).toList = group.toList ++ '.' :: name.toList := by
  simp [path]

/-! ## Three tokens -/

/-- A word that is a legal name is the first token of a text if no word character follows. -/
theorem ofCharsFrom_name {signed : Bool} {cs rest : List Char} (h : IsWord cs)
    (hlegal : Token.isLegalName cs = true) (hrest : ∀ d ∈ rest.head?, isWordChar d = false) :
    Token.ofCharsFrom signed (cs ++ rest) =
      .name (String.ofList cs) :: Token.ofCharsFrom false rest := by
  obtain ⟨hc, hcs⟩ := h
  rename_i c cs
  have htoken := readToken_wordStart hc signed (cs ++ rest)
  rw [Argument.takeWhile_append_of_stop hcs hrest, Argument.dropWhile_append_of_stop hcs hrest,
    Token.ofWord, if_pos hlegal] at htoken
  exact Token.ofCharsFrom_of_readToken (ne_slash_of_isWordStart hc) (isSpace_of_isWordStart hc)
    (by simp) htoken

/-- A point before a word is a token of its own. -/
theorem ofCharsFrom_point {signed : Bool} {cs : List Char} (h : IsWord cs) :
    Token.ofCharsFrom signed ('.' :: cs) = .symbol .dot :: Token.ofCharsFrom false cs := by
  obtain ⟨hc, -⟩ := h
  rename_i c cs
  have hne : c ∉ ['.', '=', '>'] := by
    simp [ne_of_isWordStart (d := '.') hc (by decide), ne_of_isWordStart (d := '=') hc (by decide),
      ne_of_isWordStart (d := '>') hc (by decide)]
  exact Token.ofCharsFrom_symbol cs (by simp) hne (by simp)

variable {group name : String}

theorem ofChars_path (hgroup : IsWord group.toList) (hname : IsWord name.toList)
    (hg : IsVariable group) (hn : IsVariable name) :
    Token.ofChars (path group name).toList = [.name group, .symbol .dot, .name name] := by
  rw [toList_path, Token.ofChars, ofCharsFrom_name hgroup hg.legal (by simp; decide),
    ofCharsFrom_point hname, ofCharsFrom_word hname, Token.ofWord, if_pos hn.legal,
    String.ofList_toList, String.ofList_toList]

/-! ## One expression -/

namespace Parser

theorem word?_of_isVariable {x : String} (h : IsVariable x) : word? x = some (.var x) := by
  obtain ⟨-, hword⟩ | ⟨hreserved, -⟩ := word?_cases x
  · exact hword
  · exact absurd hreserved h.free

theorem signed_path (hg : IsVariable group) (hn : IsVariable name) (fuel : Nat) :
    signed (fuel + 3) [.name group, .symbol .dot, .name name] =
      .ok (.property (.var group) name, []) := by
  have hleaf : leaf? (.name group) = some (.var group) := word?_of_isVariable hg
  rw [signed_leaf (fuel + 1) (by simp) (by simp), hleaf]
  simp [postfixes, hn.free]

end Parser

/-- **What a path is read as.** -/
theorem read_path (hgroup : IsWord group.toList) (hname : IsWord name.toList)
    (hg : IsVariable group) (hn : IsVariable name) :
    read (path group name) = .expression (.property (.var group) name) := by
  have hparse : Parser.parse [.name group, .symbol .dot, .name name] =
      .ok (.property (.var group) name) :=
    Parser.parse_of_signed (fun fuel => Parser.signed_path hg hn (fuel + 15)) (Parser.ends_nil _)
  rw [read, ofChars_path hgroup hname hg hn]
  simp only [hparse]

/-! ## One number -/

namespace Limits

variable {l : Limits} {b : Bindings}

/-- The steps that are permitted for an expression; the end of the evaluation takes one more. -/
def Affords (l : Limits) (e : Expr) : Prop := ¬ (l.operations ≠ 0 ∧ l.operations < e.steps + 1)

instance (l : Limits) (e : Expr) : Decidable (l.Affords e) := inferInstanceAs (Decidable (¬ _))

theorem run_eq_ok_iff {mode : Mode} {e : Expr} {v : Value} :
    l.run mode b e = .ok v ↔ l.Affords e ∧ e.eval mode b = .ok v := by
  unfold run
  split
  · next hrefused => exact iff_of_false (by rintro ⟨⟩) fun h => h.1 hrefused
  · next haffords => exact (and_iff_right haffords).symm

/-- **A source that comes to a number** gives it if the limits leave room for the expression. -/
theorem eval_eq_ok_iff_of_read {source : String} {e : Expr} {n : Number}
    (hread : read source = .expression e)
    (he : e.settled.simplified.eval .lenient b = .ok (.ofNumber n)) {x : Float} :
    l.eval source b = .ok x ↔
      (l.Admits e ∧ l.Affords e.settled.simplified) ∧ n.toFloat = x := by
  have hnumber := Value.number?_ofNumber n
  rw [eval_eq_ok_iff]
  constructor
  · rintro ⟨e', v, m, hcompile, hrun, hm, rfl⟩
    obtain ⟨e'', hread', hadmits, rfl⟩ := compile_eq_ok_iff.1 hcompile
    obtain rfl := Parsed.expression.inj (hread.symm.trans hread')
    obtain ⟨haffords, hv⟩ := run_eq_ok_iff.1 hrun
    obtain rfl := Except.ok.inj (he.symm.trans hv)
    obtain rfl := Option.some.inj (hnumber.symm.trans hm)
    exact ⟨⟨hadmits, haffords⟩, rfl⟩
  · rintro ⟨⟨hadmits, haffords⟩, rfl⟩
    have hcompile := compile_eq_ok_iff.2 ⟨e, hread, hadmits, rfl⟩
    exact ⟨_, _, n, hcompile, run_eq_ok_iff.2 ⟨haffords, he⟩, hnumber, rfl⟩

/-- A plain variable has no members, and no members make no group. -/
theorem eval_property {n : Number} (hplain : b.find? none group = none)
    (hn : b.find? (some group) name = some n) (mode : Mode) :
    (Expr.property (.var group) name).eval mode b = .ok (.ofNumber n) := by
  have hgroup : b.hasGroup group = true := (b.hasGroup_iff group).2 ⟨name, by rw [hn]; rfl⟩
  have hvalue : b.value? group = some (.group (b.members group)) := by
    rw [Bindings.value?, hplain]
    exact if_pos hgroup
  have hvar : (Expr.var group).eval mode b = .ok (.group (b.members group)) := by
    rw [Expr.eval, hvalue]
  rw [Expr.eval, hvar]
  change Value.property mode (.group (b.members group)) name = _
  simp only [Value.property, b.lookup_members, hn]

/-- **The value of a path** is the number bound in the group. -/
theorem eval_path (hgroup : IsWord group.toList) (hname : IsWord name.toList)
    (hg : IsVariable group) (hn : IsVariable name)
    (hadmits : l.Admits (.property (.var group) name))
    (haffords : l.Affords (.property (.var group) name)) {n : Number}
    (hplain : b.find? none group = none) (hb : b.find? (some group) name = some n) :
    l.eval (path group name) b = .ok n.toFloat :=
  (eval_eq_ok_iff_of_read (read_path hgroup hname hg hn) (eval_property hplain hb .lenient)).2
    ⟨⟨hadmits, haffords⟩, rfl⟩

end Limits

end SiteAnalysis.Expression
