import SiteAnalysis.Proofs.Expression.Word

set_option autoImplicit false

/-! # Names of parameters as scalars

Three tests look at the name of a parameter. A declaration asks for an identifier, reading a scalar
takes some identifiers for floats, and expressions reserve others. Main statement:

* `declared_readable_iff`: the scalar that is nothing but the name of a declared parameter has the
  value of the parameter, whatever it is, exactly if the name is neither a word for a float nor
  reserved, and has a letter before any digit. The declaration of a parameter does not tell
  (`declared_unreadable`).
-/

namespace SiteAnalysis

/-! ## Words as numbers -/

/-- **Words for floats**, in lower case. -/
def floatWords : List String := ["inf", "infinity", "nan"]

theorem foldCase_eq_iff {s t : String} :
    foldCase s = t ↔ s.toList.map Char.toLower = t.toList := by
  rw [foldCase, ← String.toList_inj, String.toList_ofList]

theorem isBlank_of_toNat {c : Char} (h : 48 ≤ c.toNat ∧ c.toNat ≤ 122) : isBlank c = false := by
  grind [isBlank]

theorem IsWord.isBlank {cs : List Char} (h : IsWord cs) : ∀ c ∈ cs, isBlank c = false := by
  obtain ⟨hc, hcs⟩ := h
  have hrange := toNat_of_isWordStart hc
  exact List.forall_mem_cons.2 ⟨isBlank_of_toNat ⟨by omega, hrange.2⟩,
    fun d hd => isBlank_of_toNat (toNat_of_isWordChar (hcs d hd))⟩

theorem trim_word {s : String} (h : IsWord s.toList) : trim s = s := by
  have htrimmed : IsTrimmed s.toList :=
    ⟨fun c hc => h.isBlank c (List.mem_of_mem_head? hc),
      fun c hc => h.isBlank c (List.mem_of_mem_getLast? hc)⟩
  rw [trim, trimBlanks_of_isTrimmed htrimmed, String.ofList_toList]

theorem readSign_word {cs : List Char} (h : IsWord cs) : readSign cs = (false, cs) := by
  obtain ⟨hc, -⟩ := h
  have hminus := ne_of_isWordStart (d := '-') hc (by decide)
  have hplus := ne_of_isWordStart (d := '+') hc (by decide)
  unfold readSign
  split <;> simp_all

theorem readNat?_word {cs : List Char} (h : IsWord cs) : readNat? cs = none := by
  obtain ⟨hc, -⟩ := h
  simp [readNat?, isDigit_of_isWordStart hc]

theorem readDecimal?_word {cs : List Char} (h : IsWord cs) : readDecimal? cs = none := by
  obtain ⟨hc, -⟩ := h
  have hpoint := ne_of_isWordStart (d := '.') hc (by decide)
  simp only [readDecimal?, List.takeWhile_cons, List.dropWhile_cons, isDigit_of_isWordStart hc,
    Bool.false_eq_true, if_false]
  split <;> simp_all

theorem readInt?_word {s : String} (h : IsWord s.toList) : readInt? s = none := by
  simp only [readInt?, readSign_word h, readNat?_word h]

theorem readFloat?_word {s : String} (h : IsWord s.toList) : readFloat? s =
    if foldCase s = "inf" ∨ foldCase s = "infinity" then some (1.0 / 0.0)
    else if foldCase s = "nan" then some (0.0 / 0.0)
    else none := by
  simp only [readFloat?, readSign_word h, readDecimal?_word h, foldCase_eq_iff, Bool.or_eq_true,
    beq_iff_eq, Bool.false_eq_true, if_false]
  exact congrFun Option.map_id _

/-- The words for floats are read as floats that are not finite, and no other words are read. -/
theorem readFloat?_word_cases {s : String} (h : IsWord s.toList) :
    (foldCase s ∉ floatWords ∧ readFloat? s = none) ∨
      (foldCase s ∈ floatWords ∧ ∃ x : Float, readFloat? s = some x ∧ x.isFinite = false) := by
  rw [readFloat?_word h]
  simp only [floatWords, List.mem_cons, List.not_mem_nil, or_false]
  split
  · next hinf => exact Or.inr ⟨or_assoc.1 (Or.inl hinf), _, rfl, rfl⟩
  · next hinf =>
      split
      · next hnan => exact Or.inr ⟨Or.inr (Or.inr hnan), _, rfl, rfl⟩
      · next hnan => exact Or.inl ⟨by grind, rfl⟩

namespace Scalar

/-- **Names that scalars read as variables.** -/
structure IsReadable (name : String) : Prop where
  isVariable : Expression.IsVariable name
  notFloat : foldCase name ∉ floatWords

theorem read_word_cases {name : String} (h : IsWord name.toList) :
    (foldCase name ∉ floatWords ∧ read name = expression name) ∨
      (foldCase name ∈ floatWords ∧ ∃ x : Float, read name = float x ∧ x.isFinite = false) := by
  have hint : readInt? (trim name) = none := by rw [trim_word h, readInt?_word h]
  obtain ⟨hnot, hfloat⟩ | ⟨hmem, x, hfloat, hinfinite⟩ := readFloat?_word_cases h
  · exact Or.inl ⟨hnot, read_eq_expression_iff.2 ⟨hint, by rwa [trim_word h], trim_word h⟩⟩
  · exact Or.inr ⟨hmem, x, read_eq_float_iff.2 ⟨hint, by rwa [trim_word h]⟩, hinfinite⟩

/-- The number zero under one name. -/
def zeroNamed (name : String) : Expression.Bindings := ⟨[⟨none, name, .int 0⟩]⟩

/-- **The name of a declared parameter is read as the parameter** exactly if it is readable. -/
theorem declared_readable_iff {node node' : Node} {name : String} {value : Expression.Number}
    (h : node.declareRead name value = .ok node') (l : Expression.Limits) :
    (∀ (b : Expression.Bindings) (n : Expression.Number), b.find? none name = some n →
        (read name).evaluate l b = .ok n.toFloat ∧ (read name).check l b = .ok ()) ↔
      IsReadable name ∧ l.operations ≠ 1 := by
  have hword : IsWord name.toList := by
    unfold Node.declareRead at h
    split at h
    · next hidentifier => exact isIdentifier_iff.1 hidentifier
    · cases h
  constructor
  · intro hall
    -- Zero is no value of a word for a float, whose floats are not finite.
    have hzero : (zeroNamed name).find? none name = some (.int 0) := by
      simp [zeroNamed, Expression.Bindings.find?]
    obtain ⟨heval, -⟩ := hall _ _ hzero
    obtain ⟨hnot, hread⟩ | ⟨-, x, hread, hinfinite⟩ := read_word_cases hword
    · rw [hread] at heval
      obtain ⟨⟨hvar, hl⟩, -⟩ := (Expression.Limits.eval_word_eq_ok_iff hword hzero).1 heval
      exact ⟨⟨hvar, hnot⟩, hl⟩
    · rw [hread] at heval
      obtain rfl := Except.ok.inj heval
      exact absurd hinfinite (by decide)
  · rintro ⟨⟨hvar, hnot⟩, hl⟩ b n hb
    obtain ⟨-, hread⟩ | ⟨hmem, -⟩ := read_word_cases hword
    · rw [hread]
      exact ⟨(Expression.Limits.eval_word_eq_ok_iff hword hb).2 ⟨⟨hvar, hl⟩, rfl⟩,
        (Expression.Limits.check_word_eq_ok_iff hword hb).2 ⟨hvar, hl⟩⟩
    · exact absurd hmem hnot

theorem declared_readable_rho :
    ((Node.ofType ⟨1⟩ .parameters).declareRead "rho" (.int 3)).isOk = true ∧
      (read "rho").evaluate ⟨100000, 64⟩ (.bind .empty none "rho" (.int 3)) =
        .ok (Expression.Number.int 3).toFloat ∧
      (read "rho").check ⟨100000, 64⟩ (.bind .empty none "rho" (.int 3)) = .ok () := by
  have hdeclare : (Node.ofType ⟨1⟩ .parameters).declareRead "rho" (.int 3) =
      .ok ((Node.ofType ⟨1⟩ .parameters).declare "rho" (.int 3)) := rfl
  have hreadable : IsReadable "rho" := ⟨⟨by decide, by decide⟩, by decide⟩
  exact ⟨rfl, (declared_readable_iff hdeclare ⟨100000, 64⟩).2 ⟨hreadable, by decide⟩ _ _ rfl⟩

/-- A parameter may be declared under a reserved name, and then no expression gives its value. -/
theorem declared_unreadable :
    ((Node.ofType ⟨1⟩ .parameters).declareRead "true" (.int 3)).isOk = true ∧
      Expression.Bindings.find? (.bind .empty none "true" (.int 3)) none "true" = some (.int 3) ∧
      (read "true").evaluate ⟨100000, 64⟩ (.bind .empty none "true" (.int 3)) ≠
        .ok (Expression.Number.int 3).toFloat ∧
      (read "true").check ⟨100000, 64⟩ (.bind .empty none "true" (.int 3)) ≠ .ok () := by
  have hword : IsWord "true".toList := isIdentifier_iff.1 (by decide)
  have hreserved : "true" ∈ Expression.Token.reserved := by decide
  have hread : read "true" = expression "true" := rfl
  refine ⟨rfl, rfl, fun heval => ?_, fun hcheck => ?_⟩
  · rw [hread] at heval
    exact ((Expression.Limits.eval_word_eq_ok_iff hword rfl).1 heval).1.1.free hreserved
  · rw [hread] at hcheck
    exact ((Expression.Limits.check_word_eq_ok_iff hword rfl).1 hcheck).1.free hreserved

end Scalar

end SiteAnalysis
