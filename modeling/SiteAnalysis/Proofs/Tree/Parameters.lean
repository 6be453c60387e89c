import SiteAnalysis.Proofs.Expression.History
import SiteAnalysis.Tree.Scope

set_option autoImplicit false

/-! # Parameters and expressions

A qualified name is looked up in two ways: the search of a tree takes the nearest parameter of the
name and does not regard case, and an expression takes what is bound to the name as it is spelled.
Main statement:

* `Forest.expression_reads_parameter`: an expression has the value of the nearest parameter that is
  spelled as the name is, unless a plain variable hides the group; so it has the value of the
  parameter that the search finds, if this one is spelled so.
-/

namespace SiteAnalysis

namespace Expression

/-! ## Qualified names -/

/-- **A name with the group that it is looked for in**, if any. -/
structure QualifiedName where
  group : Option String
  name : String
  deriving DecidableEq

namespace QualifiedName

variable {q : QualifiedName} {l : Limits} {b : Bindings}

/-- The name as a source. -/
def text (q : QualifiedName) : String :=
  match q.group with
  | none => q.name
  | some g => path g q.name

/-- The expression that the source stands for. -/
def expr (q : QualifiedName) : Expr :=
  match q.group with
  | none => .var q.name
  | some g => .property (.var g) q.name

/-- **Names made of variables**, which expressions can address. -/
structure IsSound (q : QualifiedName) : Prop where
  isWord : IsWord q.name.toList
  isVariable : IsVariable q.name
  isWord_group : ∀ g ∈ q.group, IsWord g.toList
  isVariable_group : ∀ g ∈ q.group, IsVariable g

/-- Whether a plain variable stands before the group of a name. -/
def IsHidden (q : QualifiedName) (b : Bindings) : Prop := ∃ g ∈ q.group, b.isBound none g = true

theorem read_text (hq : q.IsSound) : read q.text = .expression q.expr := by
  obtain ⟨group, name⟩ := q
  cases group with
  | none => exact hq.isVariable.read_eq hq.isWord
  | some g =>
      exact read_path (hq.isWord_group g rfl) hq.isWord (hq.isVariable_group g rfl) hq.isVariable

theorem compile_text (hq : q.IsSound) (hadmits : l.Admits q.expr) :
    l.compile q.text = .ok q.expr := by
  refine Limits.compile_eq_ok_iff.2 ⟨q.expr, read_text hq, hadmits, ?_⟩
  obtain ⟨_ | g, name⟩ := q <;> rfl

/-- **Which number a name stands for**: the one that is bound to it, if its group is in sight. -/
theorem eval_expr_iff {n : Number} :
    (∃ v, q.expr.eval .lenient b = .ok v ∧ v.number? = some n) ↔
      ¬ q.IsHidden b ∧ b.find? q.group q.name = some n := by
  obtain ⟨group, name⟩ := q
  cases group with
  | none =>
      have hclear : ¬ IsHidden ⟨none, name⟩ b := by rintro ⟨g, ⟨⟩, -⟩
      simp only [hclear, not_false_iff, true_and, expr, Expr.eval, Bindings.value?]
      cases hb : b.find? none name with
      | some m => simp [Value.number?_ofNumber]
      | none => cases b.hasGroup name <;> simp [Value.number?]
  | some g =>
      have hhidden : IsHidden ⟨some g, name⟩ b ↔ (b.find? none g).isSome = true := by
        simp [IsHidden, Bindings.isBound_eq]
      simp only [hhidden, expr]
      cases hplain : b.find? none g with
      | some m =>
          -- A number has no properties.
          have hvar : (Expr.var g).eval .lenient b = .ok (.ofNumber m) := by
            rw [Expr.eval, Bindings.value?, hplain]
          have hfails : (Expr.property (.var g) name).eval .lenient b =
              .error (.absentProperty name) := by
            rw [Expr.eval, hvar]
            cases m <;> rfl
          simp [hfails]
      | none =>
          cases hb : b.find? (some g) name with
          | some m => simp [Limits.eval_property hplain hb, Value.number?_ofNumber]
          | none =>
              simp only [reduceCtorEq, and_false, iff_false, not_exists, not_and, Expr.eval,
                Bindings.value?, hplain]
              cases b.hasGroup g with
              | false => rintro v ⟨⟩
              | true =>
                  -- The group is there without the name, which counts as the unit value.
                  have hunit : Value.property .lenient (.group (b.members g)) name = .ok .unit := by
                    simp only [Value.property, b.lookup_members, hb]
                  rintro v hv
                  obtain rfl := Except.ok.inj (hunit.symm.trans hv)
                  rintro ⟨⟩

/-- **The value of a qualified name** as a source. -/
theorem eval_text_eq_ok_iff (hq : q.IsSound) (hadmits : l.Admits q.expr)
    (haffords : l.Affords q.expr) {x : Float} : l.eval q.text b = .ok x ↔
      ¬ q.IsHidden b ∧ ∃ n, b.find? q.group q.name = some n ∧ n.toFloat = x := by
  rw [Limits.eval_eq_ok_iff]
  constructor
  · rintro ⟨e, v, n, hcompile, hrun, hv, hx⟩
    obtain rfl := Except.ok.inj (hcompile.symm.trans (compile_text hq hadmits))
    obtain ⟨hclear, hn⟩ := eval_expr_iff.1 ⟨v, (Limits.run_eq_ok_iff.1 hrun).2, hv⟩
    exact ⟨hclear, n, hn, hx⟩
  · rintro ⟨hclear, n, hn, hx⟩
    obtain ⟨v, hrun, hv⟩ := eval_expr_iff.2 ⟨hclear, hn⟩
    exact ⟨q.expr, v, n, compile_text hq hadmits, Limits.run_eq_ok_iff.2 ⟨haffords, hrun⟩, hv, hx⟩

end QualifiedName

end Expression

open Expression

/-! ## Parameters of a name -/

namespace Parameter

/-- **Whether a parameter is spelled as a name is**, with its case and its group. -/
def IsSpelled (p : Parameter) (q : QualifiedName) : Prop := p.group = q.group ∧ p.name = q.name

instance (p : Parameter) (q : QualifiedName) : Decidable (p.IsSpelled q) :=
  inferInstanceAs (Decidable (_ ∧ _))

theorem IsSpelled.isNamed {p : Parameter} {q : QualifiedName} (h : p.IsSpelled q) :
    p.isNamed q.text = true := by
  have htext : p.qualifiedName = q.text := by
    obtain ⟨group, name⟩ := q
    obtain ⟨rfl, rfl⟩ := h
    cases hg : p.group <;> simp [qualifiedName, QualifiedName.text, path, hg]
  rw [Parameter.isNamed, htext]
  exact sameName_refl q.text

/-- The first parameter of a spelling is the one that is bound. -/
theorem find?_bindAll (ps : List Parameter) (b : Bindings) (q : QualifiedName) :
    (bindAll b ps).find? q.group q.name = (b.find? q.group q.name).or
      ((ps.find? fun p => decide (p.IsSpelled q)).map Parameter.value) := by
  induction ps generalizing b with
  | nil => simp [bindAll]
  | cons p ps ih =>
      have hbind : (p.bind b).find? q.group q.name =
          (b.find? q.group q.name).or (Bindings.find? ⟨[⟨p.group, p.name, p.value⟩]⟩ _ _) :=
        Bindings.find?_bind ⟨p.group, p.name, p.value⟩
      have hcons : bindAll b (p :: ps) = bindAll (p.bind b) ps := rfl
      rw [hcons, ih, hbind, Option.or_assoc]
      by_cases hp : p.IsSpelled q
      · have hfound : Bindings.find? ⟨[⟨p.group, p.name, p.value⟩]⟩ q.group q.name =
            some p.value := by simp [Bindings.find?, hp.1, hp.2]
        simp [hfound, hp]
      · have hother : Bindings.find? ⟨[⟨p.group, p.name, p.value⟩]⟩ q.group q.name = none := by
          simpa [Bindings.find?, IsSpelled] using hp
        simp [hother, hp]

end Parameter

namespace Forest

variable {f : Forest} {from_ : NodeId} {q : QualifiedName}

/-- **The nearest parameter of a spelling** seen from a node. -/
def spelledInScope? (f : Forest) (from_ : NodeId) (q : QualifiedName) : Option (Node × Declared) :=
  (f.parametersInScope from_).find? fun e => decide (e.2.parameter.IsSpelled q)

/-- Whether a plain parameter seen from a node is spelled as the group of a name. -/
def HidesGroup (f : Forest) (from_ : NodeId) (q : QualifiedName) : Prop :=
  ∃ g ∈ q.group, (f.spelledInScope? from_ ⟨none, g⟩).isSome = true

/-- **The search takes the first of all parameters in scope** that has the name in any case. -/
theorem parameterInScope?_eq (f : Forest) (from_ : NodeId) (name : String) :
    f.parameterInScope? from_ name none =
      (f.parametersInScope from_).find? fun e => e.2.parameter.isNamed name := by
  rw [parameterInScope?, parametersInScope, List.find?_flatMap]
  refine congrArg (List.findSome? · (f.visible from_)) (funext fun n => ?_)
  have hnone : ∀ d : Declared, (some d.serial != none) = true := fun _ => rfl
  simp only [List.find?_map, Option.bind_none, Node.findParameter?, hnone, Bool.true_and]
  rfl

theorem find?_bindings (f : Forest) (from_ : NodeId) (q : QualifiedName) :
    (f.bindings from_).find? q.group q.name =
      (f.spelledInScope? from_ q).map fun e => e.2.parameter.value := by
  have hempty : Bindings.empty.find? q.group q.name = none := rfl
  rw [bindings, Parameter.find?_bindAll, hempty, Option.none_or, List.find?_map, Option.map_map]
  rfl

theorem isHidden_bindings_iff : q.IsHidden (f.bindings from_) ↔ f.HidesGroup from_ q := by
  refine exists_congr fun g => and_congr_right fun _ => ?_
  rw [Bindings.isBound_eq, find?_bindings f from_ ⟨none, g⟩, Option.isSome_map]

/-- A parameter that the search finds is the nearest one of its own spelling. -/
theorem spelledInScope?_of_isSpelled {e : Node × Declared}
    (h : f.parameterInScope? from_ q.text none = some e) (he : e.2.parameter.IsSpelled q) :
    f.spelledInScope? from_ q = some e := by
  rw [parameterInScope?_eq, List.find?_eq_some_iff_append] at h
  obtain ⟨-, nearer, farther, hsplit, hnearer⟩ := h
  refine List.find?_eq_some_iff_append.2 ⟨by simpa using he, nearer, farther, hsplit, ?_⟩
  intro e' he'
  have hunnamed := hnearer e' he'
  -- What is spelled as the name has the name in any case.
  by_contra hspelled
  rw [Parameter.IsSpelled.isNamed (by simpa using hspelled)] at hunnamed
  cases hunnamed

/-- **When a qualified name has a value** at a node. -/
theorem eval_bindings_eq_ok_iff {l : Limits} (hq : q.IsSound) (hadmits : l.Admits q.expr)
    (haffords : l.Affords q.expr) {x : Float} : l.eval q.text (f.bindings from_) = .ok x ↔
      ¬ f.HidesGroup from_ q ∧
        ∃ e, f.spelledInScope? from_ q = some e ∧ e.2.parameter.value.toFloat = x := by
  rw [QualifiedName.eval_text_eq_ok_iff hq hadmits haffords, isHidden_bindings_iff, find?_bindings]
  simp only [Option.map_eq_some_iff, exists_exists_and_eq_and]

/-- **Expressions read the nearest parameter of a spelling.** The parameter that is found without
regard to case gives the value if it is spelled as the name is and no plain parameter hides its
group; in general the name has a value exactly if some parameter is spelled so. -/
theorem expression_reads_parameter {l : Limits} (hq : q.IsSound) (hadmits : l.Admits q.expr)
    (haffords : l.Affords q.expr) (f : Forest) (from_ : NodeId) :
    (∀ n d, f.parameterInScope? from_ q.text none = some (n, d) → d.parameter.IsSpelled q →
      (∀ g ∈ q.group, ∀ e ∈ f.parametersInScope from_, ¬ e.2.parameter.IsSpelled ⟨none, g⟩) →
        l.eval q.text (f.bindings from_) = .ok d.parameter.value.toFloat) ∧
    (∀ x, l.eval q.text (f.bindings from_) = .ok x ↔
      ¬ f.HidesGroup from_ q ∧
        ∃ e, f.spelledInScope? from_ q = some e ∧ e.2.parameter.value.toFloat = x) := by
  refine ⟨fun n d hfound hspelled hplain => ?_,
    fun x => eval_bindings_eq_ok_iff hq hadmits haffords⟩
  refine (eval_bindings_eq_ok_iff hq hadmits haffords).2
    ⟨?_, (n, d), spelledInScope?_of_isSpelled hfound hspelled, rfl⟩
  rintro ⟨g, hg, hsome⟩
  obtain ⟨e, he⟩ := Option.isSome_iff_exists.1 hsome
  exact hplain g hg e (List.mem_of_find?_eq_some he) (by simpa using List.find?_some he)

/-- A node that declares parameters, plain ones and members of groups. -/
def declares : Node :=
  { Node.ofType ⟨0⟩ .parameters with
    name := "Given"
    parameters := [⟨0, ⟨"Rho", none, .int 3⟩⟩, ⟨1, ⟨"n", some "A", .int 4⟩⟩,
      ⟨2, ⟨"n", some "B", .int 5⟩⟩, ⟨3, ⟨"B", none, .int 6⟩⟩] }

/-- The node that declares parameters, before one that may use them. -/
def given : Forest :=
  cons declares nil (cons { Node.ofType ⟨1⟩ .ifInRange with name := "Gate" } nil nil)

theorem parametersInScope_given : given.parametersInScope ⟨1⟩ =
    declares.parameters.map fun d => (declares, d) := rfl

/-- What the search finds in `given` under some names. -/
theorem parameterInScope?_given :
    given.parameterInScope? ⟨1⟩ "Rho" none = some (declares, ⟨0, ⟨"Rho", none, .int 3⟩⟩) ∧
    given.parameterInScope? ⟨1⟩ "rho" none = some (declares, ⟨0, ⟨"Rho", none, .int 3⟩⟩) ∧
    given.parameterInScope? ⟨1⟩ "A.n" none = some (declares, ⟨1, ⟨"n", some "A", .int 4⟩⟩) ∧
    given.parameterInScope? ⟨1⟩ "B.n" none = some (declares, ⟨2, ⟨"n", some "B", .int 5⟩⟩) := by
  simp only [parameterInScope?_eq, parametersInScope_given]
  refine ⟨?_, ?_, ?_, ?_⟩
  · exact List.find?_cons_of_pos (by decide +kernel)
  · exact List.find?_cons_of_pos (by decide +kernel)
  · exact (List.find?_cons_of_neg (by decide +kernel)).trans
      (List.find?_cons_of_pos (by decide +kernel))
  · exact (List.find?_cons_of_neg (by decide +kernel)).trans
      ((List.find?_cons_of_neg (by decide +kernel)).trans
        (List.find?_cons_of_pos (by decide +kernel)))

/-- A plain parameter and one in a group, each found and read as it is spelled. -/
theorem expression_reads_given :
    Limits.eval ⟨100000, 64⟩ "Rho" (given.bindings ⟨1⟩) = .ok (Number.int 3).toFloat ∧
      Limits.eval ⟨100000, 64⟩ "A.n" (given.bindings ⟨1⟩) = .ok (Number.int 4).toFloat := by
  have hrho : (QualifiedName.mk none "Rho").IsSound :=
    ⟨isIdentifier_iff.1 (by decide), ⟨by decide, by decide⟩, by simp, by simp⟩
  have hA : IsWord "A".toList := isIdentifier_iff.1 (by decide)
  have hAvar : IsVariable "A" := ⟨by decide, by decide⟩
  have hn : (QualifiedName.mk (some "A") "n").IsSound :=
    ⟨isIdentifier_iff.1 (by decide), ⟨by decide, by decide⟩, by simpa using hA,
      by simpa using hAvar⟩
  obtain ⟨hfoundRho, -, hfoundn, -⟩ := parameterInScope?_given
  constructor
  · exact (expression_reads_parameter hrho (l := ⟨100000, 64⟩) (by decide) (by decide) given
      ⟨1⟩).1 _ _ hfoundRho (by decide) (by simp)
  · refine (expression_reads_parameter hn (l := ⟨100000, 64⟩) (by decide) (by decide) given
      ⟨1⟩).1 _ _ hfoundn (by decide) ?_
    rw [parametersInScope_given]
    simp only [Option.mem_some_iff, forall_eq', List.forall_mem_map]
    decide

/-- In another case, and in a group that a plain parameter hides, a parameter is found and has no
value in expressions. -/
theorem expression_misses_given :
    ((QualifiedName.mk none "rho").IsSound ∧
      given.parameterInScope? ⟨1⟩ "rho" none = some (declares, ⟨0, ⟨"Rho", none, .int 3⟩⟩) ∧
      ∀ x, Limits.eval ⟨100000, 64⟩ "rho" (given.bindings ⟨1⟩) ≠ .ok x) ∧
    (QualifiedName.mk (some "B") "n").IsSound ∧
      given.parameterInScope? ⟨1⟩ "B.n" none = some (declares, ⟨2, ⟨"n", some "B", .int 5⟩⟩) ∧
      ∀ x, Limits.eval ⟨100000, 64⟩ "B.n" (given.bindings ⟨1⟩) ≠ .ok x := by
  have hrho : (QualifiedName.mk none "rho").IsSound :=
    ⟨isIdentifier_iff.1 (by decide), ⟨by decide, by decide⟩, by simp, by simp⟩
  have hB : IsWord "B".toList := isIdentifier_iff.1 (by decide)
  have hBvar : IsVariable "B" := ⟨by decide, by decide⟩
  have hn : (QualifiedName.mk (some "B") "n").IsSound :=
    ⟨isIdentifier_iff.1 (by decide), ⟨by decide, by decide⟩, by simpa using hB,
      by simpa using hBvar⟩
  obtain ⟨-, hfoundrho, -, hfoundn⟩ := parameterInScope?_given
  refine ⟨⟨hrho, hfoundrho, fun x hx => ?_⟩, hn, hfoundn, fun x hx => ?_⟩
  · obtain ⟨-, e, he, -⟩ := (eval_bindings_eq_ok_iff hrho (by decide) (by decide)).1 hx
    have hnone : given.spelledInScope? ⟨1⟩ ⟨none, "rho"⟩ = none := rfl
    cases hnone.symm.trans he
  · exact ((eval_bindings_eq_ok_iff hn (by decide) (by decide)).1 hx).1 ⟨"B", rfl, rfl⟩

end Forest

end SiteAnalysis
