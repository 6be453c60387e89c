import Mathlib
import SiteAnalysis.Proofs.Expression.Outcomes
import SiteAnalysis.Proofs.Expression.Simplification

set_option autoImplicit false

/-! # Evaluation and check agree

`eval` runs what is left of a source after simplification and treats absent members as the unit
value; `check` runs the source as it stands and refuses absent members. Main statement:

* `eval_and_check_agree`: a source that evaluates passes its check exactly when neither `&&` nor
  `||` stands in it, and a source that passes its check evaluates or fails in arithmetic.
* `eval_of_sameKinds`: a source that evaluates goes on to evaluate, or fails in arithmetic, with
  any other numbers of the same kinds, and goes on to pass its check if it did.

The operators are an exception because simplification drops `true && ` in front of an operand
without asking that the operand is a truth value (`eval_ok_check_refused`).
-/

namespace SiteAnalysis.Expression

/-- Whether `&&` or `||` stands in a source. -/
def usesLogic (source : String) : Bool :=
  match read source with
  | .expression e => e.hasLogic
  | .malformed _ => false

theorem usesLogic_of_read {source : String} {e : Expr} (h : read source = .expression e) :
    usesLogic source = e.hasLogic := by
  unfold usesLogic
  simp only [h]

namespace Limits

variable {l : Limits} {b : Bindings} {source : String}

/-- What an expression gives in the strict mode, it gives after simplification. -/
theorem simplified_of_strict {e : Expr}
    (h : GivesNumber (e.eval .strict b) ∨ FailsInArithmetic (e.eval .strict b)) :
    e.simplified.eval .lenient b = e.eval .strict b := by
  refine Expr.refines_simplified b e ?_
  rcases h with ⟨v, n, hv, -⟩ | hfail
  · exact Or.inl ⟨v, hv⟩
  · exact Or.inr hfail

/-- A check of an expression that evaluates meets no operator `&&` or `||`. -/
theorem hasLogic_of_strict {e : Expr} (heval : GivesNumber (e.simplified.eval .lenient b))
    (hcheck : GivesNumber (e.eval .strict b) ∨ FailsInArithmetic (e.eval .strict b)) :
    e.hasLogic = false := by
  rw [simplified_of_strict hcheck] at heval
  obtain ⟨k, hk⟩ := Expr.exists_shape?_of_givesNumber heval
  exact (Expr.parts_of_shape? b e hk).2

/-- Without these operators, an expression that evaluates has the shape of a number as it was
read. -/
theorem exists_shape?_of_simplified {e : Expr} (heval : GivesNumber (e.simplified.eval .lenient b))
    (hlogic : e.hasLogic = false) : ∃ k, e.shape? b.shape? = some (.number k) := by
  obtain ⟨k, hk⟩ := Expr.exists_shape?_of_givesNumber heval
  exact ⟨k, by rwa [Expr.shape?_simplified e hlogic] at hk⟩

/-- **A source that evaluates passes its check exactly when it holds no `&&` or `||`, and what
passes its check evaluates or fails in arithmetic.** -/
theorem eval_and_check_agree (hl : l.operations = 0) (source : String) (b : Bindings) :
    ((∃ x, l.eval source b = .ok x) →
      (l.check source b = .ok () ↔ usesLogic source = false)) ∧
    (l.check source b = .ok () →
      (∃ x, l.eval source b = .ok x) ∨ EvalFailsInArithmetic source (l.eval source b)) := by
  constructor
  · intro heval
    obtain ⟨e, hread, hadmits, hnumber⟩ := (exists_eval_eq_ok_iff_read hl).1 heval
    rw [usesLogic_of_read hread, ← (Expr.parts_settled e).2.2]
    constructor
    · intro hcheck
      exact hasLogic_of_strict hnumber (strict_of_check hl hread hcheck)
    · intro hlogic
      obtain ⟨k, hk⟩ := exists_shape?_of_simplified hnumber hlogic
      exact check_of_shape? hl hread hadmits hk
  · intro hcheck
    obtain ⟨e, hread, hadmits, -, hstrict⟩ := (check_eq_ok_iff_read hl).1 hcheck
    refine eval_of_simplified hl hread hadmits ?_
    rwa [simplified_of_strict hstrict]

/-- A source that evaluates to twice an integer passes its check. -/
theorem eval_and_check_agree_twice :
    (∃ x, (⟨0, 64⟩ : Limits).eval "2 * A.n" ⟨[⟨some "A", "n", .int 3⟩]⟩ = .ok x) ∧
      (⟨0, 64⟩ : Limits).check "2 * A.n" ⟨[⟨some "A", "n", .int 3⟩]⟩ = .ok () := by
  have hread : read "2 * A.n" =
      .expression (.binary .multiply (.int 2) (.property (.var "A") "n")) := by cbv
  have heval : ∃ x, (⟨0, 64⟩ : Limits).eval "2 * A.n" ⟨[⟨some "A", "n", .int 3⟩]⟩ = .ok x :=
    (exists_eval_eq_ok_iff_read rfl).2 ⟨_, hread, by decide, .int 6, .int 6, by cbv, rfl⟩
  exact ⟨heval, ((eval_and_check_agree rfl "2 * A.n" _).1 heval).2 (usesLogic_of_read hread)⟩

/-- A number behind `true &&` evaluates, and its check fails. -/
theorem eval_ok_check_refused :
    (∃ x, (⟨0, 64⟩ : Limits).eval "true && x" ⟨[⟨none, "x", .int 1⟩]⟩ = .ok x) ∧
      (⟨0, 64⟩ : Limits).check "true && x" ⟨[⟨none, "x", .int 1⟩]⟩ ≠ .ok () := by
  have hread : read "true && x" = .expression (.logic .both (.bool true) (.var "x")) := by cbv
  constructor
  · exact (exists_eval_eq_ok_iff_read rfl).2 ⟨_, hread, by decide, .int 1, .int 1, by cbv, rfl⟩
  · intro hcheck
    have hstrict : (Expr.logic .both (.bool true) (.var "x")).eval .strict
        ⟨[⟨none, "x", .int 1⟩]⟩ = .error (.notTruthValue (Value.int 1).kind) := by cbv
    rcases strict_of_check rfl hread hcheck with ⟨v, n, hv, -⟩ | ⟨fault, hfault⟩
    · cases hstrict.symm.trans hv
    · cases hstrict.symm.trans hfault

/-! ## Other numbers of the same kinds

A source is checked before the numbers it will be evaluated with are known. What was found with one
choice of numbers holds for every other choice of the same kinds, because the shape of an
expression is found from the kinds alone. -/

variable {b' : Bindings}

/-- An expression that gives a number has the shape of one with all numbers of the same kinds. -/
theorem exists_shape?_of_sameKinds {mode : Mode} {e : Expr} (h : b.SameKinds b')
    (he : GivesNumber (e.eval mode b)) : ∃ k, e.shape? b'.shape? = some (.number k) := by
  obtain ⟨k, hk⟩ := Expr.exists_shape?_of_givesNumber he
  exact ⟨k, by rwa [← Bindings.shape?_eq_of_sameKinds h]⟩

/-- **Evaluation and check with other numbers.** An evaluation that gave a number does so again, or
fails in arithmetic, and a check that passed passes again. -/
theorem eval_of_sameKinds (hl : l.operations = 0) (h : b.SameKinds b')
    (heval : ∃ x, l.eval source b = .ok x) :
    ((∃ y, l.eval source b' = .ok y) ∨ EvalFailsInArithmetic source (l.eval source b')) ∧
      (l.check source b = .ok () → l.check source b' = .ok ()) := by
  obtain ⟨e, hread, hadmits, hnumber⟩ := (exists_eval_eq_ok_iff_read hl).1 heval
  constructor
  · obtain ⟨k, hk⟩ := exists_shape?_of_sameKinds h hnumber
    exact eval_of_simplified hl hread hadmits (Expr.givesNumber_or_failsInArithmetic hk .lenient)
  · intro hcheck
    -- The strict run gives the number that the simplified expression gives, so it has not failed.
    rw [simplified_of_strict (strict_of_check hl hread hcheck)] at hnumber
    obtain ⟨k, hk⟩ := exists_shape?_of_sameKinds h hnumber
    exact check_of_shape? hl hread hadmits hk

/-- A quotient that is checked with a divisor of two passes its check with zero as well, and does
not fail but in arithmetic. -/
theorem eval_of_sameKinds_quotient :
    ((∃ y, (⟨0, 64⟩ : Limits).eval "8 / A.n" ⟨[⟨some "A", "n", .int 0⟩]⟩ = .ok y) ∨
      EvalFailsInArithmetic "8 / A.n"
        ((⟨0, 64⟩ : Limits).eval "8 / A.n" ⟨[⟨some "A", "n", .int 0⟩]⟩)) ∧
      (⟨0, 64⟩ : Limits).check "8 / A.n" ⟨[⟨some "A", "n", .int 0⟩]⟩ = .ok () := by
  have hread : read "8 / A.n" =
      .expression (.binary .divide (.int 8) (.property (.var "A") "n")) := by cbv
  have hkinds : Bindings.SameKinds ⟨[⟨some "A", "n", .int 2⟩]⟩ ⟨[⟨some "A", "n", .int 0⟩]⟩ := by
    intro group name
    by_cases hname : some "A" = group ∧ "n" = name
    · simp [Bindings.find?, hname, Number.kind]
    · simp [Bindings.find?, hname]
  have heval : ∃ x, (⟨0, 64⟩ : Limits).eval "8 / A.n" ⟨[⟨some "A", "n", .int 2⟩]⟩ = .ok x :=
    (exists_eval_eq_ok_iff_read rfl).2 ⟨_, hread, by decide, .int 4, .int 4, by cbv, rfl⟩
  have hcheck : (⟨0, 64⟩ : Limits).check "8 / A.n" ⟨[⟨some "A", "n", .int 2⟩]⟩ = .ok () :=
    check_of_shape? rfl hread (by decide) (k := .int) (by cbv)
  obtain ⟨heval', hcheck'⟩ := eval_of_sameKinds rfl hkinds heval
  exact ⟨heval', hcheck' hcheck⟩

end Limits

end SiteAnalysis.Expression
