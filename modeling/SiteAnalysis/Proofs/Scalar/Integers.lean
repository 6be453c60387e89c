import SiteAnalysis.Proofs.Expression.Word
import SiteAnalysis.Proofs.Number.Truncation
import SiteAnalysis.Scalar

set_option autoImplicit false

/-! # Scalars whose values are integers

A scalar is evaluated to a double and then cut to an integer, unless it is an integer as it stands.
Main statement:

* `Scalar.evaluateInt_eq_ok_iff`: an expression for an integer gives it back exactly if a double
  holds it, or if it is the greatest integer.
-/

namespace SiteAnalysis

open Expression

namespace Scalar

variable {l : Limits} {b : Bindings} {s : Scalar} {source : String} {n : Int}

/-- **A scalar whose value is an integer**: the integer itself, or an expression that the engine
evaluates to it. -/
inductive IsInteger (l : Limits) (b : Bindings) : Scalar → Int → Prop
  | literal (n : Int) : IsInteger l b (.int n) n
  | computed {source : String} {e : Expr} {n : Int} (hcompile : l.compile source = .ok e)
      (hrun : l.run .lenient b e = .ok (.int n)) : IsInteger l b (.expression source) n

/-- A variable that is bound to an integer. -/
theorem IsInteger.of_word (hword : IsWord source.toList) (hvar : IsVariable source)
    (hb : b.find? none source = some (.int n)) (hl : l.operations ≠ 1) :
    IsInteger l b (.expression source) n := by
  have hcompile : l.compile source = .ok (.var source) :=
    Limits.compile_eq_ok_iff.2 ⟨_, hvar.read_eq hword, Limits.admits_of_depth rfl, rfl⟩
  exact .computed hcompile (Limits.run_var hb hl .lenient)

/-- The engine hands an integer on as a double. -/
theorem IsInteger.eval (h : IsInteger l b (.expression source) n) :
    l.eval source b = .ok (Float.ofInt n) := by
  cases h with
  | computed hcompile hrun =>
      unfold Limits.eval
      rw [hcompile]
      dsimp only
      unfold Limits.evaluate
      rw [hrun]
      rfl

/-- **An integer is evaluated without failing**, and an expression gives what a double leaves of
it. -/
theorem IsInteger.evaluateInt (h : IsInteger l b s n) :
    s.evaluateInt l b = .ok (if s.isExpression then Binary64.truncate (Float.ofInt n) else n) := by
  cases h with
  | literal => rfl
  | computed hcompile hrun =>
      show (l.eval _ b).map Scalar.truncate = _
      rw [(IsInteger.computed hcompile hrun).eval]
      rfl

/-- **Which integers evaluate to themselves**: all that are given as they stand, and of those that
are computed the greatest one and all that a double holds. -/
theorem evaluateInt_eq_ok_iff (hn : fitsInt n = true) (h : IsInteger l b s n) :
    s.evaluateInt l b = .ok n ↔
      s.isExpression = false ∨ n = maxInt ∨
        ∃ (m : Int) (k : Nat), m.natAbs < 2 ^ 53 ∧ n = m * 2 ^ k := by
  rw [h.evaluateInt, Except.ok.injEq]
  by_cases hexpression : s.isExpression = true
  · have hholds := Binary64.truncate_ofInt_iff hn
    unfold Binary64.Holds at hholds
    rw [if_pos hexpression, hholds, hexpression]
    simp
  · rw [if_neg hexpression]
    exact iff_of_true rfl (.inl (by simpa using hexpression))

/-- A variable of one letter that is bound to an integer. -/
theorem isInteger_variable (n : Int) :
    IsInteger ⟨0, 64⟩ ⟨[⟨none, "n", .int n⟩]⟩ (expression "n") n :=
  .of_word (isIdentifier_iff.1 (by decide)) ⟨by decide, by decide⟩ rfl (by decide)

theorem evaluateInt_variable :
    (expression "n").evaluateInt ⟨0, 64⟩ ⟨[⟨none, "n", .int 4611686018427387904⟩]⟩ =
      .ok 4611686018427387904 := by
  refine (evaluateInt_eq_ok_iff (by decide) (isInteger_variable _)).2 (.inr (.inr ?_))
  exact ⟨1, 62, by decide, by decide⟩

/-- **An integer between two doubles**: a variable that is bound to it gives one less. -/
theorem evaluateInt_variable_differs :
    IsInteger ⟨0, 64⟩ ⟨[⟨none, "n", .int 9007199254740993⟩]⟩ (expression "n") 9007199254740993 ∧
      (int 9007199254740993).evaluateInt ⟨0, 64⟩ ⟨[⟨none, "n", .int 9007199254740993⟩]⟩ =
        .ok 9007199254740993 ∧
      (expression "n").evaluateInt ⟨0, 64⟩ ⟨[⟨none, "n", .int 9007199254740993⟩]⟩ =
        .ok 9007199254740992 := by
  have hcut : Binary64.truncate (Float.ofInt 9007199254740993) = 9007199254740992 := by
    decide +kernel
  refine ⟨isInteger_variable _, rfl, ?_⟩
  rw [(isInteger_variable _).evaluateInt, ← hcut]
  rfl

end Scalar

end SiteAnalysis
