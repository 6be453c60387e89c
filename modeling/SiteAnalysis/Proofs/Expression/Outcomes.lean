import SiteAnalysis.Expression.Engine
import SiteAnalysis.Proofs.Expression.Parts

set_option autoImplicit false

/-! # Outcomes of the engine

When compiling, evaluating and checking a source succeed, in terms of the expression that is read
from it: one lemma for each operation. The statements about the engine rest on these and do not
unfold it.
-/

namespace SiteAnalysis.Expression

/-- An evaluation of a source that fails in arithmetic. -/
def EvalFailsInArithmetic (source : String) (r : Except Problem Float) : Prop :=
  ∃ fault, r = .error (.failed source (.arithmetic fault))

theorem Value.number?_ofNumber (n : Number) : (Value.ofNumber n).number? = some n := by
  cases n <;> rfl

namespace Limits

variable {l : Limits} {b : Bindings} {source : String}

/-- The depth that is permitted for an expression. -/
def Admits (l : Limits) (e : Expr) : Prop := ¬ (l.depth ≠ 0 ∧ l.depth < e.depth)

instance (l : Limits) (e : Expr) : Decidable (l.Admits e) := inferInstanceAs (Decidable (¬ _))

theorem compile_eq_ok_iff {e' : Expr} : l.compile source = .ok e' ↔
    ∃ e, read source = .expression e ∧ l.Admits e ∧ e.settled.simplified = e' := by
  unfold compile
  cases hread : read source with
  | malformed named => simp
  | expression e =>
      simp only [Parsed.expression.injEq, exists_eq_left']
      split
      · rename_i hdeep
        exact iff_of_false (by simp) fun h => h.1 hdeep
      · rename_i hdeep
        rw [Except.ok.injEq]
        exact (and_iff_right hdeep).symm

/-- A search for a variable without a value finds none when all of them are bound. -/
theorem find?_isNone_eq_none_iff (names : List String) :
    names.find? (fun name => (b.value? name).isNone) = none ↔
      ∀ x ∈ names, b.isBound none x = true ∨ b.hasGroup x = true := by
  rw [List.find?_eq_none]
  refine forall₂_congr fun x _ => ?_
  rw [← b.isSome_value?_iff]
  cases b.value? x <;> simp

theorem compileBound_eq_ok_iff {e' : Expr} : l.compileBound b source = .ok e' ↔
    ∃ e, read source = .expression e ∧ l.Admits e ∧
      (∀ x ∈ e.names, b.isBound none x = true ∨ b.hasGroup x = true) ∧ e.settled = e' := by
  unfold compileBound
  cases hread : read source with
  | malformed named =>
      refine iff_of_false ?_ (by simp)
      dsimp only
      split <;> simp
  | expression e =>
      simp only [Parsed.expression.injEq, exists_eq_left', ← find?_isNone_eq_none_iff]
      split
      · rename_i hdeep
        exact iff_of_false (by simp) fun h => h.1 hdeep
      · rename_i hdeep
        split
        · rename_i x hx
          exact iff_of_false (by simp) fun h => by simp [hx] at h
        · rename_i hnone
          rw [Except.ok.injEq]
          exact (and_iff_right hdeep).symm.trans (and_congr_right' (and_iff_right hnone).symm)

/-- **What an evaluation gives.** -/
theorem eval_eq_ok_iff {x : Float} : l.eval source b = .ok x ↔
    ∃ e v n, l.compile source = .ok e ∧ l.run .lenient b e = .ok v ∧ v.number? = some n ∧
      n.toFloat = x := by
  unfold eval evaluate
  cases l.compile source with
  | error fault => simp
  | ok e =>
      cases hrun : l.run .lenient b e with
      | error fault => simp [hrun]
      | ok v => cases hn : v.number? <;> simp [hrun, hn]

/-- **When an evaluation succeeds.** -/
theorem exists_eval_eq_ok_iff : (∃ x, l.eval source b = .ok x) ↔
    ∃ e, l.compile source = .ok e ∧ GivesNumber (l.run .lenient b e) := by
  simp only [eval_eq_ok_iff]
  constructor
  · rintro ⟨x, e, v, n, hcompile, hrun, hn, -⟩
    exact ⟨e, hcompile, v, n, hrun, hn⟩
  · rintro ⟨e, hcompile, v, n, hrun, hn⟩
    exact ⟨n.toFloat, e, v, n, hcompile, hrun, hn, rfl⟩

theorem eval_failsInArithmetic {e : Expr} (he : l.compile source = .ok e)
    (h : FailsInArithmetic (l.run .lenient b e)) :
    EvalFailsInArithmetic source (l.eval source b) := by
  obtain ⟨fault, hrun⟩ := h
  refine ⟨fault, ?_⟩
  unfold eval evaluate
  simp only [he, hrun]

/-- **When a check succeeds.** -/
theorem check_eq_ok_iff : l.check source b = .ok () ↔
    ∃ e, l.compileBound b source = .ok e ∧
      (GivesNumber (l.run .strict b e) ∨ FailsInArithmetic (l.run .strict b e)) := by
  unfold check
  cases hcompile : l.compileBound b source with
  | error fault => simp
  | ok e =>
      simp only [Except.ok.injEq, exists_eq_left']
      unfold GivesNumber FailsInArithmetic
      cases hrun : l.run .strict b e with
      | ok v =>
          cases hn : v.number? with
          | none => simp [hn]
          | some n => simp [hn]
      | error fault => cases fault <;> simp

/-! ## Without a limit on operations -/

section

variable (hl : l.operations = 0)

include hl

theorem run_eq_eval (mode : Mode) (b : Bindings) (e : Expr) : l.run mode b e = e.eval mode b := by
  rw [run, if_neg (by simp [hl])]

/-- An evaluation succeeds if the simplified expression gives a number. -/
theorem exists_eval_eq_ok_iff_read : (∃ x, l.eval source b = .ok x) ↔
    ∃ e, read source = .expression e ∧ l.Admits e ∧
      GivesNumber (e.settled.simplified.eval .lenient b) := by
  rw [exists_eval_eq_ok_iff]
  constructor
  · rintro ⟨e', hcompile, hrun⟩
    obtain ⟨e, hread, hadmits, rfl⟩ := compile_eq_ok_iff.1 hcompile
    rw [run_eq_eval hl] at hrun
    exact ⟨e, hread, hadmits, hrun⟩
  · rintro ⟨e, hread, hadmits, heval⟩
    refine ⟨_, compile_eq_ok_iff.2 ⟨e, hread, hadmits, rfl⟩, ?_⟩
    rwa [run_eq_eval hl]

/-- A check succeeds if the variables are bound and the expression as it was read gives a number
or fails in arithmetic. -/
theorem check_eq_ok_iff_read : l.check source b = .ok () ↔
    ∃ e, read source = .expression e ∧ l.Admits e ∧
      (∀ x ∈ e.names, b.isBound none x = true ∨ b.hasGroup x = true) ∧
      (GivesNumber (e.settled.eval .strict b) ∨ FailsInArithmetic (e.settled.eval .strict b)) := by
  rw [check_eq_ok_iff]
  constructor
  · rintro ⟨e', hbound, hrun⟩
    obtain ⟨e, hread, hadmits, hnames, rfl⟩ := compileBound_eq_ok_iff.1 hbound
    rw [run_eq_eval hl] at hrun
    exact ⟨e, hread, hadmits, hnames, hrun⟩
  · rintro ⟨e, hread, hadmits, hnames, heval⟩
    refine ⟨_, compileBound_eq_ok_iff.2 ⟨e, hread, hadmits, hnames, rfl⟩, ?_⟩
    rwa [run_eq_eval hl]

/-- What the trial evaluation of a check gives. -/
theorem strict_of_check {e : Expr} (hread : read source = .expression e)
    (hcheck : l.check source b = .ok ()) :
    GivesNumber (e.settled.eval .strict b) ∨ FailsInArithmetic (e.settled.eval .strict b) := by
  obtain ⟨e', hread', -, -, h⟩ := (check_eq_ok_iff_read hl).1 hcheck
  obtain rfl : e = e' := Parsed.expression.inj (hread.symm.trans hread')
  exact h

/-- A compiled source evaluates or fails in arithmetic as its simplified expression does. -/
theorem eval_of_simplified {e : Expr} (hread : read source = .expression e) (hadmits : l.Admits e)
    (h : GivesNumber (e.settled.simplified.eval .lenient b) ∨
      FailsInArithmetic (e.settled.simplified.eval .lenient b)) :
    (∃ x, l.eval source b = .ok x) ∨ EvalFailsInArithmetic source (l.eval source b) := by
  rcases h with hnumber | hfail
  · exact Or.inl ((exists_eval_eq_ok_iff_read hl).2 ⟨e, hread, hadmits, hnumber⟩)
  · refine Or.inr (eval_failsInArithmetic (compile_eq_ok_iff.2 ⟨e, hread, hadmits, rfl⟩) ?_)
    rwa [run_eq_eval hl]

/-- A source with the shape of a number passes its check. -/
theorem check_of_shape? {e : Expr} {k : NumberKind} (hread : read source = .expression e)
    (hadmits : l.Admits e) (hk : e.settled.shape? b.shape? = some (.number k)) :
    l.check source b = .ok () := by
  have hnames := (Expr.parts_of_shape? b e.settled hk).1.names
  rw [(Expr.parts_settled e).1] at hnames
  exact (check_eq_ok_iff_read hl).2
    ⟨e, hread, hadmits, hnames, Expr.givesNumber_or_failsInArithmetic hk .strict⟩

end

end Limits

end SiteAnalysis.Expression
