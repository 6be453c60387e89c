import SiteAnalysis.Proofs.Expression.Parts

set_option autoImplicit false

/-! # What is computed beforehand

An evaluation runs the simplified expression in the lenient mode; a check runs the expression as
it was read in the strict mode. Main statements:

* `refines_simplified`: wherever the strict run gives a value or fails in arithmetic, the lenient
  run of the simplified expression does the same.
* `shape?_simplified`: an expression without `&&` and `||` keeps its shape. With them it may get
  one, because `true && ` is dropped in front of a number.
-/

namespace SiteAnalysis.Expression

/-! ## Refinement of outcomes -/

/-- An outcome that a check lets pass: a value or a failure of arithmetic. -/
def Passes {α : Type} (r : Except Fault α) : Prop := (∃ a, r = .ok a) ∨ FailsInArithmetic r

/-- A sequence of two steps passes as far as it comes. -/
theorem passes_of_bind {α β : Type} {x : Except Fault α} {f : α → Except Fault β}
    (h : Passes (x >>= f)) : Passes x ∧ ∀ a, x = .ok a → Passes (f a) := by
  cases x with
  | ok a =>
      refine ⟨Or.inl ⟨a, rfl⟩, fun a' ha => ?_⟩
      cases ha
      exact h
  | error fault =>
      refine ⟨?_, fun a ha => by cases ha⟩
      rcases h with ⟨b, hb⟩ | ⟨f, hf⟩
      · cases hb
      · cases hf
        exact Or.inr ⟨f, rfl⟩

/-- **Refinement**: `y` is the same outcome as `x`, where a check lets `x` pass. -/
def Refines {α : Type} (x y : Except Fault α) : Prop := Passes x → y = x

namespace Refines

variable {α β : Type}

theorem refl (x : Except Fault α) : Refines x x := fun _ => rfl

theorem of_eq {x y : Except Fault α} (h : y = x) : Refines x y := fun _ => h

theorem error {fault : Fault} (h : ∀ f, fault ≠ .arithmetic f) (y : Except Fault α) :
    Refines (.error fault) y := by
  rintro (⟨a, ha⟩ | ⟨f, hf⟩)
  · cases ha
  · cases hf
    exact (h f rfl).elim

theorem trans {x y z : Except Fault α} (hxy : Refines x y) (hyz : Refines y z) : Refines x z := by
  intro hx
  have hy := hxy hx
  rw [← hy] at hx
  rw [hyz hx, hy]

theorem bind {x y : Except Fault α} {f g : α → Except Fault β} (hxy : Refines x y)
    (hfg : ∀ a, Refines (f a) (g a)) : Refines (x >>= f) (y >>= g) := by
  intro h
  obtain ⟨hx, hf⟩ := passes_of_bind h
  rw [hxy hx]
  cases x with
  | ok a => exact hfg a (hf a rfl)
  | error fault => rfl

end Refines

namespace Expr

/-! ## One operator -/

section

variable {mode : Mode} {b : Bindings} {e e₁ e₂ : Expr} {v : Value}

theorem eval_of_literal? (h : e.literal? = some v) : e.eval mode b = .ok v := by
  cases e <;> simp only [literal?, Option.some.injEq, reduceCtorEq] at h <;> subst h <;> rfl

theorem eval_of_ofValue? (h : ofValue? v = some e) : e.eval mode b = .ok v := by
  cases v <;> simp only [ofValue?, Option.some.injEq, reduceCtorEq] at h <;> subst h <;> rfl

/-- What an operator on two literals is folded to is its value. -/
theorem exists_of_computed? {op : BinaryOp} (h : computed? op e₁ e₂ = some e) :
    ∃ v w r, e₁.literal? = some v ∧ e₂.literal? = some w ∧ Value.binary op v w = .ok r ∧
      ofValue? r = some e := by
  simp only [computed?, Option.bind_eq_bind, Option.bind_eq_some_iff] at h
  obtain ⟨v, hv, w, hw, r, hr, he⟩ := h
  refine ⟨v, w, r, hv, hw, ?_, he⟩
  cases hbin : Value.binary op v w with
  | error fault => simp [hbin, Except.toOption] at hr
  | ok r' => simpa [hbin, Except.toOption] using hr

/-- Folding changes no value and no failure. -/
theorem eval_folded (op : BinaryOp) :
    (folded op e₁ e₂).eval mode b = (binary op e₁ e₂).eval mode b := by
  unfold folded
  cases h : computed? op e₁ e₂ with
  | none => rfl
  | some e =>
      obtain ⟨v, w, r, hv, hw, hr, he⟩ := exists_of_computed? h
      rw [Option.getD_some, eval_of_ofValue? he, eval, eval_of_literal? hv, eval_of_literal? hw]
      exact hr.symm

/-- An outcome that is asked to be a truth value, and passes, is the one it was before. -/
theorem refines_truth (x : Except Fault Value) {f : Bool → Except Fault Value}
    (hf : ∀ t, f t = .ok (.bool t)) : Refines (x >>= fun v => v.truth >>= f) x := by
  refine Refines.trans ?_ (Refines.of_eq (bind_pure x).symm)
  refine (Refines.refl x).bind fun v => ?_
  cases v with
  | bool t => exact Refines.of_eq (hf t).symm
  | _ => exact Refines.error (fun f => by simp) _

/-- Dropping an operand keeps the outcome, as long as the other operand is a truth value. -/
theorem refines_joined (op : LogicOp) :
    Refines ((logic op e₁ e₂).eval mode b) ((joined op e₁ e₂).eval mode b) := by
  unfold joined
  -- A dropped operand leaves out a test for a truth value, which passes or ends the strict run.
  split
  · exact refines_truth _ fun t => rfl
  · exact Refines.refl _
  · exact refines_truth _ fun t => by cases t <;> rfl
  · exact refines_truth _ fun t => rfl
  · exact Refines.refl _
  · exact refines_truth _ fun t => by cases t <;> rfl
  · exact Refines.refl _

end

theorem refines_property (v : Value) (name : String) :
    Refines (v.property .strict name) (v.property .lenient name) := by
  cases v with
  | group members =>
      simp only [Value.property]
      cases members.lookup name with
      | some n => exact Refines.refl _
      | none => exact Refines.error (fun f => by simp) _
  | _ => exact Refines.refl _

/-! ## Whole expressions -/

mutual

/-- **Simplification keeps what a check lets pass.** -/
theorem refines_simplified (b : Bindings) :
    ∀ e : Expr, Refines (e.eval .strict b) (e.simplified.eval .lenient b)
  | int n => Refines.refl _
  | float x => Refines.refl _
  | bool t => Refines.refl _
  | text s => Refines.refl _
  | char c => Refines.refl _
  | unit => Refines.refl _
  | var name => Refines.refl _
  | property e name => (refines_simplified b e).bind fun v => refines_property v name
  | group e => refines_simplified b e
  | unary op e => (refines_simplified b e).bind fun _ => Refines.refl _
  | binary op e₁ e₂ => by
      rw [simplified, eval_folded, eval, eval]
      exact (refines_simplified b e₁).bind fun _ =>
        (refines_simplified b e₂).bind fun _ => Refines.refl _
  | logic op e₁ e₂ => by
      rw [simplified]
      refine Refines.trans ?_ (refines_joined op)
      -- The first operand decides, or the second one is asked for its truth value.
      refine (refines_simplified b e₁).bind fun v₁ => (Refines.refl _).bind fun t₁ => ?_
      have hsecond := (refines_simplified b e₂).bind fun v₂ =>
        (Refines.refl v₂.truth).bind fun t₂ => Refines.refl (.ok (Value.bool t₂))
      cases op <;> cases t₁
      · exact Refines.refl _
      · exact hsecond
      · exact hsecond
      · exact Refines.refl _
  | call f es => (refinesAll_simplified b es).bind fun _ => Refines.refl _
  | array es => (refinesAll_simplified b es).bind fun _ => Refines.refl _

theorem refinesAll_simplified (b : Bindings) :
    ∀ es : List Expr, Refines (evalAll .strict b es) (evalAll .lenient b (simplifiedAll es))
  | [] => Refines.refl _
  | e :: es => (refines_simplified b e).bind fun _ =>
      (refinesAll_simplified b es).bind fun _ => Refines.refl _

end

/-! ## Shapes of what is simplified -/

section

variable {Γ : String → Option Shape}

theorem shape?_of_literal? {e : Expr} {v : Value} (h : e.literal? = some v) :
    e.shape? Γ = v.shape? := by
  cases e <;> simp only [literal?, Option.some.injEq, reduceCtorEq] at h <;> subst h <;> rfl

theorem shape?_of_ofValue? {e : Expr} {v : Value} (h : ofValue? v = some e) :
    e.shape? Γ = v.shape? := by
  cases v <;> simp only [ofValue?, Option.some.injEq, reduceCtorEq] at h <;> subst h <;> rfl

theorem shape?_folded (op : BinaryOp) (e₁ e₂ : Expr) :
    (folded op e₁ e₂).shape? Γ = (binary op e₁ e₂).shape? Γ := by
  unfold folded
  cases h : computed? op e₁ e₂ with
  | none => rfl
  | some e =>
      obtain ⟨v, w, r, hv, hw, hr, he⟩ := exists_of_computed? h
      have hagree := Value.agrees_binary op v w
      rw [hr] at hagree
      rw [Option.getD_some, shape?_of_ofValue? he, hagree.shape_eq, shape?, shape?_of_literal? hv,
        shape?_of_literal? hw]

mutual

/-- Without `&&` and `||`, simplification keeps the shape. -/
theorem shape?_simplified : ∀ e : Expr, e.hasLogic = false →
    e.simplified.shape? Γ = e.shape? Γ
  | int _, _ | float _, _ | bool _, _ | text _, _ | char _, _ | unit, _ | var _, _ => rfl
  | property e name, h => by
      rw [simplified, shape?, shape?, shape?_simplified e h]
  | group e, h => shape?_simplified e h
  | unary op e, h => by
      rw [simplified, shape?, shape?, shape?_simplified e h]
  | binary op e₁ e₂, h => by
      obtain ⟨h₁, h₂⟩ := Bool.or_eq_false_iff.1 h
      rw [simplified, shape?_folded, shape?, shape?, shape?_simplified e₁ h₁,
        shape?_simplified e₂ h₂]
  | logic op e₁ e₂, h => by simp [hasLogic] at h
  | call f es, h => by
      rw [simplified, shape?, shape?, shapeAll?_simplified es h]
  | array es, h => rfl

theorem shapeAll?_simplified : ∀ es : List Expr, anyHasLogic es = false →
    shapeAll? Γ (simplifiedAll es) = shapeAll? Γ es
  | [], _ => rfl
  | e :: es, h => by
      obtain ⟨h₁, h₂⟩ := Bool.or_eq_false_iff.1 h
      rw [simplifiedAll, shapeAll?, shapeAll?, shape?_simplified e h₁, shapeAll?_simplified es h₂]

end

end

end Expr

end SiteAnalysis.Expression
