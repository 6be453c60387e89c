import Mathlib
import SiteAnalysis.Proofs.Expression.Outcomes
import SiteAnalysis.Proofs.Expression.Simplification

set_option autoImplicit false

/-! # Which names a check confirms

The variables of a source are looked up while it is compiled, wherever they stand. Its properties
are looked up by the trial evaluation, and only as far as that comes: it goes from left to right,
passes over operands of `&&` and `||` that decide nothing, and ends at the first failure of
arithmetic, which a check accepts (`Expr.visited`). Main statement:

* `check_confirms_names_iff`: a check that passes confirms every name of the source, unless the
  trial evaluation fails in arithmetic before it comes to a property that is not bound.

`8 / A.n + A.m` is such a source where `A.n` is zero (`check_ok_property_unbound`).
-/

namespace SiteAnalysis.Expression

/-- Whether the second operand is evaluated, by the value of the first. -/
def LogicOp.goesOn : LogicOp → Value → Bool
  | both, .bool t => t
  | either, .bool t => !t
  | _, _ => false

namespace Expr

mutual

/-- **The properties a strict evaluation comes to**, as far as its operands have values. -/
def visited (b : Bindings) : Expr → List (String × String)
  | int _ | float _ | bool _ | text _ | char _ | unit | var _ => []
  | property e name =>
    e.visited b ++
      if (e.eval .strict b).isOk then (e.varName?.map fun group => (group, name)).toList else []
  | group e | unary _ e => e.visited b
  | binary _ e₁ e₂ =>
    e₁.visited b ++ if (e₁.eval .strict b).isOk then e₂.visited b else []
  | logic op e₁ e₂ =>
    e₁.visited b ++ if (e₁.eval .strict b).toOption.any op.goesOn then e₂.visited b else []
  | call _ es | array es => visitedOfAll b es

/-- The properties a strict evaluation of some expressions comes to. -/
def visitedOfAll (b : Bindings) : List Expr → List (String × String)
  | [] => []
  | e :: es => e.visited b ++ if (e.eval .strict b).isOk then visitedOfAll b es else []

end

/-! ## What is visited is bound -/

section

variable {b : Bindings}

theorem eval_of_varName? {mode : Mode} {e : Expr} {x : String} (h : e.varName? = some x) :
    e.eval mode b = (var x).eval mode b := by
  fun_induction varName? e with
  | case1 name =>
      cases h
      rfl
  | case2 e ih => exact ih h
  | case3 => simp at h

/-- A variable with properties is a group, and those it has are bound in that group. -/
theorem isBound_of_passes_property {group name : String} {v : Value}
    (hv : (var group).eval .strict b = .ok v) (h : Passes (v.property .strict name)) :
    b.isBound (some group) name = true := by
  rw [eval, Bindings.value?] at hv
  cases hfind : b.find? none group with
  | some n =>
      -- A plain variable hides the group, and a number has no properties.
      rw [hfind] at hv
      cases hv
      rcases h with ⟨w, hw⟩ | ⟨fault, hfault⟩
      · cases n <;> simp [Value.ofNumber, Value.property] at hw
      · cases n <;> simp [Value.ofNumber, Value.property] at hfault
  | none =>
      rw [hfind] at hv
      cases hgroup : b.hasGroup group with
      | false => simp [hgroup] at hv
      | true =>
          obtain rfl : Value.group (b.members group) = v := by simpa [hgroup] using hv
          rw [Bindings.isBound_eq, ← Bindings.lookup_members]
          rw [Value.property] at h
          cases hlookup : (b.members group).lookup name with
          | some n => rfl
          | none =>
              rw [hlookup] at h
              rcases h with ⟨w, hw⟩ | ⟨fault, hfault⟩
              · cases hw
              · cases hfault

/-- The first operand of `&&` or `||` passes, and so does the second if it is evaluated. -/
theorem passes_of_logic {op : LogicOp} {e₁ e₂ : Expr}
    (h : Passes ((logic op e₁ e₂).eval .strict b)) :
    Passes (e₁.eval .strict b) ∧
      ((e₁.eval .strict b).toOption.any op.goesOn = true → Passes (e₂.eval .strict b)) := by
  obtain ⟨h₁, hrest⟩ := passes_of_bind h
  refine ⟨h₁, fun hon => ?_⟩
  cases hv : e₁.eval .strict b with
  | error fault => simp [hv, Except.toOption] at hon
  | ok v =>
      have hon : op.goesOn v = true := by simpa [hv, Except.toOption] using hon
      obtain ⟨-, hrest⟩ := passes_of_bind (hrest v hv)
      cases v with
      | bool t =>
          have h₂ := hrest t rfl
          cases op <;> cases t <;> simp [LogicOp.goesOn] at hon
          · exact (passes_of_bind h₂).1
          · exact (passes_of_bind h₂).1
      | _ => cases op <;> simp [LogicOp.goesOn] at hon

theorem exists_eq_ok_of_isOk {α : Type} {r : Except Fault α} (h : r.isOk = true) :
    ∃ a, r = .ok a := by
  cases r with
  | ok a => exact ⟨a, rfl⟩
  | error fault => cases h

end

/-- The properties of the next operand are looked up if it is evaluated. -/
theorem forall_mem_append_ite {P : String × String → Prop} {ps qs : List (String × String)}
    {c : Bool} (hp : ∀ p ∈ ps, P p) (hq : c = true → ∀ p ∈ qs, P p) :
    ∀ p ∈ ps ++ (if c then qs else []), P p := by
  rw [List.forall_mem_append]
  refine ⟨hp, ?_⟩
  cases c with
  | true => simpa using hq rfl
  | false => simp

mutual

/-- **An evaluation that passes has found all that it came to.** -/
theorem isBound_of_visited (b : Bindings) : ∀ e : Expr, Passes (e.eval .strict b) →
    ∀ p ∈ e.visited b, b.isBound (some p.1) p.2 = true
  | int _, _ | float _, _ | bool _, _ | text _, _ | char _, _ | unit, _ | var _, _ => by
      simp [visited]
  | property e name, h => by
      obtain ⟨he, hproperty⟩ := passes_of_bind h
      rw [visited]
      refine forall_mem_append_ite (isBound_of_visited b e he) fun hok p hp => ?_
      obtain ⟨v, hv⟩ := exists_eq_ok_of_isOk hok
      obtain ⟨group, hgroup, rfl⟩ : ∃ group, e.varName? = some group ∧ (group, name) = p := by
        simpa using hp
      exact isBound_of_passes_property (eval_of_varName? hgroup ▸ hv) (hproperty v hv)
  | group e, h => isBound_of_visited b e h
  | unary op e, h => isBound_of_visited b e (passes_of_bind h).1
  | binary op e₁ e₂, h => by
      obtain ⟨h₁, hrest⟩ := passes_of_bind h
      rw [visited]
      -- The second operand is visited only behind a first one that had a value.
      refine forall_mem_append_ite (isBound_of_visited b e₁ h₁) fun hok => ?_
      obtain ⟨v, hv⟩ := exists_eq_ok_of_isOk hok
      exact isBound_of_visited b e₂ (passes_of_bind (hrest v hv)).1
  | logic op e₁ e₂, h => by
      obtain ⟨h₁, h₂⟩ := passes_of_logic h
      rw [visited]
      exact forall_mem_append_ite (isBound_of_visited b e₁ h₁) fun hon =>
        isBound_of_visited b e₂ (h₂ hon)
  | call f es, h => isBound_of_visitedOfAll b es (passes_of_bind h).1
  | array es, h => isBound_of_visitedOfAll b es (passes_of_bind h).1

theorem isBound_of_visitedOfAll (b : Bindings) : ∀ es : List Expr, Passes (evalAll .strict b es) →
    ∀ p ∈ visitedOfAll b es, b.isBound (some p.1) p.2 = true
  | [], _ => by simp [visitedOfAll]
  | e :: es, h => by
      obtain ⟨he, hrest⟩ := passes_of_bind h
      rw [visitedOfAll]
      refine forall_mem_append_ite (isBound_of_visited b e he) fun hok => ?_
      obtain ⟨v, hv⟩ := exists_eq_ok_of_isOk hok
      exact isBound_of_visitedOfAll b es (passes_of_bind (hrest v hv)).1

end

end Expr

/-- **Everything a source names is bound.** -/
def AllNamesBound (source : String) (b : Bindings) : Prop :=
  ∃ e, read source = .expression e ∧ Expr.NamesBound b e.names e.properties

namespace Limits

variable {l : Limits} {b : Bindings} {source : String}

/-- **A property is missed**: it is not bound, and the trial evaluation fails in arithmetic before
it comes to it. -/
def MissesProperty (l : Limits) (source : String) (b : Bindings) : Prop :=
  ∃ e fault p, l.compileBound b source = .ok e ∧ l.run .strict b e = .error (.arithmetic fault) ∧
    p ∈ e.properties ∧ p ∉ e.visited b ∧ b.isBound (some p.1) p.2 = false

/-- What a run within limits gives, if it passes, is what the evaluation gives. -/
theorem eval_eq_of_run {mode : Mode} {e : Expr} (h : Passes (l.run mode b e)) :
    l.run mode b e = e.eval mode b := by
  unfold run at h ⊢
  split
  · rename_i hlimit
    rw [if_pos hlimit] at h
    rcases h with ⟨v, hv⟩ | ⟨fault, hfault⟩
    · cases hv
    · cases hfault
  · rfl

/-- **Names confirmed by a check.** A check that passes confirms every name of the source, exactly
when no property is missed. -/
theorem check_confirms_names_iff (l : Limits) (source : String) (b : Bindings) :
    (l.check source b = .ok () → AllNamesBound source b) ↔ ¬ MissesProperty l source b := by
  constructor
  · rintro hconfirms ⟨e', fault, p, hbound, hrun, hp, -, hunbound⟩
    have hcheck : l.check source b = .ok () :=
      check_eq_ok_iff.2 ⟨e', hbound, Or.inr ⟨fault, hrun⟩⟩
    obtain ⟨e, hread, hnames⟩ := hconfirms hcheck
    obtain ⟨e₂, hread₂, -, -, rfl⟩ := compileBound_eq_ok_iff.1 hbound
    obtain rfl : e = e₂ := Parsed.expression.inj (hread ▸ hread₂)
    rw [(Expr.parts_settled e).2.1] at hp
    simp [hnames.properties p hp] at hunbound
  · intro hmisses hcheck
    obtain ⟨e', hbound, hrun⟩ := check_eq_ok_iff.1 hcheck
    obtain ⟨e, hread, -, hvariables, rfl⟩ := compileBound_eq_ok_iff.1 hbound
    refine ⟨e, hread, hvariables, fun p hp => ?_⟩
    rw [← (Expr.parts_settled e).2.1] at hp
    -- A number has parts with shapes only; after a failure, what has been visited is bound.
    rcases hrun with ⟨v, n, hv, hn⟩ | ⟨fault, hfault⟩
    · have heval := eval_eq_of_run (Or.inl ⟨v, hv⟩)
      obtain ⟨k, hk⟩ := Expr.exists_shape?_of_givesNumber ⟨v, n, heval ▸ hv, hn⟩
      exact (Expr.parts_of_shape? b e.settled hk).1.properties p hp
    · have heval := eval_eq_of_run (Or.inr ⟨fault, hfault⟩)
      by_cases hvisited : p ∈ e.settled.visited b
      · exact Expr.isBound_of_visited b e.settled (Or.inr ⟨fault, heval ▸ hfault⟩) p hvisited
      · rw [← Bool.not_eq_false]
        exact fun hunbound => hmisses ⟨_, fault, p, hbound, hfault, hp, hvisited, hunbound⟩

/-- A division by zero keeps a check from looking at what stands behind it. -/
theorem check_ok_property_unbound :
    (⟨0, 64⟩ : Limits).check "8 / A.n + A.m" ⟨[⟨some "A", "n", .int 0⟩]⟩ = .ok () ∧
      ¬ AllNamesBound "8 / A.n + A.m" ⟨[⟨some "A", "n", .int 0⟩]⟩ := by
  have hread : read "8 / A.n + A.m" = .expression (.binary .add
      (.binary .divide (.int 8) (.property (.var "A") "n")) (.property (.var "A") "m")) := by cbv
  constructor
  · refine check_eq_ok_iff.2 ⟨_, compileBound_eq_ok_iff.2 ⟨_, hread, by decide, ?_, rfl⟩, ?_⟩
    · decide
    · exact Or.inr ⟨.divisionByZero, by cbv⟩
  · rintro ⟨e, hread', hnames⟩
    obtain rfl := Parsed.expression.inj (hread ▸ hread')
    have hm := hnames.properties ("A", "m") (List.mem_append_right _ (List.mem_singleton_self _))
    exact absurd hm (by decide)

end Limits

end SiteAnalysis.Expression
