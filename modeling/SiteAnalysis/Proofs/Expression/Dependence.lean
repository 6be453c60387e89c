import Mathlib
import SiteAnalysis.Proofs.Expression.Confirmation

set_option autoImplicit false

/-! # What an expression depends on

An evaluation asks its bindings for the variables that stand in the source and for the members of
groups that stand behind a dot. A group that stands anywhere else is shown whole, with all its
members; where this does not happen, bindings that agree on the names of a source cannot be told
apart by it. Main statement:

* `eval_and_check_of_agree`: bindings that agree on what a source names give the same outcome of
  its evaluation and of its check.

A name in front of a dot counts as a variable as well: a plain variable of that name hides the group
(`Expr.eval_member_of_plain`).
-/

namespace SiteAnalysis.Expression

namespace Expr

mutual

/-- **The variables that stand on their own**, in front of no property. -/
def standalone : Expr → List String
  | int _ | float _ | bool _ | text _ | char _ | unit => []
  | var name => [name]
  | property e _ => if e.varName?.isSome then [] else e.standalone
  | group e | unary _ e => e.standalone
  | binary _ a b | logic _ a b => a.standalone ++ b.standalone
  | call _ es | array es => standaloneOfAll es

/-- The variables that stand on their own in some expressions. -/
def standaloneOfAll : List Expr → List String
  | [] => []
  | e :: es => e.standalone ++ standaloneOfAll es

end

theorem standalone_of_number? {e : Expr} {n : Number} (h : e.number? = some n) :
    e.standalone = [] := by
  fun_induction number? e generalizing n with
  | case1 => rfl
  | case2 => rfl
  | case3 e ih => exact ih h
  | case4 e ih => exact ih h
  | case5 e ih =>
      obtain ⟨m, hm, -⟩ := Option.map_eq_some_iff.1 h
      exact ih hm
  | case6 => simp at h

mutual

/-- Reading literals whole does not change which variables stand on their own. -/
theorem standalone_settled : ∀ e : Expr, e.settled.standalone = e.standalone
  | int _ | float _ | bool _ | text _ | char _ | unit | var _ => rfl
  | property e name => by
      rw [settled, standalone, standalone, varName?_settled, standalone_settled e]
  | group e => standalone_settled e
  | unary op e => by
      rcases settled_unary op e with ⟨n, hn, hs⟩ | hop
      · rw [hs, standalone_of_number? hn]
        cases n <;> rfl
      · rw [hop]
        exact standalone_settled e
  | binary op e₁ e₂ => by
      rw [settled, standalone, standalone, standalone_settled e₁, standalone_settled e₂]
  | logic op e₁ e₂ => by
      rw [settled, standalone, standalone, standalone_settled e₁, standalone_settled e₂]
  | call f es => standaloneOfAll_settled es
  | array es => standaloneOfAll_settled es

theorem standaloneOfAll_settled : ∀ es : List Expr,
    standaloneOfAll (settledAll es) = standaloneOfAll es
  | [] => rfl
  | e :: es => by
      rw [settledAll, standaloneOfAll, standaloneOfAll, standalone_settled e,
        standaloneOfAll_settled es]

end

theorem parts_of_varName? {e : Expr} {x : String} (h : e.varName? = some x) :
    e.names = [x] ∧ e.properties = [] := by
  fun_induction varName? e with
  | case1 name =>
      cases h
      exact ⟨rfl, rfl⟩
  | case2 e ih => exact ih h
  | case3 => simp at h

/-- A variable is among those that stand on their own, or a property of it is asked for. -/
def IsPlaced (x : String) (standalone : List String) (properties : List (String × String)) : Prop :=
  x ∈ standalone ∨ ∃ name, (x, name) ∈ properties

theorem isPlaced_append {x : String} {xs ys : List String} {ps qs : List (String × String)} :
    IsPlaced x (xs ++ ys) (ps ++ qs) ↔ IsPlaced x xs ps ∨ IsPlaced x ys qs := by
  simp only [IsPlaced, List.mem_append, exists_or]
  tauto

mutual

/-- **Every variable of an expression stands on its own or in front of a property.** -/
theorem mem_names_iff {x : String} : ∀ e : Expr,
    x ∈ e.names ↔ IsPlaced x e.standalone e.properties
  | int _ | float _ | bool _ | text _ | char _ | unit => by
      simp [names, IsPlaced, standalone, properties]
  | var name => by simp [names, IsPlaced, standalone, properties]
  | property e name => by
      cases hvar : e.varName? with
      | some y =>
          obtain ⟨hnames, hproperties⟩ := parts_of_varName? hvar
          simp [names, IsPlaced, standalone, properties, hvar, hnames, hproperties]
      | none => simpa [names, IsPlaced, standalone, properties, hvar] using mem_names_iff e
  | group e => mem_names_iff e
  | unary op e => mem_names_iff e
  | binary op e₁ e₂ => by
      rw [names, standalone, properties, List.mem_append, isPlaced_append, mem_names_iff e₁,
        mem_names_iff e₂]
  | logic op e₁ e₂ => by
      rw [names, standalone, properties, List.mem_append, isPlaced_append, mem_names_iff e₁,
        mem_names_iff e₂]
  | call f es => mem_namesOfAll_iff es
  | array es => mem_namesOfAll_iff es

theorem mem_namesOfAll_iff {x : String} : ∀ es : List Expr,
    x ∈ namesOfAll es ↔ IsPlaced x (standaloneOfAll es) (propertiesOfAll es)
  | [] => by simp [namesOfAll, IsPlaced, standaloneOfAll, propertiesOfAll]
  | e :: es => by
      rw [namesOfAll, standaloneOfAll, propertiesOfAll, List.mem_append, isPlaced_append,
        mem_names_iff e, mem_namesOfAll_iff es]

end

/-! ## Members of groups -/

section

variable {b b' : Bindings} {mode : Mode} {group name : String}

/-- Parentheses around a variable make no difference to a property of it. -/
theorem eval_property_of_varName? {e : Expr} (h : e.varName? = some group) :
    (property e name).eval mode b = (property (var group) name).eval mode b := by
  have hvar : e.eval mode b = (var group).eval mode b := eval_of_varName? h
  rw [eval, hvar]
  rfl

/-- **A plain variable hides the group of its name**: it has no properties. -/
theorem eval_member_of_plain {n : Number} (h : b.find? none group = some n) :
    (property (var group) name).eval mode b = .error (.absentProperty name) := by
  simp only [eval, Bindings.value?, h]
  cases n <;> rfl

/-- What a group gives for a member of it. -/
theorem eval_member_of_group (h : b.find? none group = none) (hgroup : b.hasGroup group = true) :
    (property (var group) name).eval mode b =
      match b.find? (some group) name with
      | some n => .ok (.ofNumber n)
      | none => match mode with
        | .lenient => .ok .unit
        | .strict => .error (.absentProperty name) := by
  rw [← Bindings.lookup_members]
  simp only [eval, Bindings.value?, h, hgroup, if_true]
  rfl

theorem eval_member_of_unbound (h : b.find? none group = none) (hgroup : b.hasGroup group = false) :
    (property (var group) name).eval mode b = .error (.unknownVariable group) := by
  simp only [eval, Bindings.value?, h, hgroup]
  rfl

/-- Bindings that agree on a name and on a member of its group agree on the property. -/
theorem eval_member_congr (hplain : b.find? none group = b'.find? none group)
    (hgroup : b.hasGroup group = b'.hasGroup group)
    (hmember : b.find? (some group) name = b'.find? (some group) name) :
    (property (var group) name).eval mode b = (property (var group) name).eval mode b' := by
  cases hfind : b.find? none group with
  | some n => rw [eval_member_of_plain hfind, eval_member_of_plain (hplain ▸ hfind)]
  | none =>
      have hfind' : b'.find? none group = none := hplain ▸ hfind
      cases hhas : b.hasGroup group with
      | true =>
          rw [eval_member_of_group hfind hhas, eval_member_of_group hfind' (hgroup ▸ hhas), hmember]
      | false =>
          rw [eval_member_of_unbound hfind hhas, eval_member_of_unbound hfind' (hgroup ▸ hhas)]

end

/-! ## Evaluations that cannot tell bindings apart -/

/-- **Two bindings look the same** to an evaluation that asks for variables and for properties. -/
structure LookSame (mode : Mode) (b b' : Bindings) (names : List String)
    (properties : List (String × String)) : Prop where
  names : ∀ x ∈ names, b.value? x = b'.value? x
  properties : ∀ p ∈ properties,
    (property (var p.1) p.2).eval mode b = (property (var p.1) p.2).eval mode b'

section

variable {mode : Mode} {b b' : Bindings}

theorem LookSame.of_append {xs ys : List String} {ps qs : List (String × String)}
    (h : LookSame mode b b' (xs ++ ys) (ps ++ qs)) :
    LookSame mode b b' xs ps ∧ LookSame mode b b' ys qs := by
  obtain ⟨hxs, hys⟩ := List.forall_mem_append.1 h.names
  obtain ⟨hps, hqs⟩ := List.forall_mem_append.1 h.properties
  exact ⟨⟨hxs, hps⟩, ⟨hys, hqs⟩⟩

/-- A property of something other than a variable asks for what that asks for. -/
theorem LookSame.of_property {e : Expr} {name : String} (hvar : e.varName? = none)
    (h : LookSame mode b b' (property e name).standalone (property e name).properties) :
    LookSame mode b b' e.standalone e.properties := by
  simpa [standalone, Expr.properties, hvar] using h

/-- A property of a variable is one of those asked for. -/
theorem LookSame.eval_property {e : Expr} {group name : String} (hvar : e.varName? = some group)
    (h : LookSame mode b b' (property e name).standalone (property e name).properties) :
    (property (var group) name).eval mode b = (property (var group) name).eval mode b' :=
  h.properties (group, name) (by simp [Expr.properties, hvar])

mutual

/-- **An evaluation depends on what it asks for** alone. -/
theorem eval_congr : ∀ e : Expr, LookSame mode b b' e.standalone e.properties →
    e.eval mode b = e.eval mode b'
  | int _, _ | float _, _ | bool _, _ | text _, _ | char _, _ | unit, _ => rfl
  | var name, h => by
      rw [eval, eval, h.names name (by simp [standalone])]
  | property e name, h => by
      cases hvar : e.varName? with
      | some group =>
          rw [eval_property_of_varName? hvar, eval_property_of_varName? hvar]
          exact h.eval_property hvar
      | none => rw [eval, eval, eval_congr e (h.of_property hvar)]
  | group e, h => eval_congr e h
  | unary op e, h => by rw [eval, eval, eval_congr e h]
  | binary op e₁ e₂, h => by
      obtain ⟨h₁, h₂⟩ := LookSame.of_append h
      rw [eval, eval, eval_congr e₁ h₁, eval_congr e₂ h₂]
  | logic op e₁ e₂, h => by
      obtain ⟨h₁, h₂⟩ := LookSame.of_append h
      rw [eval, eval, eval_congr e₁ h₁, eval_congr e₂ h₂]
  | call f es, h => by rw [eval, eval, evalAll_congr es h]
  | array es, h => by rw [eval, eval, evalAll_congr es h]

theorem evalAll_congr : ∀ es : List Expr,
    LookSame mode b b' (standaloneOfAll es) (propertiesOfAll es) →
      evalAll mode b es = evalAll mode b' es
  | [], _ => rfl
  | e :: es, h => by
      obtain ⟨h₁, h₂⟩ := LookSame.of_append h
      rw [evalAll, evalAll, eval_congr e h₁, evalAll_congr es h₂]

end

/-- Dropping operands of `&&` and `||` asks for nothing new. -/
theorem eval_joined_congr (op : LogicOp) {e₁ e₂ : Expr} (h₁ : e₁.eval mode b = e₁.eval mode b')
    (h₂ : e₂.eval mode b = e₂.eval mode b') :
    (joined op e₁ e₂).eval mode b = (joined op e₁ e₂).eval mode b' := by
  unfold joined
  split
  · exact h₂
  · rfl
  · exact h₁
  · exact h₂
  · rfl
  · exact h₁
  · rw [eval, eval, h₁, h₂]

theorem simplified_of_varName? {e : Expr} {x : String} (h : e.varName? = some x) :
    e.simplified = var x := by
  fun_induction varName? e with
  | case1 name =>
      cases h
      rfl
  | case2 e ih => exact ih h
  | case3 => simp at h

mutual

/-- **What is computed beforehand asks for nothing new.** -/
theorem eval_simplified_congr : ∀ e : Expr, LookSame mode b b' e.standalone e.properties →
    e.simplified.eval mode b = e.simplified.eval mode b'
  | int _, _ | float _, _ | bool _, _ | text _, _ | char _, _ | unit, _ => rfl
  | var name, h => eval_congr (var name) h
  | property e name, h => by
      -- An operand that is left alone may be a variable, which then stood on its own before.
      cases hvar : e.varName? with
      | some group =>
          rw [simplified, simplified_of_varName? hvar]
          exact h.eval_property hvar
      | none =>
          rw [simplified, eval, eval, eval_simplified_congr e (h.of_property hvar)]
  | group e, h => eval_simplified_congr e h
  | unary op e, h => by rw [simplified, eval, eval, eval_simplified_congr e h]
  | binary op e₁ e₂, h => by
      obtain ⟨h₁, h₂⟩ := LookSame.of_append h
      rw [simplified, eval_folded, eval_folded, eval, eval, eval_simplified_congr e₁ h₁,
        eval_simplified_congr e₂ h₂]
  | logic op e₁ e₂, h => by
      obtain ⟨h₁, h₂⟩ := LookSame.of_append h
      rw [simplified]
      exact eval_joined_congr op (eval_simplified_congr e₁ h₁) (eval_simplified_congr e₂ h₂)
  | call f es, h => by rw [simplified, eval, eval, evalAll_simplified_congr es h]
  | array es, h => by rw [simplified, eval, eval, evalAll_simplified_congr es h]

theorem evalAll_simplified_congr : ∀ es : List Expr,
    LookSame mode b b' (standaloneOfAll es) (propertiesOfAll es) →
      evalAll mode b (simplifiedAll es) = evalAll mode b' (simplifiedAll es)
  | [], _ => rfl
  | e :: es, h => by
      obtain ⟨h₁, h₂⟩ := LookSame.of_append h
      rw [simplifiedAll, evalAll, evalAll, eval_simplified_congr e h₁,
        evalAll_simplified_congr es h₂]

end

end

/-! ## Agreement on names -/

/-- **Bindings agree on what an expression names**: on each variable, whether it is bound and to
which number, and on each property of a variable, whether there is a group of that name and what
stands in it under the name of the property. -/
structure AgreeOn (e : Expr) (b b' : Bindings) : Prop where
  names : ∀ x ∈ e.names, b.find? none x = b'.find? none x
  properties : ∀ p ∈ e.properties, b.hasGroup p.1 = b'.hasGroup p.1 ∧
    b.find? (some p.1) p.2 = b'.find? (some p.1) p.2

/-- **Groups stand in front of properties only**: a variable that stands on its own means no
group. -/
def ShowsNoGroup (e : Expr) (b : Bindings) : Prop :=
  ∀ x ∈ e.standalone, b.find? none x = none → b.hasGroup x = false

namespace AgreeOn

variable {e : Expr} {b b' : Bindings}

/-- A variable that is bound to no number means a group in both or in neither. -/
theorem hasGroup_eq (h : e.AgreeOn b b') (hb : e.ShowsNoGroup b) (hb' : e.ShowsNoGroup b')
    {x : String} (hx : x ∈ e.names) (hfind : b.find? none x = none) :
    b.hasGroup x = b'.hasGroup x := by
  rcases (mem_names_iff e).1 hx with halone | ⟨name, hp⟩
  · rw [hb x halone hfind, hb' x halone (h.names x hx ▸ hfind)]
  · exact (h.properties _ hp).1

theorem lookSame (h : e.AgreeOn b b') (hb : e.ShowsNoGroup b) (hb' : e.ShowsNoGroup b')
    (mode : Mode) : LookSame mode b b' e.standalone e.properties where
  names x hx := by
    have hplain := h.names x ((mem_names_iff e).2 (.inl hx))
    unfold Bindings.value?
    rw [← hplain]
    cases hfind : b.find? none x with
    | some n => rfl
    | none => simp [hb x hx hfind, hb' x hx (hplain ▸ hfind)]
  properties p hp := by
    obtain ⟨hgroup, hmember⟩ := h.properties p hp
    exact eval_member_congr (h.names p.1 ((mem_names_iff e).2 (.inr ⟨p.2, hp⟩))) hgroup hmember

end AgreeOn

end Expr

/-! ## Sources -/

/-- **Bindings agree on what a source names.** A source that is no expression names the variables in
front of the place where reading fails; of their groups it matters only whether there are any. -/
def AgreeOn (source : String) (b b' : Bindings) : Prop :=
  match read source with
  | .expression e => e.AgreeOn b b'
  | .malformed named => ∀ x ∈ named,
      b.find? none x = b'.find? none x ∧ (b.find? none x = none → b.hasGroup x = b'.hasGroup x)

/-- **Groups stand in front of properties only** in a source. -/
def ShowsNoGroup (source : String) (b : Bindings) : Prop :=
  ∀ e, read source = .expression e → e.ShowsNoGroup b

/-- Bindings that agree on a plain variable, and otherwise on its group, agree on whether the name
is bound. -/
theorem isNone_value?_congr {b b' : Bindings} {x : String}
    (hplain : b.find? none x = b'.find? none x)
    (hgroup : b.find? none x = none → b.hasGroup x = b'.hasGroup x) :
    (b.value? x).isNone = (b'.value? x).isNone := by
  unfold Bindings.value?
  rw [← hplain]
  cases hfind : b.find? none x with
  | some n => rfl
  | none =>
      dsimp only
      rw [hgroup hfind]
      cases b'.hasGroup x <;> rfl

namespace Limits

variable {source : String} {b b' : Bindings}

/-- The variables that a check looks up are bound in both or in neither. -/
theorem compileBound_congr (l : Limits) (h : AgreeOn source b b') (hb : ShowsNoGroup source b)
    (hb' : ShowsNoGroup source b') : l.compileBound b source = l.compileBound b' source := by
  unfold compileBound
  unfold AgreeOn at h
  cases hread : read source with
  | malformed named =>
      rw [hread] at h
      dsimp only
      rw [List.find?_congr fun x hx => isNone_value?_congr (h x hx).1 (h x hx).2]
  | expression e =>
      rw [hread] at h
      dsimp only
      rw [List.find?_congr fun x hx => isNone_value?_congr (h.names x hx)
        (h.hasGroup_eq (hb e hread) (hb' e hread) hx)]

/-- What a run within limits gives is told by what the evaluation gives. -/
theorem run_congr (l : Limits) {mode : Mode} {e : Expr} (h : e.eval mode b = e.eval mode b') :
    l.run mode b e = l.run mode b' e := by
  unfold run
  rw [h]

/-- **A source depends on what it names alone.** Bindings that agree on that give the same outcome,
a number or a problem, of the evaluation of the source and of its check. -/
theorem eval_and_check_of_agree (l : Limits) (h : AgreeOn source b b')
    (hb : ShowsNoGroup source b) (hb' : ShowsNoGroup source b') :
    l.eval source b = l.eval source b' ∧ l.check source b = l.check source b' := by
  -- Settling keeps the names of a source, so bindings that agree on it agree on what is evaluated.
  have hagree : ∀ e, read source = .expression e → ∀ mode,
      Expr.LookSame mode b b' e.settled.standalone e.settled.properties := by
    intro e hread mode
    have he : e.AgreeOn b b' := by rwa [AgreeOn, hread] at h
    rw [Expr.standalone_settled, (Expr.parts_settled e).2.1]
    exact he.lookSame (hb e hread) (hb' e hread) mode
  constructor
  · unfold eval evaluate
    cases hcompile : l.compile source with
    | error fault => rfl
    | ok e' =>
        obtain ⟨e, hread, -, rfl⟩ := compile_eq_ok_iff.1 hcompile
        dsimp only
        rw [l.run_congr (Expr.eval_simplified_congr e.settled (hagree e hread .lenient))]
  · unfold check
    rw [← compileBound_congr l h hb hb']
    cases hcompile : l.compileBound b source with
    | error fault => rfl
    | ok e' =>
        obtain ⟨e, hread, -, -, rfl⟩ := compileBound_eq_ok_iff.1 hcompile
        dsimp only
        rw [l.run_congr (Expr.eval_congr e.settled (hagree e hread .strict))]

/-- Another group, another member and another variable make no difference to a product. -/
theorem eval_and_check_of_agree_product :
    (⟨0, 64⟩ : Limits).eval "A.n * rho"
        ⟨[⟨none, "rho", .int 2⟩, ⟨some "A", "n", .int 3⟩]⟩ =
      (⟨0, 64⟩ : Limits).eval "A.n * rho"
        ⟨[⟨some "B", "n", .int 1⟩, ⟨none, "n", .int 5⟩, ⟨some "A", "m", .int 7⟩,
          ⟨some "A", "n", .int 3⟩, ⟨none, "rho", .int 2⟩, ⟨some "rho", "n", .int 9⟩]⟩ ∧
    (⟨0, 64⟩ : Limits).check "A.n * rho"
        ⟨[⟨none, "rho", .int 2⟩, ⟨some "A", "n", .int 3⟩]⟩ =
      (⟨0, 64⟩ : Limits).check "A.n * rho"
        ⟨[⟨some "B", "n", .int 1⟩, ⟨none, "n", .int 5⟩, ⟨some "A", "m", .int 7⟩,
          ⟨some "A", "n", .int 3⟩, ⟨none, "rho", .int 2⟩, ⟨some "rho", "n", .int 9⟩]⟩ := by
  have hread : read "A.n * rho" =
      .expression (.binary .multiply (.property (.var "A") "n") (.var "rho")) := by cbv
  refine eval_and_check_of_agree _ ?_ ?_ ?_
  · rw [AgreeOn, hread]
    constructor
    · simp [Expr.names, Bindings.find?]
    · simp [Expr.properties, Expr.varName?, Bindings.find?, Bindings.hasGroup]
  · intro e he
    obtain rfl := Parsed.expression.inj (hread.symm.trans he)
    simp [Expr.ShowsNoGroup, Expr.standalone, Expr.varName?, Bindings.find?]
  · intro e he
    obtain rfl := Parsed.expression.inj (hread.symm.trans he)
    simp [Expr.ShowsNoGroup, Expr.standalone, Expr.varName?, Bindings.find?]

end Limits

end SiteAnalysis.Expression
