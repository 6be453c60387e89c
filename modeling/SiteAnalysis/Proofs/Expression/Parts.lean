import SiteAnalysis.Proofs.Expression.Bindings

set_option autoImplicit false

/-! # Names and operators in an expression

Next to the variables (`Expr.names`) an expression names properties of groups (`Expr.properties`)
and may hold the operators `&&` and `||` (`Expr.hasLogic`). Reading literals whole changes none of
the three. An expression with a shape has all its names bound and holds neither operator, because
the shape of the whole is found from the shapes of all its parts.
-/

namespace SiteAnalysis.Expression

namespace Expr

/-- The variable an expression consists of, with or without parentheses. -/
def varName? : Expr → Option String
  | var name => some name
  | group e => e.varName?
  | _ => none

mutual

/-- **The properties of variables** an expression names, as pairs of the variable and the property,
in the order of the text. -/
def properties : Expr → List (String × String)
  | int _ | float _ | bool _ | text _ | char _ | unit | var _ => []
  | property e name => e.properties ++ (e.varName?.map fun group => (group, name)).toList
  | group e | unary _ e => e.properties
  | binary _ a b | logic _ a b => a.properties ++ b.properties
  | call _ es | array es => propertiesOfAll es

/-- The properties some expressions name. -/
def propertiesOfAll : List Expr → List (String × String)
  | [] => []
  | e :: es => e.properties ++ propertiesOfAll es

end

mutual

/-- **Whether `&&` or `||` stands in an expression.** -/
def hasLogic : Expr → Bool
  | int _ | float _ | bool _ | text _ | char _ | unit | var _ => false
  | property e _ | group e | unary _ e => e.hasLogic
  | binary _ a b => a.hasLogic || b.hasLogic
  | logic _ _ _ => true
  | call _ es | array es => anyHasLogic es

/-- Whether `&&` or `||` stands in one of some expressions. -/
def anyHasLogic : List Expr → Bool
  | [] => false
  | e :: es => e.hasLogic || anyHasLogic es

end

/-! ## Literals read whole -/

/-- A literal names nothing and holds no operator but signs. -/
theorem parts_of_number? {e : Expr} {n : Number} (h : e.number? = some n) :
    e.names = [] ∧ e.properties = [] ∧ e.hasLogic = false := by
  fun_induction number? e generalizing n with
  | case1 => exact ⟨rfl, rfl, rfl⟩
  | case2 => exact ⟨rfl, rfl, rfl⟩
  | case3 e ih => exact ih h
  | case4 e ih => exact ih h
  | case5 e ih =>
      obtain ⟨m, hm, -⟩ := Option.map_eq_some_iff.1 h
      exact ih hm
  | case6 => simp at h

theorem parts_ofNumber (n : Number) :
    (ofNumber n).names = [] ∧ (ofNumber n).properties = [] ∧ (ofNumber n).hasLogic = false := by
  cases n <;> exact ⟨rfl, rfl, rfl⟩

/-- Either the sign belongs to a literal, or it stays an operator. -/
theorem settled_unary (op : UnaryOp) (e : Expr) :
    (∃ n, (unary op e).number? = some n ∧ (unary op e).settled = ofNumber n) ∨
      (unary op e).settled = unary op e.settled := by
  rw [settled]
  cases h : (unary op e).number? with
  | none => exact Or.inr rfl
  | some n => exact Or.inl ⟨n, rfl, rfl⟩

theorem varName?_settled (e : Expr) : e.settled.varName? = e.varName? := by
  fun_induction varName? e with
  | case1 name => rfl
  | case2 e ih => exact ih
  | case3 e hvar hgroup =>
      cases e with
      | var name => exact (hvar name rfl).elim
      | group e => exact (hgroup e rfl).elim
      | unary op e =>
          rcases settled_unary op e with ⟨n, -, hn⟩ | hop
          · rw [hn]
            cases n <;> rfl
          · rw [hop, varName?]
            all_goals simp
      | _ => rfl

mutual

/-- **Reading literals whole changes none of the parts.** -/
theorem parts_settled : ∀ e : Expr, e.settled.names = e.names ∧
    e.settled.properties = e.properties ∧ e.settled.hasLogic = e.hasLogic
  | int _ | float _ | bool _ | text _ | char _ | unit | var _ => ⟨rfl, rfl, rfl⟩
  | property e name => by
      obtain ⟨hn, hp, hl⟩ := parts_settled e
      simp only [settled, names, properties, hasLogic, hn, hp, hl, varName?_settled, and_self]
  | group e => parts_settled e
  | unary op e => by
      -- What a sign belongs to is a literal, which has none of the parts before and after.
      rcases settled_unary op e with ⟨n, hn, hs⟩ | hop
      · obtain ⟨hn, hp, hl⟩ := parts_of_number? hn
        obtain ⟨hn', hp', hl'⟩ := parts_ofNumber n
        rw [hs, hn, hp, hl]
        exact ⟨hn', hp', hl'⟩
      · rw [hop]
        exact parts_settled e
  | binary op e₁ e₂ => by
      obtain ⟨hn₁, hp₁, hl₁⟩ := parts_settled e₁
      obtain ⟨hn₂, hp₂, hl₂⟩ := parts_settled e₂
      simp only [settled, names, properties, hasLogic, hn₁, hp₁, hl₁, hn₂, hp₂, hl₂, and_self]
  | logic op e₁ e₂ => by
      obtain ⟨hn₁, hp₁, -⟩ := parts_settled e₁
      obtain ⟨hn₂, hp₂, -⟩ := parts_settled e₂
      simp only [settled, names, properties, hasLogic, hn₁, hp₁, hn₂, hp₂, and_self]
  | call f es => partsOfAll_settled es
  | array es => partsOfAll_settled es

theorem partsOfAll_settled : ∀ es : List Expr, namesOfAll (settledAll es) = namesOfAll es ∧
    propertiesOfAll (settledAll es) = propertiesOfAll es ∧
    anyHasLogic (settledAll es) = anyHasLogic es
  | [] => ⟨rfl, rfl, rfl⟩
  | e :: es => by
      obtain ⟨hn, hp, hl⟩ := parts_settled e
      obtain ⟨hns, hps, hls⟩ := partsOfAll_settled es
      simp only [settledAll, namesOfAll, propertiesOfAll, anyHasLogic, hn, hp, hl, hns, hps, hls,
        and_self]

end

/-! ## Expressions with a shape -/

/-- **Everything an expression names is bound**: each variable on its own or as a group, and each
property of a variable in the group of that name. -/
structure NamesBound (b : Bindings) (names : List String) (properties : List (String × String)) :
    Prop where
  names : ∀ x ∈ names, b.isBound none x = true ∨ b.hasGroup x = true
  properties : ∀ p ∈ properties, b.isBound (some p.1) p.2 = true

theorem NamesBound.nil (b : Bindings) : NamesBound b [] [] := by
  constructor <;> simp

theorem NamesBound.append {b : Bindings} {xs ys : List String} {ps qs : List (String × String)}
    (h : NamesBound b xs ps) (h' : NamesBound b ys qs) :
    NamesBound b (xs ++ ys) (ps ++ qs) :=
  ⟨List.forall_mem_append.2 ⟨h.names, h'.names⟩,
    List.forall_mem_append.2 ⟨h.properties, h'.properties⟩⟩

theorem shape?_of_varName? {Γ : String → Option Shape} {e : Expr} {x : String}
    (h : e.varName? = some x) : e.shape? Γ = Γ x := by
  fun_induction varName? e with
  | case1 name =>
      cases h
      rfl
  | case2 e ih => exact ih h
  | case3 => simp at h

theorem namesBound_var {b : Bindings} {x : String} {s : Shape} (h : b.shape? x = some s) :
    NamesBound b [x] [] := by
  obtain ⟨v, hv, -⟩ := Option.bind_eq_some_iff.1 h
  refine ⟨?_, by simp⟩
  rw [List.forall_mem_singleton, ← b.isSome_value?_iff, hv]
  rfl

/-- The property that stands behind a variable is bound, if it has a shape. -/
theorem namesBound_property {b : Bindings} {e : Expr} {name : String} {s t : Shape}
    (he : e.shape? b.shape? = some t) (ht : t.property? name = some s) :
    NamesBound b [] (e.varName?.map fun group => (group, name)).toList := by
  refine ⟨by simp, fun p hp => ?_⟩
  -- The shape of the variable is that of a group, and it has the property for a member.
  obtain ⟨group, hgroup, rfl⟩ : ∃ group, e.varName? = some group ∧ (group, name) = p := by
    simpa using hp
  rw [shape?_of_varName? hgroup] at he
  cases t with
  | number k => simp [Shape.property?] at ht
  | group f =>
      refine Bindings.isBound_of_shape? he ?_
      obtain ⟨k, hk, -⟩ := Option.map_eq_some_iff.1 ht
      exact Option.isSome_of_eq_some hk

mutual

/-- **The parts of an expression with a shape.** All its names are bound, and no operand of it can
have been passed over. -/
theorem parts_of_shape? (b : Bindings) : ∀ (e : Expr) {s : Shape}, e.shape? b.shape? = some s →
    NamesBound b e.names e.properties ∧ e.hasLogic = false
  | .int _, _, _ | .float _, _, _ => ⟨NamesBound.nil b, rfl⟩
  | .var name, _, h => ⟨namesBound_var h, rfl⟩
  | .property e name, _, h => by
      obtain ⟨t, ht, hs⟩ := Option.bind_eq_some_iff.1 h
      obtain ⟨hnames, hlogic⟩ := parts_of_shape? b e ht
      refine ⟨?_, hlogic⟩
      simpa [names, properties] using hnames.append (namesBound_property ht hs)
  | .group e, _, h => parts_of_shape? b e h
  | .unary op e, _, h => by
      obtain ⟨t, ht, -⟩ := Option.bind_eq_some_iff.1 h
      exact parts_of_shape? b e ht
  | .binary op e₁ e₂, _, h => by
      obtain ⟨t₁, ht₁, h⟩ := Option.bind_eq_some_iff.1 h
      obtain ⟨t₂, ht₂, -⟩ := Option.bind_eq_some_iff.1 h
      obtain ⟨hnames₁, hlogic₁⟩ := parts_of_shape? b e₁ ht₁
      obtain ⟨hnames₂, hlogic₂⟩ := parts_of_shape? b e₂ ht₂
      refine ⟨hnames₁.append hnames₂, ?_⟩
      rw [hasLogic, hlogic₁, hlogic₂]
      rfl
  | .call f es, _, h => by
      obtain ⟨ts, hts, -⟩ := Option.bind_eq_some_iff.1 h
      exact partsOfAll_of_shapeAll? b es hts

theorem partsOfAll_of_shapeAll? (b : Bindings) : ∀ (es : List Expr) {ss : List Shape},
    shapeAll? b.shape? es = some ss →
      NamesBound b (namesOfAll es) (propertiesOfAll es) ∧ anyHasLogic es = false
  | [], _, _ => ⟨NamesBound.nil b, rfl⟩
  | e :: es, _, h => by
      obtain ⟨t, ht, h⟩ := Option.bind_eq_some_iff.1 h
      obtain ⟨ts, hts, -⟩ := Option.map_eq_some_iff.1 h
      obtain ⟨hnames, hlogic⟩ := parts_of_shape? b e ht
      obtain ⟨hnames', hlogic'⟩ := partsOfAll_of_shapeAll? b es hts
      refine ⟨hnames.append hnames', ?_⟩
      rw [anyHasLogic, hlogic, hlogic']
      rfl

end

end Expr

end SiteAnalysis.Expression
