import SiteAnalysis.Expression.Evaluate

set_option autoImplicit false

/-! # Shapes of values

The shape of a value is what is known of it while its numbers are left open: an integer, a float,
or a group with an integer or a float under each of its names. No other value has a shape.

Operators and functions make numbers and groups from numbers and groups only, and choose what they
do by the kinds of their operands. So the shape of an expression follows from the shapes of its
variables, without evaluating it (`Expr.shape?`). Main statement, for both modes of evaluation:

* `eval_agrees`: if an expression has a shape, its evaluation gives a value of that shape or fails
  in arithmetic; if it has none, no value with a shape comes out.
-/

namespace SiteAnalysis.Expression

/-- The kinds of numbers. -/
inductive NumberKind where
  | int | float
  deriving DecidableEq, Repr

/-- The kind of a number. -/
def Number.kind : Number → NumberKind
  | int _ => .int
  | float _ => .float

/-- The kind of number that arithmetic on two numbers gives. -/
def NumberKind.join : NumberKind → NumberKind → NumberKind
  | int, int => int
  | _, _ => float

/-- **Shapes.** The members of a group are given by name. -/
inductive Shape where
  | number (kind : NumberKind)
  | group (members : String → Option NumberKind)

/-- The shape of a value; none if it is neither a number nor a group. -/
def Value.shape? : Value → Option Shape
  | int _ => some (.number .int)
  | float _ => some (.number .float)
  | group members => some (.group fun name => (members.lookup name).map Number.kind)
  | _ => none

/-- The shapes of some values; none if one of them has none. -/
def Value.shapeAll? : List Value → Option (List Shape)
  | [] => some []
  | v :: vs => v.shape?.bind fun s => (shapeAll? vs).map (s :: ·)

/-- The shape of a variable. -/
def Bindings.shape? (b : Bindings) (name : String) : Option Shape :=
  (b.value? name).bind Value.shape?

/-! ## Shapes of results -/

/-- Whether an operator gives a number for two numbers. -/
def BinaryOp.isArithmetic : BinaryOp → Bool
  | .add | .subtract | .multiply | .divide | .modulo | .power => true
  | _ => false

namespace Shape

/-- The shape of a property. -/
def property? (name : String) : Shape → Option Shape
  | group members => (members name).map number
  | number _ => none

/-- The shape an operator on one value gives. -/
def unary? : UnaryOp → Shape → Option Shape
  | .plus, number k | .minus, number k => some (number k)
  | _, _ => none

/-- The shape an operator on two values gives. Groups are joined by addition. -/
def binary? (op : BinaryOp) : Shape → Shape → Option Shape
  | number j, number k => if op.isArithmetic then some (number (j.join k)) else none
  | group f, group g => if op = .add then some (group fun name => (g name).or (f name)) else none
  | _, _ => none

/-- The shape a function gives. -/
def call? (name : String) : List Shape → Option Shape
  | [] =>
    match name with
    | "pi" | "e" => some (number .float)
    | _ => none
  | [number .float] =>
    if name = "to_int" then some (number .int)
    else (Function.ofFloat? name).map fun _ => number .float
  | [number .int] =>
    if name = "abs" ∨ name = "to_int" then some (number .int)
    else (Function.ofInt? name).map fun _ => number .float
  | [number .float, number .float] => (Function.ofFloats? name).map fun _ => number .float
  | [number .float, number .int] =>
    if name = "pow" then some (number .float)
    else (Function.ofMixed? name).map fun _ => number .float
  | [number .int, number .float] => (Function.ofMixed? name).map fun _ => number .float
  | [number .int, number .int] =>
    match name with
    | "pow" => some (number .float)
    | "min" | "max" => some (number .int)
    | _ => none
  | _ => none

end Shape

namespace Expr

mutual

/-- **The shape of an expression**, from the shapes of the variables. -/
def shape? (Γ : String → Option Shape) : Expr → Option Shape
  | int _ => some (.number .int)
  | float _ => some (.number .float)
  | bool _ | text _ | char _ | unit => none
  | var name => Γ name
  | property e name => (e.shape? Γ).bind (Shape.property? name)
  | group e => e.shape? Γ
  | unary op e => (e.shape? Γ).bind (Shape.unary? op)
  | binary op e₁ e₂ => (e₁.shape? Γ).bind fun s => (e₂.shape? Γ).bind (Shape.binary? op s)
  | logic _ _ _ => none
  | call f es => (shapeAll? Γ es).bind (Shape.call? f)
  | array _ => none

/-- The shapes of some expressions; none if one of them has none. -/
def shapeAll? (Γ : String → Option Shape) : List Expr → Option (List Shape)
  | [] => some []
  | e :: es => (e.shape? Γ).bind fun s => (shapeAll? Γ es).map (s :: ·)

end

end Expr

/-! ## Predictions and outcomes -/

/-- An outcome that is a number. -/
def GivesNumber (r : Except Fault Value) : Prop := ∃ v n, r = .ok v ∧ v.number? = some n

/-- An outcome that is a failure of arithmetic. -/
def FailsInArithmetic {α : Type} (r : Except Fault α) : Prop :=
  ∃ fault, r = .error (.arithmetic fault)

/-- **A prediction agrees with an outcome.** Where something is predicted, the outcome is as
predicted or a failure of arithmetic; where nothing is, the outcome is nothing that could have been
predicted. -/
def Agrees {α β : Type} (shape : α → Option β) : Option β → Except Fault α → Prop
  | some s, r => (∃ a, r = .ok a ∧ shape a = some s) ∨ FailsInArithmetic r
  | none, r => ∀ a, r = .ok a → shape a = none

namespace Agrees

variable {α β γ δ : Type} {shape : α → Option β} {shape' : γ → Option δ}

theorem ok {a : α} {o : Option β} (h : shape a = o) : Agrees shape o (.ok a) := by
  cases o with
  | none =>
      intro a' ha'
      cases ha'
      exact h
  | some s => exact Or.inl ⟨a, rfl, h⟩

theorem shape_eq {a : α} {o : Option β} (h : Agrees shape o (.ok a)) : shape a = o := by
  cases o with
  | none => exact h a rfl
  | some s =>
      rcases h with ⟨a', ha', hs⟩ | ⟨fault, hf⟩
      · cases ha'
        exact hs
      · cases hf

theorem arithmetic (o : Option β) (fault : ArithmeticFault) :
    Agrees shape o (.error (.arithmetic fault)) := by
  cases o with
  | none =>
      intro a ha
      cases ha
  | some s => exact Or.inr ⟨fault, rfl⟩

theorem error (fault : Fault) : Agrees shape none (.error fault) := by
  intro a ha
  cases ha

/-- Predictions are carried through a sequence of two steps. -/
theorem bind {o : Option β} {x : Except Fault α} {g : β → Option δ} {f : α → Except Fault γ}
    (hx : Agrees shape o x) (hf : ∀ a, Agrees shape' ((shape a).bind g) (f a)) :
    Agrees shape' (o.bind g) (x >>= f) := by
  cases o with
  | none =>
      cases x with
      | error fault => exact error fault
      | ok a =>
          have ha := hf a
          rw [hx a rfl] at ha
          exact ha
  | some s =>
      rcases hx with ⟨a, rfl, ha⟩ | ⟨fault, rfl⟩
      · have hfa := hf a
        rw [ha] at hfa
        exact hfa
      · exact arithmetic (g s) fault

/-- Predictions are carried through two steps whose results are then put together. -/
theorem bind₂ {ε ζ : Type} {shape'' : ε → Option ζ} {o : Option β} {o' : Option δ}
    {x : Except Fault α} {x' : Except Fault γ} {g : β → δ → Option ζ}
    {f : α → γ → Except Fault ε} (hx : Agrees shape o x) (hx' : Agrees shape' o' x')
    (hf : ∀ a c, Agrees shape'' ((shape a).bind fun s => (shape' c).bind (g s)) (f a c)) :
    Agrees shape'' (o.bind fun s => o'.bind (g s)) (x >>= fun a => x' >>= f a) := by
  -- `bind` predicts the steps one after the other, so the second prediction is brought inside.
  refine hx.bind fun a => ?_
  rw [Option.bind_comm]
  refine hx'.bind fun c => ?_
  rw [← Option.bind_comm]
  exact hf a c

end Agrees

/-! ## Operators -/

namespace Value

theorem shape?_ofNumber (n : Number) : (ofNumber n).shape? = some (.number n.kind) := by
  cases n <;> rfl

theorem shape?_of_number? {v : Value} {n : Number} (h : v.number? = some n) :
    v.shape? = some (.number n.kind) := by
  cases v <;> simp only [number?, Option.some.injEq, reduceCtorEq] at h <;> subst h <;> rfl

theorem number?_of_shape? {v : Value} {k : NumberKind} (h : v.shape? = some (.number k)) :
    ∃ n, v.number? = some n ∧ n.kind = k := by
  cases v <;> simp only [shape?, Option.some.injEq, Shape.number.injEq, reduceCtorEq] at h
  · exact ⟨_, rfl, h⟩
  · exact ⟨_, rfl, h⟩

theorem exists_group_of_shape? {v : Value} {f : String → Option NumberKind}
    (h : v.shape? = some (.group f)) : ∃ members, v = group members := by
  cases v <;> simp only [shape?, Option.some.injEq, reduceCtorEq] at h
  exact ⟨_, rfl⟩

theorem agrees_checked (n : Int) : Agrees shape? (some (.number .int)) (checked n) := by
  unfold checked
  split
  · exact Agrees.ok rfl
  · exact Agrees.arithmetic _ _

theorem agrees_powerInt (a b : Int) : Agrees shape? (some (.number .int)) (powerInt a b) := by
  unfold powerInt
  split
  · exact Agrees.arithmetic _ _
  split
  · exact Agrees.arithmetic _ _
  split
  · exact Agrees.ok rfl
  split
  · exact Agrees.ok rfl
  split
  · exact Agrees.arithmetic _ _
  · exact agrees_checked _

theorem agrees_binaryInt (op : BinaryOp) (a b : Int) :
    Agrees shape? (Shape.binary? op (.number .int) (.number .int)) (binaryInt op a b) := by
  cases op with
  | add | subtract | multiply => exact agrees_checked _
  | divide =>
      simp only [binaryInt]
      split
      · exact Agrees.arithmetic _ _
      · exact agrees_checked _
  | modulo =>
      simp only [binaryInt]
      split
      · exact Agrees.arithmetic _ _
      split
      · exact Agrees.arithmetic _ _
      · exact agrees_checked _
  | power => exact agrees_powerInt a b
  | less | lessEqual | greater | greaterEqual | equal | notEqual => exact Agrees.ok rfl

theorem agrees_binaryFloat (op : BinaryOp) (x y : Float) {j k : NumberKind}
    (h : j.join k = .float) :
    Agrees shape? (Shape.binary? op (.number j) (.number k)) (.ok (binaryFloat op x y)) := by
  rw [Shape.binary?, h]
  cases op <;> exact Agrees.ok rfl

theorem lookup_filter_isNone (xs ys : List (String × Number)) (name : String) :
    (xs.filter fun x => (ys.lookup x.1).isNone).lookup name =
      if (ys.lookup name).isNone then xs.lookup name else none := by
  induction xs with
  | nil => simp
  | cons x xs ih =>
      obtain ⟨key, n⟩ := x
      by_cases hk : name = key
      · subst hk
        by_cases hy : (ys.lookup name).isNone
        · simp [hy]
        · simp [hy, ih]
      · have hne : (name == key) = false := by simpa using hk
        by_cases hy : (ys.lookup key).isNone
        · simp [hy, List.lookup_cons, hne, ih]
        · simp [hy, List.lookup_cons, hne, ih]

/-- In a joined group the second one has the last word on a name. -/
theorem lookup_merged (xs ys : List (String × Number)) (name : String) :
    (merged xs ys).lookup name = (ys.lookup name).or (xs.lookup name) := by
  rw [merged, List.lookup_append, lookup_filter_isNone]
  cases ys.lookup name <;> simp

theorem shape?_merged (xs ys : List (String × Number)) :
    (group (merged xs ys)).shape? =
      some (.group fun name =>
        ((ys.lookup name).map Number.kind).or ((xs.lookup name).map Number.kind)) := by
  simp only [shape?, lookup_merged, Option.map_or]

/-- Of the operators on values that are not both numbers, only the sum of two groups gives a value
with a shape. -/
theorem shape?_of_binaryOther {op : BinaryOp} {v w r : Value} (h : binaryOther op v w = .ok r) :
    r.shape? = none ∨ op = .add ∧ ∃ xs ys, v = group xs ∧ w = group ys := by
  unfold binaryOther at h
  split at h
  -- The fifth rule is the sum of two groups; the last stands for all operators without a rule.
  case h_5 xs ys => exact Or.inr ⟨rfl, xs, ys, rfl, rfl⟩
  case h_10 =>
    split at h
    · cases h
      exact Or.inl rfl
    · split at h
      · simp at h
      · cases h
        exact Or.inl rfl
    · simp at h
  all_goals
    cases h
    exact Or.inl rfl

theorem shape?_bind_binary?_eq_none {op : BinaryOp} {v w : Value}
    (h : v.number? = none ∨ w.number? = none)
    (hsum : ¬ (op = .add ∧ ∃ xs ys, v = group xs ∧ w = group ys)) :
    (v.shape?.bind fun s => w.shape?.bind (Shape.binary? op s)) = none := by
  cases hv : v.shape? with
  | none => rfl
  | some s =>
      cases hw : w.shape? with
      | none => rfl
      | some t =>
          cases s with
          | number j =>
              cases t with
              | number k =>
                  obtain ⟨m, hm, -⟩ := number?_of_shape? hv
                  obtain ⟨n, hn, -⟩ := number?_of_shape? hw
                  simp [hm, hn] at h
              | group g => rfl
          | group f =>
              cases t with
              | number k => rfl
              | group g =>
                  obtain ⟨xs, rfl⟩ := exists_group_of_shape? hv
                  obtain ⟨ys, rfl⟩ := exists_group_of_shape? hw
                  -- Groups are joined by a sum, and by nothing else.
                  have hop : op ≠ .add := fun e => hsum ⟨e, xs, ys, rfl, rfl⟩
                  exact if_neg hop

theorem agrees_binaryOther {op : BinaryOp} {v w : Value} (h : v.number? = none ∨ w.number? = none) :
    Agrees shape? (v.shape?.bind fun s => w.shape?.bind (Shape.binary? op s))
      (binaryOther op v w) := by
  by_cases hsum : op = .add ∧ ∃ xs ys, v = group xs ∧ w = group ys
  · obtain ⟨rfl, xs, ys, rfl, rfl⟩ := hsum
    exact Agrees.ok (shape?_merged xs ys)
  · rw [shape?_bind_binary?_eq_none h hsum]
    intro r hr
    exact (shape?_of_binaryOther hr).resolve_right hsum

/-- **Operators on two values.** -/
theorem agrees_binary (op : BinaryOp) (v w : Value) :
    Agrees shape? (v.shape?.bind fun s => w.shape?.bind (Shape.binary? op s)) (binary op v w) := by
  unfold binary
  -- Two integers, two numbers of which one is a float, and values of which one is no number.
  split
  · rename_i m n hm hn
    rw [shape?_of_number? hm, shape?_of_number? hn]
    exact agrees_binaryInt op m n
  · rename_i m n hmn hm hn
    have hjoin : m.kind.join n.kind = .float := by
      cases m with
      | int a =>
          cases n with
          | int b => exact (hmn a b rfl rfl).elim
          | float y => rfl
      | float x => rfl
    rw [shape?_of_number? hm, shape?_of_number? hn]
    exact agrees_binaryFloat op m.toFloat n.toFloat hjoin
  · rename_i h
    refine agrees_binaryOther ?_
    cases hv : v.number? with
    | none => exact Or.inl rfl
    | some m =>
        cases hw : w.number? with
        | none => exact Or.inr rfl
        | some n => exact (h m n hv hw).elim

/-- **Operators on one value.** -/
theorem agrees_unary (op : UnaryOp) (v : Value) :
    Agrees shape? (v.shape?.bind (Shape.unary? op)) (unary op v) := by
  cases op with
  | plus =>
      cases v with
      | int n | float x => exact Agrees.ok rfl
      | _ => exact Agrees.error _
  | minus =>
      cases v with
      | int n => exact agrees_checked (-n)
      | float x => exact Agrees.ok rfl
      | _ => exact Agrees.error _
  | negation =>
      cases v with
      | bool t => exact Agrees.ok rfl
      | _ => exact Agrees.error _

/-- **Properties**, in both modes: a member that is absent gives the unit value or a failure, and
neither has a shape. -/
theorem agrees_property (mode : Mode) (v : Value) (name : String) :
    Agrees shape? (v.shape?.bind (Shape.property? name)) (v.property mode name) := by
  cases v with
  | group members =>
      simp only [property, shape?, Option.bind_some, Shape.property?]
      cases members.lookup name with
      | some n => exact Agrees.ok (shape?_ofNumber n)
      | none =>
          cases mode with
          | lenient => exact Agrees.ok rfl
          | strict => exact Agrees.error _
  | _ => exact Agrees.error _

end Value

/-! ## Functions -/

namespace Function

theorem agrees_toInt (x : Float) : Agrees Value.shape? (some (.number .int)) (toInt x) := by
  unfold toInt
  split
  · exact Agrees.arithmetic _ _
  · exact Agrees.ok rfl

/-- A function looked up in a table of functions that give a float. -/
theorem agrees_table {α : Type} (f? : Option α) (g : α → Float) (fault : Fault) :
    Agrees Value.shape? (f?.map fun _ => .number .float)
      ((f?.map fun f => .ok (.float (g f))).getD (.error fault)) := by
  cases f? with
  | none => exact Agrees.error _
  | some f => exact Agrees.ok rfl

theorem agrees_apply_one (name : String) (v : Value) :
    Agrees Value.shape? ((Value.shapeAll? [v]).bind (Shape.call? name)) (apply name [v]) := by
  cases v with
  | float x =>
      simp only [Value.shapeAll?, Value.shape?, Option.bind_some, Option.map_some, Shape.call?,
        apply, call?]
      split
      · exact agrees_toInt x
      · exact agrees_table (ofFloat? name) (fun f => f x) _
  | int n =>
      simp only [Value.shapeAll?, Value.shape?, Option.bind_some, Option.map_some, Shape.call?,
        apply, call?]
      -- Two functions of an integer do not go through doubles.
      by_cases habs : name = "abs"
      · simpa [habs] using Value.agrees_checked _
      by_cases hint : name = "to_int"
      · subst hint
        exact Agrees.ok rfl
      · simpa [habs, hint] using agrees_table (ofInt? name) (fun f => f (Float.ofInt n)) _
  | text s =>
      simp only [Value.shapeAll?, Value.shape?, Option.bind_none, apply, call?]
      split
      · exact Agrees.ok rfl
      · exact Agrees.error _
  | _ => exact Agrees.error _

theorem agrees_apply_two (name : String) (v w : Value) :
    Agrees Value.shape? ((Value.shapeAll? [v, w]).bind (Shape.call? name)) (apply name [v, w]) := by
  cases v with
  | float x =>
      cases w with
      | float y => exact agrees_table (ofFloats? name) (fun f => f x y) _
      | int n =>
          simp only [Value.shapeAll?, Value.shape?, Option.bind_some, Option.map_some, Shape.call?,
            apply, call?]
          split
          · exact Agrees.ok rfl
          · exact agrees_table (ofMixed? name) (fun f => f x (Float.ofInt n)) _
      | _ => exact Agrees.error _
  | int m =>
      cases w with
      | float y => exact agrees_table (ofMixed? name) (fun f => f (Float.ofInt m) y) _
      | int n =>
          simp only [Value.shapeAll?, Value.shape?, Option.bind_some, Option.map_some, Shape.call?,
            apply, call?]
          split
          -- A name that none of the functions of two integers has.
          case h_4 hpow hmin hmax => simpa [hpow, hmin, hmax] using Agrees.error _
          all_goals exact Agrees.ok rfl
      | _ => exact Agrees.error _
  | group f => cases w <;> exact Agrees.error _
  | _ => exact Agrees.error _

/-- No function takes more than two arguments. -/
theorem call?_eq_none_of_length {name : String} {ss : List Shape} (h : 2 < ss.length) :
    Shape.call? name ss = none := by
  unfold Shape.call?
  split <;> simp_all

theorem length_of_shapeAll? {vs : List Value} {ss : List Shape}
    (h : Value.shapeAll? vs = some ss) : ss.length = vs.length := by
  induction vs generalizing ss with
  | nil =>
      cases h
      rfl
  | cons v vs ih =>
      simp only [Value.shapeAll?, Option.bind_eq_some_iff, Option.map_eq_some_iff] at h
      obtain ⟨s, -, rest, hrest, rfl⟩ := h
      rw [List.length_cons, List.length_cons, ih hrest]

/-- **Functions.** -/
theorem agrees_apply (name : String) (vs : List Value) :
    Agrees Value.shape? ((Value.shapeAll? vs).bind (Shape.call? name)) (apply name vs) := by
  match vs with
  | [] =>
      simp only [Value.shapeAll?, Option.bind_some, Shape.call?, apply, call?]
      split
      case h_3 hpi he => simpa [hpi, he] using Agrees.error _
      all_goals exact Agrees.ok rfl
  | [v] => exact agrees_apply_one name v
  | [v, w] => exact agrees_apply_two name v w
  | v :: w :: u :: vs =>
      -- Here neither side is anything: there is no such function, so nothing is predicted.
      have hnone : (Value.shapeAll? (v :: w :: u :: vs)).bind (Shape.call? name) = none := by
        rw [Option.bind_eq_none_iff]
        intro ss hss
        refine call?_eq_none_of_length ?_
        rw [length_of_shapeAll? hss]
        simp
      rw [hnone, apply, call?]
      · exact Agrees.error _
      all_goals simp

end Function

/-- What a sequence of two steps gives, the second step gives for what the first one gave. -/
theorem exists_of_bind_eq_ok {α β : Type} {x : Except Fault α} {f : α → Except Fault β} {b : β}
    (h : x >>= f = .ok b) : ∃ a, x = .ok a ∧ f a = .ok b := by
  cases x with
  | error fault => cases h
  | ok a => exact ⟨a, rfl, h⟩

namespace Expr

theorem agrees_var (mode : Mode) (b : Bindings) (name : String) :
    Agrees Value.shape? (b.shape? name) ((var name).eval mode b) := by
  rw [Bindings.shape?, eval]
  cases b.value? name with
  | none => exact Agrees.error _
  | some v => exact Agrees.ok rfl

theorem exists_bool_of_eval_logic {mode : Mode} {b : Bindings} {op : LogicOp} {e₁ e₂ : Expr}
    {v : Value} (h : (logic op e₁ e₂).eval mode b = .ok v) : ∃ t, v = .bool t := by
  rw [eval] at h
  obtain ⟨v₁, -, h⟩ := exists_of_bind_eq_ok h
  obtain ⟨t₁, -, h⟩ := exists_of_bind_eq_ok h
  split at h
  · cases h
    exact ⟨false, rfl⟩
  · cases h
    exact ⟨true, rfl⟩
  · obtain ⟨v₂, -, h⟩ := exists_of_bind_eq_ok h
    obtain ⟨t₂, -, h⟩ := exists_of_bind_eq_ok h
    cases h
    exact ⟨t₂, rfl⟩

mutual

/-- **The shape of an expression is right** about its evaluation. -/
theorem eval_agrees (mode : Mode) (b : Bindings) :
    ∀ e : Expr, Agrees Value.shape? (e.shape? b.shape?) (e.eval mode b)
  | int n => Agrees.ok rfl
  | float x => Agrees.ok rfl
  | bool t => Agrees.ok rfl
  | text s => Agrees.ok rfl
  | char c => Agrees.ok rfl
  | unit => Agrees.ok rfl
  | var name => agrees_var mode b name
  | property e name =>
      (eval_agrees mode b e).bind fun v => Value.agrees_property mode v name
  | group e => eval_agrees mode b e
  | unary op e => (eval_agrees mode b e).bind fun v => Value.agrees_unary op v
  | binary op e₁ e₂ => by
      rw [shape?, eval]
      exact (eval_agrees mode b e₁).bind₂ (eval_agrees mode b e₂) (Value.agrees_binary op)
  | logic op e₁ e₂ => by
      -- Whichever operands are evaluated, the result is a truth value, which has no shape.
      intro v hv
      obtain ⟨t, rfl⟩ := exists_bool_of_eval_logic hv
      rfl
  | call f es => (evalAll_agrees mode b es).bind fun vs => Function.agrees_apply f vs
  | array es => by
      rw [shape?, eval]
      intro v hv
      obtain ⟨vs, -, hvs⟩ := exists_of_bind_eq_ok hv
      cases hvs
      rfl

/-- The shapes of some expressions are right about their evaluation. -/
theorem evalAll_agrees (mode : Mode) (b : Bindings) :
    ∀ es : List Expr, Agrees Value.shapeAll? (shapeAll? b.shape? es) (evalAll mode b es)
  | [] => Agrees.ok rfl
  | e :: es => by
      rw [shapeAll?, evalAll]
      simp only [Option.map_eq_bind]
      refine (eval_agrees mode b e).bind₂ (evalAll_agrees mode b es) fun v vs => Agrees.ok ?_
      simp only [Value.shapeAll?, Option.map_eq_bind]

end

/-- What evaluates to a number has the shape of a number, -/
theorem exists_shape?_of_givesNumber {mode : Mode} {b : Bindings} {e : Expr}
    (h : GivesNumber (e.eval mode b)) : ∃ k, e.shape? b.shape? = some (.number k) := by
  obtain ⟨v, n, hv, hn⟩ := h
  have hagree := eval_agrees mode b e
  rw [hv] at hagree
  exact ⟨n.kind, hagree.shape_eq ▸ Value.shape?_of_number? hn⟩

/-- and what has the shape of a number evaluates to one unless arithmetic fails. -/
theorem givesNumber_or_failsInArithmetic {b : Bindings} {e : Expr} {k : NumberKind}
    (h : e.shape? b.shape? = some (.number k)) (mode : Mode) :
    GivesNumber (e.eval mode b) ∨ FailsInArithmetic (e.eval mode b) := by
  have hagree := eval_agrees mode b e
  rw [h] at hagree
  rcases hagree with ⟨v, hv, hs⟩ | hfail
  · obtain ⟨n, hn, -⟩ := Value.number?_of_shape? hs
    exact Or.inl ⟨v, n, hv, hn⟩
  · exact Or.inr hfail

end Expr

end SiteAnalysis.Expression
