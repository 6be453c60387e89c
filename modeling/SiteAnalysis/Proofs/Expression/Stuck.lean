import SiteAnalysis.Proofs.Expression.Levels
import SiteAnalysis.Proofs.Expression.Outcomes
import SiteAnalysis.Proofs.Expression.Simplification

set_option autoImplicit false

/-! # Expressions that fail from the start

Operands are evaluated from left to right, and the first failure ends the evaluation. So an
expression has no value if what stands first in it has none: a variable that is not bound, or a
property of a single value (`Stuck`). Main statements:

* `Stuck.eval_error`: such an expression fails, in each mode.
* `Limits.eval_ne_ok`: if what the signs are read from is stuck, whatever follows, then the source
  gives no number.
-/

namespace SiteAnalysis.Expression

/-- **Expressions without a value from the start**, with the variables that are bound. -/
inductive Stuck (b : Bindings) : Expr → Prop
  | var {x : String} (hx : b.value? x = none) : Stuck b (.var x)
  | literal {e : Expr} (he : e.literal?.isSome = true) (x : String) : Stuck b (.property e x)
  | property {e : Expr} (h : Stuck b e) (x : String) : Stuck b (.property e x)
  | unary (op : UnaryOp) {e : Expr} (h : Stuck b e) : Stuck b (.unary op e)
  | binary (op : BinaryOp) {e : Expr} (h : Stuck b e) (e' : Expr) : Stuck b (.binary op e e')
  | logic (op : LogicOp) {e : Expr} (h : Stuck b e) (e' : Expr) : Stuck b (.logic op e e')
  | call (f : String) {e : Expr} (h : Stuck b e) (es : List Expr) : Stuck b (.call f (e :: es))

namespace Stuck

variable {b : Bindings} {e : Expr}

/-! ## What compiling makes of them -/

theorem number? (h : Stuck b e) : e.number? = none := by
  induction h with
  | unary op h ih => cases op <;> simp [Expr.number?, ih]
  | _ => rfl

theorem literal? (h : Stuck b e) : e.literal? = none := by
  cases h <;> rfl

theorem settled_of_literal? (h : e.literal?.isSome = true) : e.settled = e := by
  cases e <;> first | rfl | simp [Expr.literal?] at h

theorem simplified_of_literal? (h : e.literal?.isSome = true) : e.simplified = e := by
  cases e <;> first | rfl | simp [Expr.literal?] at h

/-- Signs before such an expression stay operators. -/
theorem settled (h : Stuck b e) : Stuck b e.settled := by
  induction h with
  | var hx => exact .var hx
  | literal he x =>
      rw [Expr.settled, settled_of_literal? he]
      exact .literal he x
  | property h x ih => exact .property ih x
  | @unary op e h ih =>
      rw [Expr.settled, (Stuck.unary op h).number?]
      exact .unary op ih
  | binary op h e' ih => exact .binary op ih _
  | logic op h e' ih => exact .logic op ih _
  | call f h es ih =>
      rw [Expr.settled, Expr.settledAll]
      exact .call f ih _

theorem joined (op : LogicOp) (h : Stuck b e) (e' : Expr) : Stuck b (Expr.joined op e e') := by
  have hlogic := Stuck.logic op h e'
  unfold Expr.joined
  split <;> first | exact h | exact hlogic | cases h

/-- They are no literals, so nothing is computed with them beforehand. -/
theorem simplified (h : Stuck b e) : Stuck b e.simplified := by
  induction h with
  | var hx => exact .var hx
  | literal he x =>
      rw [Expr.simplified, simplified_of_literal? he]
      exact .literal he x
  | property h x ih => exact .property ih x
  | unary op h ih => exact .unary op ih
  | @binary op e h e' ih =>
      have hfolded : Expr.computed? op e.simplified e'.simplified = none := by
        simp [Expr.computed?, ih.literal?]
      rw [Expr.simplified, Expr.folded, hfolded]
      exact .binary op ih _
  | logic op h e' ih => exact ih.joined op _
  | call f h es ih =>
      rw [Expr.simplified, Expr.simplifiedAll]
      exact .call f ih _

/-! ## What evaluating makes of them -/

/-- **The first failure ends the evaluation.** -/
theorem eval_error (h : Stuck b e) (mode : Mode) : ∃ fault, e.eval mode b = .error fault := by
  induction h with
  | var hx =>
      rw [Expr.eval, hx]
      exact ⟨_, rfl⟩
  | @literal e he x =>
      obtain ⟨v, hv⟩ := Option.isSome_iff_exists.1 he
      rw [Expr.eval, Expr.eval_of_literal? hv]
      cases e <;> cases hv <;> exact ⟨_, rfl⟩
  | property h x ih | unary op h ih | binary op h e' ih | logic op h e' ih =>
      obtain ⟨fault, hfault⟩ := ih
      rw [Expr.eval, hfault]
      exact ⟨fault, rfl⟩
  | call f h es ih =>
      obtain ⟨fault, hfault⟩ := ih
      rw [Expr.eval, Expr.evalAll, hfault]
      exact ⟨fault, rfl⟩

end Stuck

/-! ## What the parser makes of them -/

namespace Parser

variable {b : Bindings} {fuel : Nat}

/-- Properties and method calls behind a stuck expression leave it the first operand. -/
theorem stuck_of_postfixes {e e' : Expr} {ts rest : List Token} (h : Stuck b e)
    (hp : postfixes fuel e ts = .ok (e', rest)) : Stuck b e' := by
  induction fuel generalizing e ts with
  | zero => cases hp
  | succ fuel ih =>
      unfold postfixes at hp
      split at hp
      · next f behind =>
          split at hp
          · obtain ⟨⟨es, behind'⟩, -, hp⟩ := bind_eq_ok_iff.1 hp
            exact ih (.call f h es) hp
          · cases hp
      · next x behind _ =>
          split at hp
          · cases hp
          · exact ih (.property h x) hp
      · cases hp
      · cases hp
        exact h

/-- What a level joins to a stuck expression stands behind it. -/
theorem stuck_of_join? {level : Level} {s : Symbol} {join : Expr → Expr → Expr}
    (hjoin : level.join? s = some join) {e : Expr} (h : Stuck b e) (e' : Expr) :
    Stuck b (join e e') := by
  unfold Level.join? at hjoin
  split at hjoin <;> cases hjoin
  all_goals first | exact .binary _ h _ | exact .logic _ h _

theorem stuck_of_continued {level : Level} {e e' : Expr} {ts rest : List Token} (h : Stuck b e)
    (hp : continued fuel level e ts = .ok (e', rest)) : Stuck b e' := by
  induction fuel generalizing e ts with
  | zero => cases hp
  | succ fuel ih =>
      unfold continued at hp
      split at hp
      · split at hp
        · next s behind join hjoin =>
            obtain ⟨⟨right, behind'⟩, -, hp⟩ := bind_eq_ok_iff.1 hp
            dsimp only at hp
            split at hp
            · cases hp
            · exact ih (stuck_of_join? hjoin h right) hp
        · cases hp
          exact h
      · cases hp
        exact h

/-- **What the signs are read from is stuck**, if it can be read. -/
def StartsStuck (b : Bindings) (ts : List Token) : Prop :=
  ∀ fuel e rest, signed fuel ts = .ok (e, rest) → Stuck b e

/-- No expression starts with a point. -/
theorem startsStuck_dot (b : Bindings) (ts : List Token) :
    StartsStuck b (.symbol .dot :: ts) := by
  intro fuel e rest hp
  match fuel with
  | 0 | 1 | fuel + 2 => cases hp

/-- A sign is evaluated after what stands behind it. -/
theorem startsStuck_sign {s : Symbol} (hs : s = .plus ∨ s = .minus) {ts : List Token}
    (h : StartsStuck b ts) : StartsStuck b (.symbol s :: ts) := by
  intro fuel e rest hp
  cases fuel with
  | zero => cases hp
  | succ fuel =>
      rcases hs with rfl | rfl
      all_goals
        obtain ⟨⟨e', behind⟩, he', hp⟩ := bind_eq_ok_iff.1 hp
        cases hp
        exact .unary _ (h _ _ _ he')

theorem startsStuck_leaf {t : Token} {ts : List Token} (ht : ∀ s, t ≠ .symbol s)
    (hts : ts.head? ≠ some (.symbol .leftParen))
    (h : ∀ e, leaf? t = some e → ∀ fuel e' rest, postfixes fuel e ts = .ok (e', rest) →
      Stuck b e') : StartsStuck b (t :: ts) := by
  intro fuel e rest hp
  match fuel with
  | 0 => cases hp
  | 1 =>
      cases t with
      | symbol s => exact absurd rfl (ht s)
      | _ => cases hp
  | fuel + 2 =>
      rw [signed_leaf fuel ht hts] at hp
      split at hp
      · next e' hleaf => exact h e' hleaf _ _ _ hp
      · cases hp

/-- A place where no token can be read is no expression. -/
theorem startsStuck_invalid (b : Bindings) (ts : List Token) : StartsStuck b (.invalid :: ts) := by
  intro fuel e rest hp
  match fuel with
  | 0 | 1 | fuel + 2 => cases hp

/-- A single value has no properties. -/
theorem stuck_of_postfixes_literal {e e' : Expr} (he : e.literal?.isSome = true)
    {ts rest : List Token} (hts : ∀ f behind, ts ≠ .name f :: .symbol .leftParen :: behind)
    (hp : postfixes fuel e (.symbol .dot :: ts) = .ok (e', rest)) : Stuck b e' := by
  cases fuel with
  | zero => cases hp
  | succ fuel =>
      unfold postfixes at hp
      split at hp
      · next f behind heq =>
          obtain ⟨-, rfl⟩ := List.cons.inj heq
          exact absurd rfl (hts f behind)
      · next x behind _ _ =>
          split at hp
          · cases hp
          · exact stuck_of_postfixes (.literal he x) hp
      · cases hp
      · next hdot => exact absurd rfl (hdot ts)

/-! ## Whole expressions -/

variable {ts : List Token} (h : StartsStuck b ts)
include h

theorem stuck_of_power {e : Expr} {rest : List Token} (hp : power fuel ts = .ok (e, rest)) :
    Stuck b e := by
  cases fuel with
  | zero => cases hp
  | succ fuel =>
      obtain ⟨⟨base, behind⟩, hbase, hp⟩ := bind_eq_ok_iff.1 hp
      have hstuck := h _ _ _ hbase
      dsimp only at hp
      split at hp
      · obtain ⟨⟨exponent, behind'⟩, -, hp⟩ := bind_eq_ok_iff.1 hp
        cases hp
        exact .binary _ hstuck _
      · cases hp
        exact hstuck

/-- By induction on the fuel, for operands and chains of all levels together. -/
theorem stuck_of_chain : (∀ {level : Level} {e : Expr} {rest : List Token},
      operand fuel level ts = .ok (e, rest) → Stuck b e) ∧
    ∀ {level : Level} {e : Expr} {rest : List Token},
      chain fuel level ts = .ok (e, rest) → Stuck b e := by
  induction fuel with
  | zero => exact ⟨by rintro _ _ _ ⟨⟩, by rintro _ _ _ ⟨⟩⟩
  | succ fuel ih =>
      obtain ⟨hoperand, hchain⟩ := ih
      constructor
      · intro level e rest hp
        rw [operand] at hp
        split at hp
        · exact stuck_of_power h hp
        · exact hchain hp
      · intro level e rest hp
        obtain ⟨⟨first, behind⟩, hfirst, hp⟩ := bind_eq_ok_iff.1 hp
        exact stuck_of_continued (hoperand hfirst) hp

/-- **A whole expression is stuck if what the signs are read from is.** -/
theorem stuck_of_parse {e : Expr} (hp : parse ts = .ok e) : Stuck b e := by
  rw [parse, bind_eq_ok_iff] at hp
  obtain ⟨⟨e', rest⟩, hexpression, hp⟩ := hp
  have hstuck : Stuck b e' := by
    generalize fuelFor ts = fuel at hexpression
    cases fuel with
    | zero => cases hexpression
    | succ fuel => exact (stuck_of_chain h).2 hexpression
  dsimp only at hp
  split at hp
  · cases hp
    exact hstuck
  · cases hp

end Parser

namespace Limits

variable {l : Limits} {b : Bindings} {source : String}

/-- **Sources without a number.** -/
theorem eval_ne_ok (h : Parser.StartsStuck b (Token.ofChars source.toList)) (x : Float) :
    l.eval source b ≠ .ok x := by
  rw [Ne, eval_eq_ok_iff]
  rintro ⟨e', v, n, hcompile, hrun, -⟩
  obtain ⟨e, hread, -, rfl⟩ := compile_eq_ok_iff.1 hcompile
  have hstuck : Stuck b e := by
    unfold read at hread
    dsimp only at hread
    split at hread
    · next hparse =>
        cases hread
        exact Parser.stuck_of_parse h hparse
    · cases hread
  obtain ⟨fault, hfault⟩ := hstuck.settled.simplified.eval_error .lenient
  unfold run at hrun
  split at hrun
  · cases hrun
  · cases hrun.symm.trans hfault

end Limits

end SiteAnalysis.Expression
