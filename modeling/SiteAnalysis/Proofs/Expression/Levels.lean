import SiteAnalysis.Expression.Parser

set_option autoImplicit false

/-! # The descent through the levels

An expression is looked for from the loosest level of operators to the tightest, and what the
signs are read from is found at the bottom. If no symbol stands behind it, no operator joins
anything to it, and it is handed up as it is (`chain_of_signed`). So the whole list of tokens is
parsed to it, or to nothing where something is left (`parse_of_signed`). At the bottom a single
token stands for an expression, with the properties and calls behind it (`signed_leaf`).
-/

namespace SiteAnalysis

/-! ## Outcomes -/

section

variable {ε α β : Type} {x : Except ε α} {b : β}

theorem map_eq_ok_iff {f : α → β} : x.map f = .ok b ↔ ∃ a, x = .ok a ∧ f a = b := by
  cases x <;> simp [Except.map]

theorem map_eq_error_iff {f : α → β} {e : ε} : x.map f = .error e ↔ x = .error e := by
  cases x <;> simp [Except.map]

theorem bind_eq_ok_iff {f : α → Except ε β} :
    (x >>= f) = .ok b ↔ ∃ a, x = .ok a ∧ f a = .ok b := by
  cases x <;> simp [bind, Except.bind]

end

namespace Expression.Parser

/-! ## Steps with nothing to join -/

/-- **Steps with no symbol behind them**: they have failed, or all tokens are read, or the next
token is not a symbol. -/
def Ends (r : Step (Expr × List Token)) : Prop := ∀ e s rest, r ≠ .ok (e, .symbol s :: rest)

theorem ends_error (ts : List Token) : Ends (.error ts) := fun _ _ _ h => by cases h

theorem ends_nil (e : Expr) : Ends (.ok (e, [])) := fun _ _ _ h => by cases h

theorem ends_cons (e : Expr) {t : Token} (ht : ∀ s, t ≠ .symbol s) (rest : List Token) :
    Ends (.ok (e, t :: rest)) := by
  intro e' s rest' h
  cases h
  exact ht s rfl

/-- A step that looks for a symbol changes nothing where none stands. -/
theorem Ends.bind {r : Step (Expr × List Token)} (h : Ends r)
    {f : Expr × List Token → Step (Expr × List Token)}
    (hf : ∀ e rest, (∀ s behind, rest ≠ .symbol s :: behind) → f (e, rest) = .ok (e, rest)) :
    (r >>= f) = r := by
  match r with
  | .error ts => rfl
  | .ok (e, rest) =>
      refine hf e rest fun s behind hrest => h e s behind ?_
      rw [hrest]

variable {fuel : Nat} {ts : List Token}

theorem power_of_signed (h : Ends (signed fuel ts)) : power (fuel + 1) ts = signed fuel ts := by
  refine h.bind fun e rest hrest => ?_
  dsimp only
  split
  · next behind => exact absurd rfl (hrest _ _)
  · rfl

/-- An operand with no symbol behind it is the whole chain. -/
theorem chain_of_operand {level : Level} (h : Ends (operand (fuel + 1) level ts)) :
    chain (fuel + 2) level ts = operand (fuel + 1) level ts := by
  refine h.bind fun e rest hrest => ?_
  cases rest with
  | nil => rfl
  | cons t rest =>
      cases t with
      | symbol s => exact absurd rfl (hrest s rest)
      | _ => rfl

/-- The operands of each level but the tightest are the chains of the next one. -/
theorem chain_of_signed (h : Ends (signed (fuel + 2) ts)) :
    chain (fuel + 15) .either ts = signed (fuel + 2) ts := by
  -- Only the tightest level has powers for operands.
  have hpower : operand (fuel + 4) .product ts = signed (fuel + 2) ts := power_of_signed h
  have hproduct : chain (fuel + 5) .product ts = signed (fuel + 2) ts :=
    (chain_of_operand (by rwa [hpower])).trans hpower
  have hstep : ∀ {k : Nat} {level tighter : Level}, level.tighter = some tighter →
      chain (fuel + k) tighter ts = signed (fuel + 2) ts →
      chain (fuel + k + 2) level ts = signed (fuel + 2) ts := by
    intro k level tighter hlevel hchain
    have hoperand : operand (fuel + k + 1) level ts = signed (fuel + 2) ts := by
      rw [operand, hlevel]
      exact hchain
    exact (chain_of_operand (by rwa [hoperand])).trans hoperand
  have hsum : chain (fuel + 7) .sum ts = signed (fuel + 2) ts := hstep rfl hproduct
  have hordering : chain (fuel + 9) .ordering ts = signed (fuel + 2) ts := hstep rfl hsum
  have hequality : chain (fuel + 11) .equality ts = signed (fuel + 2) ts := hstep rfl hordering
  have hboth : chain (fuel + 13) .both ts = signed (fuel + 2) ts := hstep rfl hequality
  exact hstep rfl hboth

/-- What a step gives if no token may be left behind it. -/
def complete : Step (Expr × List Token) → Step Expr
  | .error rest => .error rest
  | .ok (e, []) => .ok e
  | .ok (_, rest) => .error rest

/-- **What is parsed where no operator joins anything.** The fuel for a list of tokens is more than
what the descent through the levels takes. -/
theorem parse_of_signed {r : Step (Expr × List Token)} (h : ∀ fuel, signed (fuel + 18) ts = r)
    (hr : Ends r) : parse ts = complete r := by
  have hfuel : fuelFor ts = 32 * ts.length + 16 + 15 + 1 := by
    unfold fuelFor
    omega
  have hchain : chain (32 * ts.length + 16 + 15) .either ts = r :=
    (chain_of_signed (by rwa [h])).trans (h _)
  rw [parse, hfuel, expression, hchain]
  match r with
  | .error rest => rfl
  | .ok (e, []) => rfl
  | .ok (e, t :: rest) => rfl

/-! ## One token and what stands behind it -/

/-- The expression that a single token stands for, with no call behind it. -/
def leaf? : Token → Option Expr
  | .int n => some (.int n)
  | .float x => some (.float x)
  | .text s => some (.text s)
  | .char c => some (.char c)
  | .name x => word? x
  | _ => none

theorem primary_leaf (fuel : Nat) {t : Token} {ts : List Token} (ht : ∀ s, t ≠ .symbol s)
    (hts : ts.head? ≠ some (.symbol .leftParen)) : primary (fuel + 1) (t :: ts) =
      match leaf? t with
      | some e => .ok (e, ts)
      | none => .error (t :: ts) := by
  cases t with
  | symbol s => exact absurd rfl (ht s)
  | name x =>
      -- Only a parenthesis behind a name makes it a call.
      cases ts with
      | nil => rfl
      | cons t' ts =>
          cases t' with
          | symbol s => cases s <;> first | rfl | exact absurd rfl hts
          | _ => rfl
  | _ => rfl

/-- **An expression that starts with a single token** is read from it and from the properties
behind it. -/
theorem signed_leaf (fuel : Nat) {t : Token} {ts : List Token} (ht : ∀ s, t ≠ .symbol s)
    (hts : ts.head? ≠ some (.symbol .leftParen)) : signed (fuel + 2) (t :: ts) =
      match leaf? t with
      | some e => postfixes (fuel + 1) e ts
      | none => .error (t :: ts) := by
  have hsigned : signed (fuel + 2) (t :: ts) =
      (primary (fuel + 1) (t :: ts) >>= fun p => postfixes (fuel + 1) p.1 p.2) := by
    cases t with
    | symbol s => exact absurd rfl (ht s)
    | _ => rfl
  rw [hsigned, primary_leaf fuel ht hts]
  cases leaf? t <;> rfl

end Expression.Parser

end SiteAnalysis
