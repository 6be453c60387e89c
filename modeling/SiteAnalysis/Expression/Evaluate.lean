import SiteAnalysis.Expression.Bindings
import SiteAnalysis.Expression.Function
import SiteAnalysis.Expression.Literal

/-! # Evaluation of expressions

Operands are evaluated from left to right, and the first failure ends the evaluation.  A lenient
evaluation gives the unit value for a property that a group does not have; a strict one fails.
-/

namespace SiteAnalysis.Expression

/-- How a missing member of a group is treated. -/
inductive Mode where
  | lenient | strict
  deriving DecidableEq, Repr

/-- The property of a value. -/
def Value.property (mode : Mode) (v : Value) (name : String) : Except Fault Value :=
  match v with
  | .group members =>
    match members.lookup name with
    | some n => .ok (.ofNumber n)
    | none => match mode with
      | .lenient => .ok .unit
      | .strict => .error (.absentProperty name)
  | _ => .error (.absentProperty name)

/-- The truth value of an operand of `&&` or `||`. -/
def Value.truth : Value → Except Fault Bool
  | .bool b => .ok b
  | v => .error (.notTruthValue v.kind)

namespace Expr

mutual

/-- **The value of an expression.** -/
def eval (mode : Mode) (b : Bindings) : Expr → Except Fault Value
  | int n => .ok (.int n)
  | float x => .ok (.float x)
  | bool t => .ok (.bool t)
  | text s => .ok (.text s)
  | char c => .ok (.char c)
  | unit => .ok .unit
  | var name =>
    match b.value? name with
    | some v => .ok v
    | none => .error (.unknownVariable name)
  | property e name => do (← e.eval mode b).property mode name
  | group e => e.eval mode b
  | unary op e => do Value.unary op (← e.eval mode b)
  | binary op e₁ e₂ => do
    let v₁ ← e₁.eval mode b
    let v₂ ← e₂.eval mode b
    Value.binary op v₁ v₂
  | logic op e₁ e₂ => do
    let t₁ ← (← e₁.eval mode b).truth
    match op, t₁ with
    | .both, false => .ok (.bool false)
    | .either, true => .ok (.bool true)
    | _, _ => return .bool (← (← e₂.eval mode b).truth)
  | call f es => do Function.apply f (← evalAll mode b es)
  | array es => do return .array (← evalAll mode b es)

/-- The values of some expressions. -/
def evalAll (mode : Mode) (b : Bindings) : List Expr → Except Fault (List Value)
  | [] => .ok []
  | e :: es => do
    let v ← e.eval mode b
    let vs ← evalAll mode b es
    .ok (v :: vs)

end

end Expr

end SiteAnalysis.Expression
