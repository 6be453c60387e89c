import SiteAnalysis.Expression.Operator

/-! # Literals, and what is computed before an evaluation

A sign before a literal belongs to it; `settled` reads such literals whole.  Compiling an
expression then carries out the operators on literals and drops the operands of `&&` and `||` that
decide nothing.  `simplified` does so from the inside out, by `folded` and `joined`.
-/

namespace SiteAnalysis.Expression

/-- A number with its sign turned.  The least integer becomes a double. -/
def Number.negated : Number → Number
  | int n => if n = minInt then float 9223372036854775808.0 else int (-n)
  | float x => float (-x)

namespace Expr

/-- **The number that a literal stands for**; signs and parentheses around it belong to it. -/
def number? : Expr → Option Number
  | int n => some (.int n)
  | float x => some (.float x)
  | group e => e.number?
  | unary .plus e => e.number?
  | unary .minus e => e.number?.map Number.negated
  | _ => none

/-- Whether the form of an expression alone tells that its value is no truth value. -/
def isNeverTruth : Expr → Bool
  | text _ | char _ | unit | array _ => true
  | group e => e.isNeverTruth
  | e => e.number?.isSome

/-- The value of an expression that is a single value. -/
def literal? : Expr → Option Value
  | int n => some (.int n)
  | float x => some (.float x)
  | bool t => some (.bool t)
  | text s => some (.text s)
  | char c => some (.char c)
  | unit => some .unit
  | _ => none

/-- The number as an expression. -/
def ofNumber : Number → Expr
  | .int n => int n
  | .float x => float x

/-- The expression that is a single value. -/
def ofValue? : Value → Option Expr
  | .int n => some (int n)
  | .float x => some (float x)
  | .bool t => some (bool t)
  | .text s => some (text s)
  | .char c => some (char c)
  | .unit => some unit
  | _ => none

mutual

/-- **The expression with its literals read whole.**  Only a sign in the text belongs to a literal:
one before a number that is computed stays an operator. -/
def settled : Expr → Expr
  | property e name => property e.settled name
  | group e => group e.settled
  | unary op e => ((unary op e).number?.map ofNumber).getD (unary op e.settled)
  | binary op a b => binary op a.settled b.settled
  | logic op a b => logic op a.settled b.settled
  | call f es => call f (settledAll es)
  | array es => array (settledAll es)
  | e => e

/-- Some expressions with their literals read whole. -/
def settledAll : List Expr → List Expr
  | [] => []
  | e :: es => e.settled :: settledAll es

end

/-- The value of an operator on two single values, if it does not fail. -/
def computed? (op : BinaryOp) (a b : Expr) : Option Expr := do
  let v ← (Value.binary op (← a.literal?) (← b.literal?)).toOption
  ofValue? v

/-- An operator on two simplified operands. -/
def folded (op : BinaryOp) (a b : Expr) : Expr := (computed? op a b).getD (binary op a b)

/-- `&&` or `||` on two simplified operands.  An operand that decides nothing is dropped, and the
other one is not looked at any more. -/
def joined : LogicOp → Expr → Expr → Expr
  | .both, bool true, b => b
  | .both, bool false, _ => bool false
  | .both, a, bool true => a
  | .either, bool false, b => b
  | .either, bool true, _ => bool true
  | .either, a, bool false => a
  | op, a, b => logic op a b

mutual

/-- **The expression as it is evaluated**: what can be computed beforehand is. -/
def simplified : Expr → Expr
  | property e name => property e.simplified name
  | group e => e.simplified
  | unary op e => unary op e.simplified
  | binary op a b => folded op a.simplified b.simplified
  | logic op a b => joined op a.simplified b.simplified
  | call f es => call f (simplifiedAll es)
  | array es => array (simplifiedAll es)
  | e => e

/-- Some expressions as they are evaluated. -/
def simplifiedAll : List Expr → List Expr
  | [] => []
  | e :: es => e.simplified :: simplifiedAll es

end

end Expr

end SiteAnalysis.Expression
