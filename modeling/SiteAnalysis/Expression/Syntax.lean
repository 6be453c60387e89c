/-! # Expressions

The expressions that keyword values and fit equations are written in: numbers, variables,
properties of parameter groups, operators and function calls.
-/

namespace SiteAnalysis.Expression

/-- Operators on one value. -/
inductive UnaryOp where
  | plus | minus | negation
  deriving DecidableEq, Repr

/-- Operators on two values, both of which are always evaluated. -/
inductive BinaryOp where
  | add | subtract | multiply | divide | modulo | power
  | less | lessEqual | greater | greaterEqual | equal | notEqual
  deriving DecidableEq, Repr

/-- Operators whose second operand is evaluated only when the first does not decide. -/
inductive LogicOp where
  | both | either
  deriving DecidableEq, Repr

/-- **Expressions.** -/
inductive Expr where
  | int (value : Int)
  | float (value : Float)
  | bool (value : Bool)
  | text (value : String)
  | char (value : Char)
  | unit
  | var (name : String)
  | property (target : Expr) (name : String)
  | group (inner : Expr)
  | unary (op : UnaryOp) (operand : Expr)
  | binary (op : BinaryOp) (left right : Expr)
  | logic (op : LogicOp) (left right : Expr)
  | call (function : String) (arguments : List Expr)
  | array (items : List Expr)

namespace Expr

mutual

/-- **Nesting depth.**  A leaf has depth one; a chain of operators adds one for each of them. -/
def depth : Expr → Nat
  | int _ | float _ | bool _ | text _ | char _ | unit | var _ => 1
  | property e _ | group e | unary _ e => e.depth + 1
  | binary _ a b | logic _ a b => max a.depth b.depth + 1
  | call _ es | array es => depthOfAll es + 1

/-- Depth of the deepest of some expressions. -/
def depthOfAll : List Expr → Nat
  | [] => 0
  | e :: es => max e.depth (depthOfAll es)

end

mutual

/-- **Number of steps** an evaluation takes, one for each part of the expression; parentheses take
none. -/
def steps : Expr → Nat
  | int _ | float _ | bool _ | text _ | char _ | unit | var _ => 1
  | group e => e.steps
  | property e _ | unary _ e => e.steps + 1
  | binary _ a b | logic _ a b => a.steps + b.steps + 1
  | call _ es | array es => stepsOfAll es + 1

/-- Steps of some expressions together. -/
def stepsOfAll : List Expr → Nat
  | [] => 0
  | e :: es => e.steps + stepsOfAll es

end

mutual

/-- **The variables** an expression names, in the order of the text.  Properties and functions are
not among them. -/
def names : Expr → List String
  | int _ | float _ | bool _ | text _ | char _ | unit => []
  | var name => [name]
  | property e _ | group e | unary _ e => e.names
  | binary _ a b | logic _ a b => a.names ++ b.names
  | call _ es | array es => namesOfAll es

/-- The variables of some expressions. -/
def namesOfAll : List Expr → List String
  | [] => []
  | e :: es => e.names ++ namesOfAll es

end

end Expr

end SiteAnalysis.Expression
