import SiteAnalysis.Expression.Operator
import SiteAnalysis.Expression.Token

/-! # Functions of expressions

A function is chosen by its name and by the kinds of its arguments, which are never converted.
-/

namespace SiteAnalysis.Expression.Function

open Value

/-- Functions of one double. -/
def ofFloat? (name : String) : Option (Float → Float) :=
  match name with
  | "abs" => some Float.abs
  | "sqrt" => some Float.sqrt
  | "exp" => some Float.exp
  | "ln" => some Float.log
  | "log" => some Float.log
  | "log10" => some Float.log10
  | "sin" => some Float.sin
  | "cos" => some Float.cos
  | "tan" => some Float.tan
  | "asin" => some Float.asin
  | "acos" => some Float.acos
  | "atan" => some Float.atan
  | "sinh" => some Float.sinh
  | "cosh" => some Float.cosh
  | "tanh" => some Float.tanh
  | "floor" => some Float.floor
  | "ceil" => some Float.ceil
  | "round" => some Float.round
  | "to_float" => some id
  | _ => none

/-- Functions of one integer that give a double. -/
def ofInt? (name : String) : Option (Float → Float) :=
  match name with
  | "sqrt" => some Float.sqrt
  | "exp" => some Float.exp
  | "to_float" => some id
  | _ => none

/-- The smaller of two doubles; what is no number is passed over. -/
def minFloat (x y : Float) : Float := if x ≤ y then x else if y ≤ y then y else x

/-- Functions of two doubles. -/
def ofFloats? (name : String) : Option (Float → Float → Float) :=
  match name with
  | "pow" => some Float.pow
  | "atan2" => some Float.atan2
  | "min" => some minFloat
  | "max" => some Arith.max
  | _ => none

/-- Functions of an integer and a double in either order.  What is no number is not passed over. -/
def ofMixed? (name : String) : Option (Float → Float → Float) :=
  match name with
  | "min" => some fun x y => if x ≤ y then x else y
  | "max" => some fun x y => if x ≥ y then x else y
  | _ => none

/-- A double without its fraction, if that fits an integer. -/
def toInt (x : Float) : Except Fault Value :=
  if x > Float.ofInt maxInt || x < Float.ofInt minInt then .error (.arithmetic .overflow)
  else .ok (int (Binary64.truncate x))

/-- The functions that exist, by name and kinds of the arguments. -/
def call? (name : String) : List Value → Option (Except Fault Value)
  | [] =>
    match name with
    | "pi" => some (.ok (float 3.141592653589793))
    | "e" => some (.ok (float 2.718281828459045))
    | _ => none
  | [float x] =>
    if name = "to_int" then some (toInt x) else (ofFloat? name).map fun f => .ok (float (f x))
  | [int n] =>
    if name = "abs" then some (checked n.natAbs)
    else if name = "to_int" then some (.ok (int n))
    else (ofInt? name).map fun f => .ok (float (f (Float.ofInt n)))
  | [text s] =>
    if name = "Fn" ∧ Token.isLegalName s.toList ∧ s.toList.all isWordChar then
      some (.ok (function s))
    else none
  | [float x, float y] => (ofFloats? name).map fun f => .ok (float (f x y))
  | [float x, int n] =>
    if name = "pow" then some (.ok (float (Arith.powInt x n)))
    else (ofMixed? name).map fun f => .ok (float (f x (Float.ofInt n)))
  | [int m, float y] => (ofMixed? name).map fun f => .ok (float (f (Float.ofInt m) y))
  | [int m, int n] =>
    match name with
    | "pow" => some (.ok (float (Arith.powInt (Float.ofInt m) n)))
    | "min" => some (.ok (int (min m n)))
    | "max" => some (.ok (int (max m n)))
    | _ => none
  | _ => none

/-- **Applies a function** to evaluated arguments. -/
def apply (name : String) (arguments : List Value) : Except Fault Value :=
  (call? name arguments).getD (.error (.noFunction name (arguments.map kind)))

end SiteAnalysis.Expression.Function
