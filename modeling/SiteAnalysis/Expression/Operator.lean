import SiteAnalysis.Expression.Fault
import SiteAnalysis.Expression.Syntax
import SiteAnalysis.Expression.Value
import SiteAnalysis.Number.Arith
import SiteAnalysis.Number.Reading

/-! # Operators on values

Integers have 64 bits and fail instead of wrapping; as soon as one operand is a float, both are
taken as floats.  Floats are compared up to the last bit of the larger one.
-/

namespace SiteAnalysis.Expression

namespace Value

/-- An integer result, if it fits. -/
def checked (n : Int) : Except Fault Value :=
  if fitsInt n then .ok (int n) else .error (.arithmetic .overflow)

/-! ## Comparison of floats

Two floats count as equal when they differ by at most `tolerance` relative to the larger one in
size; if their product is zero, the difference itself is taken.  Nothing compares to a value that
is no number, and infinity does not even equal itself. -/

/-- The distance between one and the next double. -/
def tolerance : Float := 2.220446049250313e-16

/-- How far `x` lies above `y`, relative to the larger one in size. -/
def excess (x y : Float) : Float :=
  (x - y) / (if x * y == 0.0 then 1.0 else Arith.max x.abs y.abs)

/-- Equality of floats, up to the tolerance. -/
def sameFloat (x y : Float) : Bool := (excess x y).abs ≤ tolerance

/-- Equality of numbers.  Two integers are equal exactly. -/
def sameNumber : Number → Number → Bool
  | .int m, .int n => m == n
  | m, n => sameFloat m.toFloat n.toFloat

/-- Whether two groups have the same names with equal numbers. -/
def sameGroup (xs ys : List (String × Number)) : Bool :=
  xs.length == ys.length &&
    xs.all fun (name, m) => ((ys.lookup name).map (sameNumber m)).getD false

mutual

/-- Equality of values; values of different kinds differ, except numbers. -/
def same : Value → Value → Bool
  | int a, int b => a == b
  | int a, float y => sameFloat (Float.ofInt a) y
  | float x, int b => sameFloat x (Float.ofInt b)
  | float x, float y => sameFloat x y
  | bool a, bool b => a == b
  | text s, text t => s == t
  | char c, char d => c == d
  | text s, char d => s == d.toString
  | char c, text t => c.toString == t
  | unit, unit => true
  | array xs, array ys => sameAll xs ys
  | group xs, group ys => sameGroup xs ys
  | _, _ => false

/-- Equality of lists of values. -/
def sameAll : List Value → List Value → Bool
  | [], [] => true
  | x :: xs, y :: ys => same x y && sameAll xs ys
  | _, _ => false

end

/-- Power of integers.  An exponent takes at most 32 bits; a base beyond one in size overflows with
any exponent above 63. -/
def powerInt (a b : Int) : Except Fault Value :=
  if b < 0 then .error (.arithmetic .negativePower)
  else if b ≥ 0x100000000 then .error (.arithmetic .overflow)
  else if a = 0 ∨ a = 1 then .ok (int (if b = 0 then 1 else a))
  else if a = -1 then .ok (int (if b % 2 = 0 then 1 else -1))
  else if b > 63 then .error (.arithmetic .overflow)
  else checked (Int.pow a b.toNat)

/-- Operators on two integers. -/
def binaryInt (op : BinaryOp) (a b : Int) : Except Fault Value :=
  match op with
  | .add => checked (a + b)
  | .subtract => checked (a - b)
  | .multiply => checked (a * b)
  | .divide => if b = 0 then .error (.arithmetic .divisionByZero) else checked (a.tdiv b)
  | .modulo =>
    if b = 0 then .error (.arithmetic .divisionByZero)
    else if a = minInt ∧ b = -1 then .error (.arithmetic .overflow)
    else checked (a.tmod b)
  | .power => powerInt a b
  | .less => .ok (bool (a < b))
  | .lessEqual => .ok (bool (a ≤ b))
  | .greater => .ok (bool (a > b))
  | .greaterEqual => .ok (bool (a ≥ b))
  | .equal => .ok (bool (a == b))
  | .notEqual => .ok (bool (a != b))

/-- Operators on two doubles. -/
def binaryFloat (op : BinaryOp) (x y : Float) : Value :=
  match op with
  | .add => float (x + y)
  | .subtract => float (x - y)
  | .multiply => float (x * y)
  | .divide => float (x / y)
  | .modulo => float (Binary64.remainder x y)
  | .power => float (x.pow y)
  | .less => bool (excess y x > tolerance)
  | .lessEqual => bool (excess y x > -tolerance)
  | .greater => bool (excess x y > tolerance)
  | .greaterEqual => bool (excess x y > -tolerance)
  | .equal => bool (sameFloat x y)
  | .notEqual => bool ((excess x y).abs > tolerance)

/-- How an operator is written. -/
def opText : BinaryOp → String
  | .add => "+" | .subtract => "-" | .multiply => "*" | .divide => "/" | .modulo => "%"
  | .power => "**" | .less => "<" | .lessEqual => "<=" | .greater => ">" | .greaterEqual => ">="
  | .equal => "==" | .notEqual => "!="

/-- The order of two values, where their kinds have one. -/
def order? : Value → Value → Option Ordering
  | bool a, bool b => some (compare a b)
  | text s, text t => some (compare s t)
  | char c, char d => some (compare c d)
  | text s, char d => some (compare s d.toString)
  | char c, text t => some (compare c.toString t)
  | _, _ => none

/-- The orders for which an operator holds; none if it does not ask for an order. -/
def orderTest? : BinaryOp → Option (Ordering → Bool)
  | .less => some Ordering.isLT
  | .lessEqual => some Ordering.isLE
  | .greater => some Ordering.isGT
  | .greaterEqual => some Ordering.isGE
  | _ => none

/-- A text without the places where another one stands in it.  Taken from the empty text, a text
stays as it is. -/
def without (s t : String) : String :=
  if t.isEmpty then s else if s.isEmpty then t else s.replace t ""

/-- Two groups as one; the second one has the last word on a name. -/
def merged (xs ys : List (String × Number)) : List (String × Number) :=
  xs.filter (fun x => (ys.lookup x.1).isNone) ++ ys

/-- Operators on values that are not both numbers.  A text takes up anything that is added to it;
values of different kinds compare as different and unordered, and so does the unit value. -/
def binaryOther (op : BinaryOp) (a b : Value) : Except Fault Value :=
  match op, a, b with
  | .add, text s, v => .ok (text (s ++ v.display))
  | .add, v, text s => .ok (text (v.display ++ s))
  | .add, char c, char d => .ok (text (c.toString ++ d.toString))
  | .add, array xs, array ys => .ok (array (xs ++ ys))
  | .add, group xs, group ys => .ok (group (merged xs ys))
  | .subtract, text s, text t => .ok (text (without s t))
  | .subtract, text s, char c => .ok (text (s.replace c.toString ""))
  | .equal, a, b => .ok (bool (same a b))
  | .notEqual, a, b => .ok (bool (!same a b))
  | op, a, b =>
    match orderTest? op, order? a b with
    | some test, some order => .ok (bool (test order))
    | some _, none =>
      if a.kind = b.kind ∧ a.kind ≠ unit.kind then
        .error (.noFunction (opText op) [a.kind, b.kind])
      else .ok (bool false)
    | none, _ => .error (.noFunction (opText op) [a.kind, b.kind])

/-- **Operators on two values.** -/
def binary (op : BinaryOp) (a b : Value) : Except Fault Value :=
  match a.number?, b.number? with
  | some (.int m), some (.int n) => binaryInt op m n
  | some m, some n => .ok (binaryFloat op m.toFloat n.toFloat)
  | _, _ => binaryOther op a b

/-- **Operators on one value.** -/
def unary (op : UnaryOp) (a : Value) : Except Fault Value :=
  match op, a with
  | .plus, int n => .ok (int n)
  | .plus, float x => .ok (float x)
  | .minus, int n => checked (-n)
  | .minus, float x => .ok (float (-x))
  | .negation, bool b => .ok (bool !b)
  | op, a =>
    .error (.noFunction (match op with | .plus => "+" | .minus => "-" | .negation => "!") [a.kind])

end Value

end SiteAnalysis.Expression
