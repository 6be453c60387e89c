import SiteAnalysis.Error
import SiteAnalysis.Expression.Engine
import SiteAnalysis.Json.Basic
import SiteAnalysis.Text.Blank
import SiteAnalysis.Text.Shown

/-! # Numbers given literally or by an expression

Where a keyword takes a number, the number may also be given by an expression, which is kept as
text and compiled when it is needed.
-/

namespace SiteAnalysis

/-- **A number or an expression for one.** -/
inductive Scalar where
  | int (value : Int)
  | float (value : Float)
  | expression (source : String)
  deriving Inhabited

namespace Scalar

/-- **Reads a scalar.**  Text that is neither an integer nor a float is an expression. -/
def read (text : String) : Scalar :=
  let text := trim text
  match readInt? text with
  | some n => int n
  | none =>
    match readFloat? text with
    | some x => float x
    | none => expression text

/-- An integer is what its text is read as first. -/
theorem read_eq_int_iff {text : String} {n : Int} :
    read text = int n ↔ readInt? (trim text) = some n := by
  simp only [read]
  split
  · next h => simp [h]
  · next h => split <;> simp [h]

theorem read_eq_float_iff {text : String} {x : Float} :
    read text = float x ↔ readInt? (trim text) = none ∧ readFloat? (trim text) = some x := by
  simp only [read]
  split
  · next h => simp [h]
  · next h => split <;> next hfloat => simp [h, hfloat]

theorem read_eq_expression_iff {text source : String} :
    read text = expression source ↔
      readInt? (trim text) = none ∧ readFloat? (trim text) = none ∧ trim text = source := by
  simp only [read]
  split
  · next h => simp [h]
  · next h => split <;> next hfloat => simp [h, hfloat]

/-- **The text of a scalar**, from which `read` gives it back. -/
def text : Scalar → String
  | int n => toString n
  | float x => Layout.precise.text x
  | expression source => source

/-- The scalar with the name of its form, for messages and inspection. -/
def shown : Scalar → String
  | int n => "Int(" ++ toString n ++ ")"
  | float x => "Double(" ++ Layout.precise.text x ++ ")"
  | expression source => "Expression(" ++ SiteAnalysis.shown source ++ ")"

def isExpression : Scalar → Bool
  | expression _ => true
  | _ => false

/-- **The value of a scalar**, its expression evaluated with the given variables. -/
def evaluate (l : Expression.Limits) (b : Expression.Bindings) :
    Scalar → Except Expression.Problem Float
  | int n => .ok (Float.ofInt n)
  | float x => .ok x
  | expression source => l.eval source b

/-- The integer that stands for a float: what is behind the point is dropped. -/
def truncate (x : Float) : Int := Binary64.truncate x

/-- **The value of a scalar as an integer.** -/
def evaluateInt (l : Expression.Limits) (b : Expression.Bindings) :
    Scalar → Except Expression.Problem Int
  | int n => .ok n
  | s => (s.evaluate l b).map truncate

/-- **Confirms that an expression compiles and names bound variables only.** -/
def check (l : Expression.Limits) (b : Expression.Bindings) :
    Scalar → Except Expression.Problem Unit
  | expression source => l.check source b
  | _ => .ok ()

/-- A float as a structured value, which has none for infinities and for what is no number. -/
def floatJson (x : Float) : Json := if x.isFinite then .float x else .null

/-- A scalar as a structured value. -/
def toJson : Scalar → Json
  | int n => .int n
  | float x => floatJson x
  | expression source => .text source

/-- **The scalar a structured value stands for.**  An integer beyond 64 bits is a float. -/
def ofJson? : Json → Option Scalar
  | .int n => some (if fitsInt n then int n else float (Float.ofInt n))
  | .float x => some (float x)
  | .text s => some (read s)
  | _ => none

end Scalar

end SiteAnalysis
