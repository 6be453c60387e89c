import SiteAnalysis.Number.Layout
import SiteAnalysis.Text.Shown

/-! # Values of expressions

What expressions evaluate to, and how values read when they are joined to a text: `display` for
the value itself, `inside` for a value in an array or in a group of parameters.
-/

namespace SiteAnalysis.Expression

/-- **Numbers**: integers of 64 bits and doubles. -/
inductive Number where
  | int (value : Int)
  | float (value : Float)

/-- A number as a double. -/
def Number.toFloat : Number → Float
  | int n => Float.ofInt n
  | float x => x

/-- **Values.** -/
inductive Value where
  | int (value : Int)
  | float (value : Float)
  | bool (value : Bool)
  | text (value : String)
  | char (value : Char)
  | unit
  | array (items : List Value)
  /-- The parameters under one prefix. -/
  | group (members : List (String × Number))
  /-- The name of a function. -/
  | function (name : String)

namespace Value

/-- A number as a value. -/
def ofNumber : Number → Value
  | .int n => int n
  | .float x => float x

/-- A value as a number. -/
def number? : Value → Option Number
  | int n => some (.int n)
  | float x => some (.float x)
  | _ => none

/-- The name of a value's kind. -/
def kind : Value → String
  | int _ => "i64"
  | float _ => "f64"
  | bool _ => "bool"
  | text _ => "string"
  | char _ => "char"
  | unit => "()"
  | array _ => "array"
  | group _ => "map"
  | function _ => "Fn"

/-- Text of a double: without an exponent, unless its size is above `1e13` or below `1e-13` in
single precision.  Zero has no sign. -/
def floatText (x : Float) : String :=
  if x == 0.0 then "0.0"
  else if x.abs > 9999999827968.0 || x.abs < 9.9999998245167e-14 then Layout.scientific.text x
  else { Layout.plain with point := true }.text x

/-- Texts of members, separated by commas. -/
def listed (texts : List String) : String := String.intercalate ", " texts

/-- Text of a group of parameters, in the order of the names. -/
def groupText (members : List (String × Number)) : String :=
  let sorted := members.mergeSort fun a b => a.1 ≤ b.1
  let texts := sorted.map fun (name, n) => shown name ++ ": " ++ match n with
    | .int n => toString n
    | .float x => Layout.precise.text x
  "#\x7b" ++ listed texts ++ "\x7d"

mutual

/-- Text of a value inside another one: texts stand in quotes, and doubles read back. -/
def inside : Value → String
  | int n => toString n
  | float x => Layout.precise.text x
  | bool b => if b then "true" else "false"
  | text s => shown s
  | char c => shownAlone c
  | unit => "()"
  | array items => "[" ++ listed (insideAll items) ++ "]"
  | group members => groupText members
  | function name => "Fn(" ++ name ++ ")"

/-- Texts of the items of an array. -/
def insideAll : List Value → List String
  | [] => []
  | v :: vs => v.inside :: insideAll vs

end

/-- **Text of a value** that is joined to a text. -/
def display : Value → String
  | float x => floatText x
  | text s => s
  | char c => c.toString
  | unit => ""
  | v => v.inside

end Value

end SiteAnalysis.Expression
