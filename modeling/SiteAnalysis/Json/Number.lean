import SiteAnalysis.Json.Basic
import SiteAnalysis.Number.Reading

/-! # Numbers in structured texts

A number is an optional `-`, digits without a leading zero, an optional point with digits and an
optional exponent.  Whole numbers that fit into a word of 64 bits are integers.  All others are
floats and are computed in two roundings: the digits that fit into a word give a double, which
is then multiplied or divided by a power of ten.
-/

namespace SiteAnalysis.Json

/-- The largest natural number of 64 bits. -/
def maxWord : Nat := 0xFFFFFFFFFFFFFFFF

/-- The power of ten nearest to `10 ^ n`, for `n` up to 308. -/
def powerOfTen (n : Nat) : Float := Float.ofScientific 1 false n

/-- A double times a power of ten; none when the product is too large.  A small number is divided
in steps of `10 ^ 308`. -/
def scaled (x : Float) (exponent : Int) : Option Float :=
  if exponent.natAbs ≤ 308 then
    if 0 ≤ exponent then
      let y := x * powerOfTen exponent.natAbs
      if y.isInf then none else some y
    else some (x / powerOfTen exponent.natAbs)
  else if x == 0.0 then some x
  else if 0 ≤ exponent then none
  else scaled (x / powerOfTen 308) (exponent + 308)
  termination_by exponent.natAbs
  decreasing_by omega

/-- Digits taken up into a word as far as they fit: the word and how many digits are left. -/
def fillWord (word : Nat) : List Char → Nat × Nat
  | [] => (word, 0)
  | d :: rest =>
    let next := 10 * word + digitValue d
    if next ≤ maxWord then fillWord next rest else (word, rest.length + 1)

/-- **The parts of a number.**  `exponent` holds the sign and the digits behind `e`. -/
structure NumberText where
  negative : Bool
  whole : List Char
  fraction : Option (List Char)
  exponent : Option (Bool × List Char)

/-- Scans the parts of a number at the front of a text. -/
def NumberText.scan (cs : List Char) : NumberText × List Char :=
  let (negative, cs) := match cs with
    | '-' :: cs => (true, cs)
    | cs => (false, cs)
  let whole := cs.takeWhile Char.isDigit
  let cs := cs.dropWhile Char.isDigit
  let (fraction, cs) := match cs with
    | '.' :: cs => (some (cs.takeWhile Char.isDigit), cs.dropWhile Char.isDigit)
    | cs => (none, cs)
  let (exponent, cs) := match cs with
    | c :: rest =>
      if c == 'e' || c == 'E' then
        let (minus, ds) := readSign rest
        (some (minus, ds.takeWhile Char.isDigit), ds.dropWhile Char.isDigit)
      else (none, cs)
    | [] => (none, [])
  (⟨negative, whole, fraction, exponent⟩, cs)

namespace NumberText

/-- Whether the parts follow the grammar. -/
def isWellFormed (t : NumberText) : Bool :=
  !t.whole.isEmpty && (t.whole.length == 1 || t.whole.head? != some '0') &&
    t.fraction != some [] && (t.exponent.all fun (_, ds) => !ds.isEmpty)

/-- A whole number that fits into a word.  Negative numbers have to fit into a signed one, and a
negative zero is a float. -/
def integer? (t : NumberText) : Option Json :=
  if t.fraction.isSome || t.exponent.isSome then none
  else
    let n := digitsValue t.whole
    if t.negative then
      if n = 0 then some (.float (-0.0))
      else if n ≤ 0x8000000000000000 then some (.int (-n))
      else none
    else if n ≤ maxWord then some (.int n)
    else none

/-- The number as a float.  An exponent beyond 32 bits leaves only zero. -/
def float? (t : NumberText) : Option Float :=
  let fraction := t.fraction.getD []
  let (whole, dropped) := fillWord 0 t.whole
  let (word, left) := fillWord whole fraction
  let shift : Int := dropped - (fraction.length - left : Nat)
  let magnitude? := match t.exponent with
    | none => scaled (Float.ofNat word) shift
    | some (minus, ds) =>
      let e := digitsValue ds
      if e > 2147483647 then
        if word ≠ 0 ∧ !minus then none else some 0.0
      else scaled (Float.ofNat word) (shift + (if minus then -(e : Int) else e))
  magnitude?.map fun x => if t.negative then -x else x

/-- **The value of a number**; none when it is malformed or too large. -/
def value? (t : NumberText) : Option Json :=
  if t.isWellFormed then
    match t.integer? with
    | some j => some j
    | none => t.float?.map Json.float
  else none

end NumberText

end SiteAnalysis.Json
