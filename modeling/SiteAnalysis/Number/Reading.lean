import SiteAnalysis.Number.Binary64

/-! # Reading numbers

Texts that stand for integers and doubles.  The whole text has to be the number: no blanks
and no separators.
-/

namespace SiteAnalysis

/-- Value of a decimal digit. -/
def digitValue (c : Char) : Nat := c.toNat - '0'.toNat

/-- The natural number a list of decimal digits stands for. -/
def digitsValue (ds : List Char) : Nat :=
  ds.foldl (fun n d => 10 * n + digitValue d) 0

/-- A list of decimal digits, at least one. -/
def readNat? (cs : List Char) : Option Nat :=
  if cs.isEmpty || !cs.all Char.isDigit then none else some (digitsValue cs)

/-- Splits an optional sign from a text; the flag says whether it was `-`. -/
def readSign : List Char → Bool × List Char
  | '-' :: cs => (true, cs)
  | '+' :: cs => (false, cs)
  | cs => (false, cs)

/-- Least and greatest integer of 64 bits. -/
def minInt : Int := -9223372036854775808
@[inherit_doc minInt] def maxInt : Int := 9223372036854775807

/-- Whether an integer fits into 64 bits. -/
def fitsInt (n : Int) : Bool := minInt ≤ n && n ≤ maxInt

/-- **An integer of 64 bits**: an optional sign and digits. -/
def readInt? (s : String) : Option Int :=
  let (negative, cs) := readSign s.toList
  match readNat? cs with
  | none => none
  | some n =>
    let i : Int := if negative then -n else n
    if fitsInt i then some i else none

theorem fitsInt_of_readInt? {s : String} {n : Int} (h : readInt? s = some n) :
    fitsInt n = true := by
  simp only [readInt?] at h
  split at h
  · cases h
  · obtain ⟨hfits, hn⟩ := Option.ite_none_right_eq_some.1 h
    exact Option.some.inj hn ▸ hfits

/-- **An index**: an optional `+` and digits, below `2 ^ 64`. -/
def readIndex? (s : String) : Option Nat :=
  let digits := match s.toList with
    | '+' :: cs => cs
    | cs => cs
  match readNat? digits with
  | none => none
  | some n => if n < 0x10000000000000000 then some n else none

/-- The double nearest to `digits · 10 ^ exponent`.  Far outside the range of doubles the answer
is infinity or zero, whatever the size of the exponent. -/
def nearestDouble (digits : Nat) (exponent : Int) : Float :=
  if digits = 0 then 0.0
  else
    let magnitude := exponent + ((Nat.toDigits 10 digits).length : Int)
    if magnitude > 400 then 1.0 / 0.0
    else if magnitude < -400 then 0.0
    else if exponent < 0 then Float.ofScientific digits true exponent.natAbs
    else Float.ofScientific digits false exponent.natAbs

/-- A decimal exponent: an optional sign and digits. -/
def readExponent? (cs : List Char) : Option Int :=
  let (negative, ds) := readSign cs
  (readNat? ds).map fun n => if negative then -(n : Int) else n

/-- An unsigned decimal number: digits with an optional point among or around them, and an
optional exponent. -/
def readDecimal? (cs : List Char) : Option Float :=
  let whole := cs.takeWhile Char.isDigit
  let rest := cs.dropWhile Char.isDigit
  let (fraction, rest) := match rest with
    | '.' :: rest => (rest.takeWhile Char.isDigit, rest.dropWhile Char.isDigit)
    | rest => ([], rest)
  if whole.isEmpty && fraction.isEmpty then none
  else
    let exponent? := match rest with
      | [] => some 0
      | c :: rest => if c == 'e' || c == 'E' then readExponent? rest else none
    exponent?.map fun e => nearestDouble (digitsValue (whole ++ fraction)) (e - fraction.length)

/-- **A double**: an optional sign, and then a decimal number or, in any case, `inf`, `infinity`
or `nan`. -/
def readFloat? (s : String) : Option Float :=
  let (negative, cs) := readSign s.toList
  let word := cs.map Char.toLower
  let magnitude? :=
    if word == "inf".toList || word == "infinity".toList then some (1.0 / 0.0)
    else if word == "nan".toList then some (0.0 / 0.0)
    else readDecimal? cs
  magnitude?.map fun x => if negative then -x else x

end SiteAnalysis
