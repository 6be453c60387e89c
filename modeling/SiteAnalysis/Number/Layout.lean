import SiteAnalysis.Number.Shortest

/-! # Number formats

How the digits of a double are laid out.  A `Layout` holds the decisions of one format; the
formats of this library are the values `precise`, `plain`, `json`, `toml` and `scientific`.
-/

namespace SiteAnalysis

/-- **Decisions of a number format.** -/
structure Layout where
  /-- A number `d.ddd · 10 ^ k` is written without an exponent when `k` lies in this range. -/
  positional : Int → Bool
  /-- Whether a whole number written without an exponent ends in `.0`. -/
  point : Bool
  /-- Whether a positive exponent carries a `+`. -/
  plus : Bool
  /-- Text of positive infinity. -/
  infinity : String
  /-- Text of a value that is no number. -/
  nan : String
  /-- Which of two equally near shortest numbers is written. -/
  tie : Decimal.Tie

namespace Layout

/-- The format that always reads back: positional from `1e-4` up to `1e16`, `.0` kept. -/
def precise : Layout := ⟨fun k => -4 ≤ k && k < 16, true, false, "inf", "NaN", .up⟩

/-- The format of messages: never an exponent, whole numbers without a point. -/
def plain : Layout := ⟨fun _ => true, false, false, "inf", "NaN", .up⟩

/-- Numbers of JSON documents.  JSON has no text for the last two, and they become `null`. -/
def json : Layout := ⟨fun k => -5 ≤ k && k < 16, true, true, "null", "null", .even⟩

/-- Numbers of TOML documents: never an exponent. -/
def toml : Layout := ⟨fun _ => true, true, false, "inf", "nan", .up⟩

/-- One digit before the point and always an exponent. -/
def scientific : Layout := ⟨fun _ => false, false, false, "inf", "NaN", .up⟩

/-- Digits `ds` with the first one in the place `10 ^ k`, without an exponent. -/
def positionalText (l : Layout) (ds : List Char) (k : Int) : List Char :=
  if k < 0 then
    '0' :: '.' :: List.replicate (-k - 1).toNat '0' ++ ds
  else
    let whole := k.toNat + 1
    if ds.length ≤ whole then
      ds ++ List.replicate (whole - ds.length) '0' ++ (if l.point then ['.', '0'] else [])
    else
      ds.take whole ++ '.' :: ds.drop whole

/-- An exponent with its sign. -/
def exponentText (l : Layout) (k : Int) : List Char :=
  let sign := if k < 0 then ['-'] else if l.plus then ['+'] else []
  'e' :: sign ++ Nat.toDigits 10 k.natAbs

/-- Digits `ds` with a point after the first one, and the exponent `k`. -/
def exponentialText (l : Layout) (ds : List Char) (k : Int) : List Char :=
  (match ds with
    | [] => []
    | [d] => [d]
    | d :: rest => d :: '.' :: rest) ++ l.exponentText k

/-- Digits without the zeros at their end; at least one digit stays. -/
def trimZeros (ds : List Char) : List Char :=
  match (ds.reverse.dropWhile (· == '0')).reverse with
  | [] => ['0']
  | trimmed => trimmed

/-- Text of a decimal number in the given format, without a sign. -/
def decimalText (l : Layout) (d : Decimal) : List Char :=
  let ds := Nat.toDigits 10 d.digits
  let k := if d.digits = 0 then 0 else d.exponent + (ds.length : Int) - 1
  let ds := trimZeros ds
  if l.positional k then l.positionalText ds k else l.exponentialText ds k

/-- **Text of a double**: shortest digits, laid out as the format says. -/
def text (l : Layout) (x : Float) : String :=
  match Binary64.ofFloat x with
  | .nan => l.nan
  | .infinite s => if s then "-" ++ l.infinity else l.infinity
  | .finite s m q =>
    let body := l.decimalText (if m = 0 then ⟨0, 0⟩ else Decimal.shortest l.tie m q)
    String.ofList (if s then '-' :: body else body)

end Layout

/-- Text aligned to the right in a field of `width` characters. -/
def alignRight (width : Nat) (s : String) : String :=
  String.ofList (List.replicate (width - s.length) ' ') ++ s

/-- **Column of a data file**: one digit, a point, eight digits and the exponent, aligned to the
right in sixteen characters. -/
def columnText (x : Float) : String :=
  alignRight 16 <|
    match Binary64.ofFloat x with
    | .nan => "NaN"
    | .infinite s => if s then "-inf" else "inf"
    | .finite s m q =>
      let d : Decimal := if m = 0 then ⟨0, 0⟩ else Decimal.rounded m q 8
      let ds := Nat.toDigits 10 d.digits
      let k := if m = 0 then 0 else d.exponent + (ds.length : Int) - 1
      let ds := (ds ++ List.replicate 8 '0').take 9
      String.ofList ((if s then ['-'] else []) ++ Layout.scientific.exponentialText ds k)

end SiteAnalysis
