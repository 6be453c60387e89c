import SiteAnalysis.Json.Token
import SiteAnalysis.Number.Reading

/-! # Lexical rules of TOML

Texts, numbers, dates and keys.  Every scanner takes what stands at the front of a text and gives
it together with the rest.  Scanners that take one character after the other count their steps; the
length of the text is always enough.
-/

namespace SiteAnalysis.Toml

/-- Blanks inside a line. -/
def isBlankChar (c : Char) : Bool := c == ' ' || c == '\t'

/-- A text without the blanks at its front. -/
def skipBlanks (cs : List Char) : List Char := cs.dropWhile isBlankChar

/-- A line end at the front of a text. -/
def lineEnd? : List Char → Option (List Char)
  | '\n' :: rest => some rest
  | '\r' :: '\n' :: rest => some rest
  | _ => none

/-- Characters that stand for themselves in texts and comments. -/
def isPlain (c : Char) : Bool := c == '\t' || (32 ≤ c.toNat && c.toNat != 127)

/-- A text without blanks, line ends and comments at its front. -/
def skipLines : Nat → List Char → List Char
  | 0, cs => cs
  | n + 1, cs =>
    match skipBlanks cs with
    | '#' :: rest => skipLines n (rest.dropWhile isPlain)
    | cs => match lineEnd? cs with
      | some rest => skipLines n rest
      | none => cs

/-! ## Texts -/

/-- The character a number stands for. -/
def charOf? (n : Nat) : Option Char := if n.isValidChar then some (Char.ofNat n) else none

/-- An escape, behind its backslash. -/
def escape? : List Char → Option (Char × List Char)
  | 'u' :: rest => do
    let (n, rest) ← Json.hexQuad? rest
    return (← charOf? n, rest)
  | 'U' :: rest => do
    let (high, rest) ← Json.hexQuad? rest
    let (low, rest) ← Json.hexQuad? rest
    return (← charOf? (high * 65536 + low), rest)
  | 'b' :: rest => some (Char.ofNat 8, rest)
  | 't' :: rest => some ('\t', rest)
  | 'n' :: rest => some ('\n', rest)
  | 'f' :: rest => some (Char.ofNat 12, rest)
  | 'r' :: rest => some ('\r', rest)
  | '"' :: rest => some ('"', rest)
  | '\\' :: rest => some ('\\', rest)
  | _ => none

/-- The rest of a text in double quotes; `read` holds what was read, last first. -/
def basicRest : Nat → List Char → List Char → Option (String × List Char)
  | 0, _, _ => none
  | _ + 1, _, [] => none
  | n + 1, read, c :: cs =>
    if c == '"' then some (String.ofList read.reverse, cs)
    else if c == '\\' then
      match escape? cs with
      | some (d, rest) => basicRest n (d :: read) rest
      | none => none
    else if isPlain c then basicRest n (c :: read) cs
    else none

/-- The rest of a text in single quotes, which knows no escapes. -/
def literalRest (cs : List Char) : Option (String × List Char) :=
  let body := cs.takeWhile fun c => isPlain c && c != '\''
  match cs.drop body.length with
  | '\'' :: rest => some (String.ofList body, rest)
  | _ => none

/-- How many times a character stands at the front of a text, counted up to five. -/
def countFront (quote : Char) (cs : List Char) : Nat := ((cs.take 5).takeWhile (· == quote)).length

/-- A backslash at the end of a line hides the line end and all blanks behind it. -/
def hiddenLineEnd? (n : Nat) (cs : List Char) : Option (List Char) :=
  match lineEnd? (skipBlanks cs) with
  | none => none
  | some rest =>
    let rec skip : Nat → List Char → List Char
      | 0, cs => cs
      | n + 1, cs =>
        let cs := skipBlanks cs
        match lineEnd? cs with
        | some rest => skip n rest
        | none => cs
    some (skip n rest)

/-- The rest of a text in three quotes, which may run over lines.  Up to two quotes may stand right
before the closing ones. -/
def longRest (quote : Char) : Nat → List Char → List Char → Option (String × List Char)
  | 0, _, _ => none
  | _ + 1, _, [] => none
  | n + 1, read, c :: cs =>
    let quotes := countFront quote (c :: cs)
    if 3 ≤ quotes then
      some (String.ofList (List.replicate (quotes - 3) quote ++ read).reverse,
        (c :: cs).drop quotes)
    else if c == '\\' && quote == '"' then
      match hiddenLineEnd? n cs with
      | some rest => longRest quote n read rest
      | none =>
        match escape? cs with
        | some (d, rest) => longRest quote n (d :: read) rest
        | none => none
    else if isPlain c then longRest quote n (c :: read) cs
    else match lineEnd? (c :: cs) with
      | some rest => longRest quote n ('\n' :: read) rest
      | none => none

/-- A text without the line end at its front. -/
def dropLineEnd (cs : List Char) : List Char := (lineEnd? cs).getD cs

/-- **A text value**, from its opening quotes on. -/
def text? (n : Nat) : List Char → Option (String × List Char)
  | '"' :: '"' :: '"' :: rest => longRest '"' n [] (dropLineEnd rest)
  | '\'' :: '\'' :: '\'' :: rest => longRest '\'' n [] (dropLineEnd rest)
  | '"' :: rest => basicRest n [] rest
  | '\'' :: rest => literalRest rest
  | _ => none

/-! ## Keys -/

/-- Characters of a key without quotes. -/
def isKeyChar (c : Char) : Bool := c.isAlphanum || c == '_' || c == '-'

/-- One part of a key. -/
def keyPart? (n : Nat) : List Char → Option (String × List Char)
  | '"' :: rest => basicRest n [] rest
  | '\'' :: rest => literalRest rest
  | cs =>
    let word := cs.takeWhile isKeyChar
    if word.isEmpty then none else some (String.ofList word, cs.drop word.length)

/-- Parts of a key with points between them. -/
def keyParts? : Nat → List Char → Option (List String × List Char)
  | 0, _ => none
  | n + 1, cs => do
    let (part, rest) ← keyPart? n (skipBlanks cs)
    match skipBlanks rest with
    | '.' :: rest =>
      let (parts, rest) ← keyParts? n rest
      return (part :: parts, rest)
    | rest => return ([part], rest)

/-- Values are nested less deeply than this, and keys have fewer parts. -/
def maxDepth : Nat := 80

/-- **A key**, which may have several parts. -/
def key? (n : Nat) (cs : List Char) : Option (List String × List Char) := do
  let (parts, rest) ← keyParts? n cs
  if parts.length < maxDepth then some (parts, rest) else none

/-! ## Numbers and dates -/

/-- Digits with single underscores between them; the underscores are left out. -/
def digitRun? (isDigit : Char → Bool) (cs : List Char) : Option (List Char) :=
  let rec go : List Char → Bool → Option (List Char)
    | [], afterDigit => if afterDigit then some [] else none
    | c :: cs, afterDigit =>
      if c == '_' then (if afterDigit then go cs false else none)
      else if isDigit c then (go cs true).map (c :: ·)
      else none
  go cs false

/-- Digits without a needless zero in front. -/
def wholeDigits? (cs : List Char) : Option (List Char) := do
  let ds ← digitRun? Char.isDigit cs
  if ds.length > 1 && ds.head? == some '0' then none else some ds

/-- A number in base two, eight or sixteen. -/
def baseNumber? (base : Nat) (cs : List Char) : Option Int := do
  let ds ← digitRun? (fun c => (Json.hexValue? c).any (· < base)) cs
  let n : Int := ds.foldl (fun n c => n * base + (Json.hexValue? c).getD 0) (0 : Nat)
  if fitsInt n then some n else none

/-- An integer. -/
def integer? (cs : List Char) : Option Int :=
  match cs with
  | '0' :: 'x' :: rest => baseNumber? 16 rest
  | '0' :: 'o' :: rest => baseNumber? 8 rest
  | '0' :: 'b' :: rest => baseNumber? 2 rest
  | _ => do
    let (negative, ds) := readSign cs
    let n : Int := digitsValue (← wholeDigits? ds)
    let n := if negative then -n else n
    if fitsInt n then some n else none

/-- A float: a whole part with a fraction, an exponent or both.  Numbers too large are refused. -/
def float? (cs : List Char) : Option Float := do
  let (negative, cs) := readSign cs
  let signed := fun x : Float => if negative then -x else x
  if cs == "inf".toList then return signed (1.0 / 0.0)
  if cs == "nan".toList then return 0.0 / 0.0
  let isExponent := fun c : Char => c == 'e' || c == 'E'
  let mantissa := cs.takeWhile fun c => !isExponent c
  let exponent ← match cs.drop mantissa.length with
    | [] => some 0
    | _ :: rest =>
      let (minus, ds) := readSign rest
      (digitRun? Char.isDigit ds).map fun ds =>
        if minus then -(digitsValue ds : Int) else (digitsValue ds : Int)
  let whole := mantissa.takeWhile (· != '.')
  let wholeDigits ← wholeDigits? whole
  let fraction ← match mantissa.drop whole.length with
    | [] => if cs.length = mantissa.length then none else some []
    | _ :: rest => digitRun? Char.isDigit rest
  let x := nearestDouble (digitsValue (wholeDigits ++ fraction)) (exponent - fraction.length)
  if x.isInf && !negative then none else some (signed x)

/-- A number of exactly so many digits in a range. -/
def fixed? (count low high : Nat) (cs : List Char) : Option (Nat × List Char) := do
  let ds := cs.take count
  if ds.length ≠ count then none
  let n ← readNat? ds
  if low ≤ n ∧ n ≤ high then some (n, cs.drop count) else none

/-- The number of days of a month. -/
def daysOf (year month : Nat) : Nat :=
  if month = 2 then
    if year % 4 = 0 ∧ (year % 100 ≠ 0 ∨ year % 400 = 0) then 29 else 28
  else if [4, 6, 9, 11].contains month then 30 else 31

/-- A date at the front of a text. -/
def date? (cs : List Char) : Option (List Char) := do
  let (year, rest) ← fixed? 4 0 9999 cs
  let .cons '-' rest := rest | none
  let (month, rest) ← fixed? 2 1 12 rest
  let .cons '-' rest := rest | none
  let (_, rest) ← fixed? 2 1 (daysOf year month) rest
  return rest

/-- A time at the front of a text, in its shortest form. -/
def time? (cs : List Char) : Option (List Char × List Char) := do
  let (_, rest) ← fixed? 2 0 23 cs
  let .cons ':' rest := rest | none
  let (_, rest) ← fixed? 2 0 59 rest
  let .cons ':' rest := rest | none
  let (_, rest) ← fixed? 2 0 60 rest
  match rest with
  | '.' :: rest =>
    let ds := rest.takeWhile Char.isDigit
    if ds.isEmpty then none
    let kept := ((ds.take 9).reverse.dropWhile (· == '0')).reverse
    return (cs.take 8 ++ (if kept.isEmpty then [] else '.' :: kept), rest.drop ds.length)
  | rest => return (cs.take 8, rest)

/-- An offset from universal time, or nothing.  No offset at all has the sign `+`. -/
def offset? : List Char → Option (List Char)
  | [] => some []
  | ['Z'] | ['z'] => some ['Z']
  | sign :: rest => do
    if sign != '+' && sign != '-' then none
    let (hours, more) ← fixed? 2 0 23 rest
    let .cons ':' more := more | none
    let (minutes, more) ← fixed? 2 0 59 more
    if !more.isEmpty then none
    some ((if hours = 0 ∧ minutes = 0 then '+' else sign) :: rest)

/-- **A date, a time or both**, in its regular form. -/
def moment? (cs : List Char) : Option String :=
  match date? cs with
  | some [] => some (String.ofList cs)
  | some (separator :: rest) => do
    if !(separator == 'T' || separator == 't' || separator == ' ') then none
    let (time, rest) ← time? rest
    let offset ← offset? rest
    return String.ofList (cs.take 10 ++ ['T'] ++ time ++ offset)
  | none => do
    let (time, rest) ← time? cs
    if rest.isEmpty then some (String.ofList time) else none

/-- Characters of numbers, dates and words. -/
def isScalarChar (c : Char) : Bool :=
  c.isAlphanum || c == '_' || c == '+' || c == '-' || c == '.' || c == ':'

/-- A single value without quotes; a date is an object of one member. -/
def scalarOf? (cs : List Char) : Option Json :=
  if cs == "true".toList then some (.bool true)
  else if cs == "false".toList then some (.bool false)
  else match integer? cs with
    | some n => some (.int n)
    | none =>
      match float? cs with
      | some x => some (.float x)
      | none => (moment? cs).map fun s => .object [("$__toml_private_datetime", .text s)]

/-- **A single value without quotes.**  A date and a time may have one blank between them. -/
def scalar? (cs : List Char) : Option (Json × List Char) :=
  let word := cs.takeWhile isScalarChar
  let rest := cs.drop word.length
  let (word, rest) := match date? word, rest with
    | some [], ' ' :: more =>
      if (more.head?.any Char.isDigit) then
        let time := more.takeWhile isScalarChar
        (word ++ ' ' :: time, more.drop time.length)
      else (word, rest)
    | _, _ => (word, rest)
  (scalarOf? word).map fun j => (j, rest)

end SiteAnalysis.Toml
