import SiteAnalysis.Json.Basic
import SiteAnalysis.Json.Printer
import SiteAnalysis.Number.Layout
import SiteAnalysis.Number.Reading

/-! # Printing TOML

A table is written with its plain members first and then its tables and arrays of tables, each
under a header with its full path.
-/

namespace SiteAnalysis.Toml

/-- What decides how a text is quoted. -/
structure TextTraits where
  hasNewline : Bool
  hasBackslash : Bool
  /-- Control characters other than tabs and line feeds. -/
  hasControl : Bool
  /-- Longest runs of `'` and of `"`. -/
  singles : Nat
  doubles : Nat

/-- The longest run of a character; the numbers are the current and the longest run before. -/
def longestRun (c : Char) : List Char → Nat → Nat → Nat
  | [], current, longest => max current longest
  | d :: rest, current, longest =>
    if d = c then longestRun c rest (current + 1) longest
    else longestRun c rest 0 (max current longest)

/-- Whether a character has to be escaped wherever it stands. -/
def isControl (c : Char) : Bool := (c.toNat < 32 && c != '\t' && c != '\n') || c.toNat == 127

/-- The traits of a text. -/
def TextTraits.of (s : String) : TextTraits :=
  let cs := s.toList
  ⟨cs.contains '\n', cs.contains '\\', cs.any isControl, longestRun '\'' cs 0 0,
    longestRun '"' cs 0 0⟩

/-- A control character by its number. -/
def numberedEscape (c : Char) : String :=
  "\\u00" ++ String.ofList ([c.toNat / 16, c.toNat].map fun n => (Json.hexDigit n).toUpper)

/-- A text with escapes.  As many double quotes as `allowed` may follow each other, and over
several lines line feeds stand for themselves. -/
def escaped (long : Bool) (allowed : Nat) : List Char → Nat → String
  | [], _ => ""
  | c :: rest, quotes =>
    if c = '"' then
      if quotes < allowed then "\"" ++ escaped long allowed rest (quotes + 1)
      else "\\\"" ++ escaped long allowed rest 0
    else
      let piece :=
        if c = '\\' then "\\\\"
        else if c = '\t' then "\\t"
        else if c = '\n' then (if long then "\n" else "\\n")
        else if c = '\r' then "\\r"
        else if c.toNat = 8 then "\\b"
        else if c.toNat = 12 then "\\f"
        else if isControl c then numberedEscape c
        else c.toString
      piece ++ escaped long allowed rest 0

/-- Whether a text without escapes fits between single quotes, which know none. -/
def TextTraits.isVerbatim (t : TextTraits) : Bool :=
  !t.hasControl && !t.hasNewline && t.singles = 0

/-- Whether a text without escapes fits between double quotes. -/
def TextTraits.isBasic (t : TextTraits) : Bool :=
  !t.hasControl && !t.hasNewline && !t.hasBackslash && t.doubles = 0

/-- A text between one quote on each side: double ones, unless only single ones avoid escapes. -/
def shortText (t : TextTraits) (s : String) : String :=
  if t.isVerbatim && !t.isBasic then "'" ++ s ++ "'"
  else "\"" ++ escaped false 0 s.toList 0 ++ "\""

/-- A body between three quotes on each side.  A text of several lines starts on a line of its
own. -/
def longText (t : TextTraits) (quotes body : String) : String :=
  quotes ++ (if t.hasNewline then "\n" else "") ++ body ++ quotes

/-- **A text value.**  Of the forms that need no escapes the first is taken: one double quote, one
single quote, three double quotes, three single quotes. -/
def textValue (s : String) : String :=
  let t := TextTraits.of s
  let basic := longText t "\"\"\"" (escaped true 2 s.toList 0)
  if t.isBasic || t.isVerbatim then shortText t s
  else if !t.hasControl && !t.hasBackslash && t.doubles ≤ 2 then basic
  else if !t.hasControl && t.singles ≤ 2 then longText t "'''" s
  else if t.hasNewline then basic
  else shortText t s

/-- A key, which stands on one line. -/
def keyText (key : String) : String :=
  if key.isEmpty || !(key.toList.all fun c => c.isAlphanum || c == '_' || c == '-') then
    shortText (.of key) key
  else key

mutual

/-- **A value on the right of a key.**  An array of several items has a line for each of them. -/
def valueText : Json → String
  | .null => ""
  | .bool b => if b then "true" else "false"
  | .int n => toString n
  | .float x => Layout.toml.text x
  | .text s => textValue s
  | .array [] => "[]"
  | .array [j] => "[" ++ valueText j ++ "]"
  | .array items => "[" ++ itemsText items ++ "\n]"
  | .object [] => "\x7b\x7d"
  | .object ((k, j) :: rest) =>
    "\x7b " ++ keyText k ++ " = " ++ valueText j ++ membersText rest ++ " \x7d"

/-- The items of an array, a line for each. -/
def itemsText : List Json → String
  | [] => ""
  | j :: rest => "\n    " ++ valueText j ++ "," ++ itemsText rest

/-- Members behind the first one of a table in braces. -/
def membersText : List (String × Json) → String
  | [] => ""
  | (k, j) :: rest => ", " ++ keyText k ++ " = " ++ valueText j ++ membersText rest

end

/-- Whether a value is a table. -/
def isTable : Json → Bool
  | .object _ => true
  | _ => false

/-- Whether a member is written under headers of its own. -/
def hasHeader : Json → Bool
  | .object _ => true
  | .array (j :: rest) => isTable j && rest.all isTable
  | _ => false

/-- A path in a header. -/
def pathText (path : List String) : String := String.intercalate "." (path.map keyText)

/-- The members of a table that stand on lines of their own. -/
def plainLines (members : List (String × Json)) : List String :=
  (members.filter fun (_, j) => !hasHeader j).map fun (k, j) =>
    keyText k ++ " = " ++ valueText j ++ "\n"

mutual

/-- The blocks of lines for a value under a header; each block is a header with the plain members
below it. -/
def blocks (path : List String) : Json → List String
  | .object members =>
    let plain := plainLines members
    let head := if plain.isEmpty && !members.isEmpty then []
      else [String.join (("[" ++ pathText path ++ "]\n") :: plain)]
    head ++ memberBlocks path members
  | .array items => itemBlocks path items
  | _ => []

/-- The blocks of the tables of an array. -/
def itemBlocks (path : List String) : List Json → List String
  | [] => []
  | .object members :: rest =>
    String.join (("[[" ++ pathText path ++ "]]\n") :: plainLines members) ::
      memberBlocks path members ++ itemBlocks path rest
  | _ :: rest => itemBlocks path rest

/-- The blocks of the members that have headers. -/
def memberBlocks (path : List String) : List (String × Json) → List String
  | [] => []
  | (k, j) :: rest =>
    (if hasHeader j then blocks (path ++ [k]) j else []) ++ memberBlocks path rest

end

/-- **A document.**  Blocks are parted by empty lines. -/
def pretty (members : List (String × Json)) : String :=
  let plain := String.join (plainLines members)
  let parts := memberBlocks [] members
  String.intercalate "\n" (if plain.isEmpty then parts else plain :: parts)

mutual

/-- Whether TOML can hold a value: it has no null, and its integers have 64 bits with a sign. -/
def isExpressible : Json → Bool
  | .null => false
  | .int n => fitsInt n
  | .array items => areExpressible items
  | .object members => areMembersExpressible members
  | _ => true

/-- Whether TOML can hold all of some values. -/
def areExpressible : List Json → Bool
  | [] => true
  | j :: rest => isExpressible j && areExpressible rest

/-- Whether TOML can hold all of some members. -/
def areMembersExpressible : List (String × Json) → Bool
  | [] => true
  | (_, j) :: rest => isExpressible j && areMembersExpressible rest

end

end SiteAnalysis.Toml
