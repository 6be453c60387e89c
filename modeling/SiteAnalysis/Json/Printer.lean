import SiteAnalysis.Json.Basic
import SiteAnalysis.Number.Layout

/-! # Printing structured values

Two forms: `compact` without any blanks and `pretty` with one item a line, indented by two blanks.
-/

namespace SiteAnalysis.Json

/-- A digit of base sixteen. -/
def hexDigit (n : Nat) : Char := (Nat.toDigits 16 (n % 16)).headD '0'

/-- A character inside a quoted text.  Only quotes, backslashes and control characters are
escaped. -/
def escapeChar (c : Char) : String :=
  if c = '"' then "\\\""
  else if c = '\\' then "\\\\"
  else if c = '\n' then "\\n"
  else if c = '\r' then "\\r"
  else if c = '\t' then "\\t"
  else if c.toNat = 8 then "\\b"
  else if c.toNat = 12 then "\\f"
  else if c.toNat < 32 then
    "\\u00" ++ String.ofList [hexDigit (c.toNat / 16), hexDigit c.toNat]
  else c.toString

/-- A quoted text. -/
def quoted (s : String) : String :=
  "\"" ++ String.join (s.toList.map escapeChar) ++ "\""

/-- A value that holds no other values; empty arrays and objects count as such. -/
def scalarText : Json → String
  | null => "null"
  | bool true => "true"
  | bool false => "false"
  | int n => toString n
  | float x => if x.isFinite then Layout.json.text x else "null"
  | text s => quoted s
  | array _ => "[]"
  | object _ => "\x7b\x7d"

mutual

/-- **Text without blanks.** -/
def compact : Json → String
  | array (j :: rest) => "[" ++ j.compact ++ compactItems rest ++ "]"
  | object ((k, j) :: rest) =>
    "\x7b" ++ quoted k ++ ":" ++ j.compact ++ compactMembers rest ++ "\x7d"
  | j => j.scalarText

/-- Items behind the first one. -/
def compactItems : List Json → String
  | [] => ""
  | j :: rest => "," ++ j.compact ++ compactItems rest

/-- Members behind the first one. -/
def compactMembers : List (String × Json) → String
  | [] => ""
  | (k, j) :: rest => "," ++ quoted k ++ ":" ++ j.compact ++ compactMembers rest

end

/-- A new line at a level of indentation. -/
def newLine (level : Nat) : String := "\n" ++ String.ofList (List.replicate (2 * level) ' ')

mutual

/-- Text with one item a line, for a value that stands at the given level. -/
def prettyAt (level : Nat) : Json → String
  | array (j :: rest) =>
    "[" ++ newLine (level + 1) ++ j.prettyAt (level + 1) ++ prettyItems level rest ++
      newLine level ++ "]"
  | object ((k, j) :: rest) =>
    "\x7b" ++ newLine (level + 1) ++ quoted k ++ ": " ++ j.prettyAt (level + 1) ++
      prettyMembers level rest ++ newLine level ++ "\x7d"
  | j => j.scalarText

/-- Items behind the first one. -/
def prettyItems (level : Nat) : List Json → String
  | [] => ""
  | j :: rest => "," ++ newLine (level + 1) ++ j.prettyAt (level + 1) ++ prettyItems level rest

/-- Members behind the first one. -/
def prettyMembers (level : Nat) : List (String × Json) → String
  | [] => ""
  | (k, j) :: rest =>
    "," ++ newLine (level + 1) ++ quoted k ++ ": " ++ j.prettyAt (level + 1) ++
      prettyMembers level rest

end

/-- **Text with one item a line.** -/
def pretty (j : Json) : String := j.prettyAt 0

end SiteAnalysis.Json
