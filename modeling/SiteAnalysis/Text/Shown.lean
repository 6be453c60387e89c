import SiteAnalysis.Text.Printable

/-! # Texts shown in quotes

Messages show some texts between double quotes, and single characters between single quotes, with
the special characters escaped.
-/

namespace SiteAnalysis

/-- A hexadecimal number without leading zeros. -/
def hexText (n : Nat) : List Char := Nat.toDigits 16 n

/-- One character between two marks `quote`. -/
def shownChar (quote c : Char) : List Char :=
  if c == quote then ['\\', c]
  else if c == '\\' then ['\\', '\\']
  else if c == '\n' then ['\\', 'n']
  else if c == '\r' then ['\\', 'r']
  else if c == '\t' then ['\\', 't']
  else if c.toNat == 0 then ['\\', '0']
  else if c.toNat < 127 && 32 ≤ c.toNat then [c]
  else if Printable.isNumbered c then "\\u\x7b".toList ++ hexText c.toNat ++ ['\x7d']
  else [c]

/-- **A text in double quotes**, with its special characters escaped. -/
def shown (s : String) : String :=
  String.ofList ('"' :: s.toList.flatMap (shownChar '"') ++ ['"'])

/-- **A character in single quotes**, escaped if it is special. -/
def shownAlone (c : Char) : String := String.ofList ('\'' :: shownChar '\'' c ++ ['\''])

end SiteAnalysis
