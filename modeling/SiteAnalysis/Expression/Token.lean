import SiteAnalysis.Number.Reading
import SiteAnalysis.Text.Argument

/-! # Tokens of expressions

Splits the text of an expression into tokens.  The text up to a place where no token can be
read gives tokens as usual, and `invalid` stands for that place; what follows it is not looked
at.

A `-` that touches the digit behind it belongs to the number, unless it stands behind something
that it can be subtracted from.
-/

namespace SiteAnalysis.Expression

/-- Symbols with a meaning in expressions. -/
inductive Symbol where
  | plus | minus | times | divide | modulo | power
  | less | lessEqual | greater | greaterEqual | equal | notEqual
  | both | either | negation
  | leftParen | rightParen | leftBracket | rightBracket | comma | dot
  deriving DecidableEq, Repr

/-- **Tokens.** -/
inductive Token where
  | int (value : Int)
  | float (value : Float)
  | text (value : String)
  | char (value : Char)
  | name (name : String)
  | symbol (symbol : Symbol)
  /-- A place where no token can be read. -/
  | invalid

namespace Token

/-- Words that cannot be names. -/
def reserved : List String :=
  ["true", "false", "let", "const", "if", "else", "switch", "do", "while", "until", "loop", "for",
    "in", "continue", "break", "return", "throw", "try", "catch", "import", "export", "as", "fn",
    "private", "this", "public", "protected", "super", "new", "use", "module", "package", "var",
    "static", "shared", "with", "is", "goto", "match", "case", "default", "void", "null", "nil",
    "spawn", "thread", "go", "sync", "async", "await", "yield", "print", "debug", "type_of",
    "eval", "Fn", "call", "curry", "is_def_var", "is_def_fn", "is_shared"]

/-- Reserved words that may still be called like functions. -/
def callable : List String :=
  ["print", "debug", "type_of", "eval", "Fn", "call", "curry", "is_def_var", "is_def_fn",
    "is_shared"]

/-- Whether a word of identifier characters is a legal name: a letter comes before any digit. -/
def isLegalName (word : List Char) : Bool :=
  ((word.dropWhile (· == '_')).head?.map Char.isAlpha).getD false

/-- Values of the digits of a number system; none if a character is no digit of it. -/
def digitIn? (base : Nat) (c : Char) : Option Nat :=
  let value :=
    if c.isDigit then c.toNat - '0'.toNat
    else if 'a' ≤ c && c ≤ 'f' then c.toNat - 'a'.toNat + 10
    else if 'A' ≤ c && c ≤ 'F' then c.toNat - 'A'.toNat + 10
    else base
  if value < base then some value else none

/-- The token of a number in base 2, 8 or 16.  It is read as a word of 64 bits. -/
def ofRadix (base : Nat) (digits : List Char) : Token :=
  match digits.mapM (digitIn? base) with
  | none | some [] => invalid
  | some values =>
    let n := values.foldl (fun n d => base * n + d) 0
    if n < 0x8000000000000000 then int n
    else if n < 0x10000000000000000 then int ((n : Int) - 0x10000000000000000)
    else invalid

/-- The token of a decimal number with its sign, without separators.  An integer that needs more
than 64 bits is read as a float. -/
def ofDecimal (number : String) : Token :=
  match readInt? number with
  | some n => int n
  | none =>
    match readFloat? number with
    | some x => float x
    | none => invalid

/-- Whether the text behind a point makes the point part of the number before it: a digit, or
anything that cannot start the name of a property.  At the end of the text it does not. -/
def pointBelongsToNumber : List Char → Bool
  | [] => false
  | c :: _ => c.isDigit || !(c.isAlpha || c == '_' || c == '.')

/-- Whether a character announces an exponent. -/
def isExponentMark (c : Char) : Bool := c == 'e' || c == 'E'

/-- Whether the text behind an `e` makes the `e` part of the number before it. -/
def exponentBelongsToNumber : List Char → Bool
  | [] => false
  | c :: _ => c.isDigit || c == '+' || c == '-'

/-- Splits a decimal number from the front of a text, without its separators. -/
def spanDecimal : List Char → List Char × List Char
  | [] => ([], [])
  | c :: cs =>
    if c.isDigit then
      let (digits, rest) := spanDecimal cs
      (c :: digits, rest)
    else if c == '_' then spanDecimal cs
    else if c == '.' && pointBelongsToNumber cs then
      let (digits, rest) := spanDecimal cs
      ('.' :: digits, rest)
    else if isExponentMark c && exponentBelongsToNumber cs then
      match cs with
      | [] => ([], [])
      | d :: cs =>
        let (digits, rest) := spanDecimal cs
        ('e' :: d :: digits, rest)
    else ([], c :: cs)

theorem spanDecimal_length (cs : List Char) : (spanDecimal cs).2.length ≤ cs.length := by
  fun_induction spanDecimal cs <;> simp_all <;> omega

/-- The base that an `x`, `o` or `b` behind a leading zero chooses. -/
def radixOf? (c : Char) : Option Nat :=
  if c == 'x' || c == 'X' then some 16
  else if c == 'o' || c == 'O' then some 8
  else if c == 'b' || c == 'B' then some 2
  else none

/-- The base that the text behind a leading zero chooses, and the text of the digits.  Separators
may stand behind the zero. -/
def radixPart? (cs : List Char) : Option (Nat × List Char) :=
  match cs.dropWhile (· == '_') with
  | [] => none
  | c :: rest => (radixOf? c).map fun base => (base, rest)

theorem radixPart?_length {cs rest : List Char} {base : Nat}
    (h : radixPart? cs = some (base, rest)) : rest.length ≤ cs.length := by
  unfold radixPart? at h
  split at h
  · simp at h
  · rename_i c tail hd
    obtain ⟨_, _, he⟩ := Option.map_eq_some_iff.1 h
    have hs : (cs.dropWhile (· == '_')).length ≤ cs.length :=
      (List.dropWhile_suffix _).length_le
    rw [hd, List.length_cons] at hs
    simp only [Prod.mk.injEq] at he
    rw [← he.2]
    omega

/-- Reads a number whose first digit is `first`; `sign` is what stands before it.  Only decimal
numbers take a sign. -/
def readNumber (sign : List Char) (first : Char) (cs : List Char) : Token × List Char :=
  match if first == '0' then radixPart? cs else none with
  | none =>
    (ofDecimal (String.ofList (sign ++ first :: (spanDecimal cs).1)), (spanDecimal cs).2)
  | some (base, rest) =>
    let isPart := fun d => (digitIn? base d).isSome || d == '_'
    let digits := (rest.takeWhile isPart).filter (· != '_')
    (if sign.isEmpty then ofRadix base digits else invalid, rest.dropWhile isPart)

theorem readNumber_length (sign : List Char) (first : Char) (cs : List Char) :
    (readNumber sign first cs).2.length ≤ cs.length := by
  unfold readNumber
  split
  · exact spanDecimal_length _
  · rename_i base rest h
    have hr : rest.length ≤ cs.length := by
      split at h
      · exact radixPart?_length h
      · simp at h
    exact Nat.le_trans (List.dropWhile_suffix _).length_le hr

/-- The character that a backslash and `c` stand for. -/
def escape? (c : Char) : Option Char :=
  if c == 't' then some '\t'
  else if c == 'n' then some '\n'
  else if c == 'r' then some '\r'
  else if c == '\\' || c == '"' || c == '\'' then some c
  else none

/-- Number of hexadecimal digits behind a backslash and `c`. -/
def escapeDigits? (c : Char) : Option Nat :=
  if c == 'x' then some 2 else if c == 'u' then some 4 else if c == 'U' then some 8 else none

/-- The character whose number has the given hexadecimal digits. -/
def ofHexDigits? (digits : List Char) : Option Char :=
  (digits.mapM (digitIn? 16)).bind fun values =>
    let n := values.foldl (fun n d => 16 * n + d) 0
    if h : n.isValidChar then some (Char.ofNatAux n h) else none

/-- Reads a text up to its closing quote, which written twice stands for itself. -/
def spanText (close : Char) : List Char → Option (List Char × List Char)
  | [] => none
  | c :: cs =>
    if c == close then
      match cs with
      | d :: rest =>
        if d == close then (spanText close rest).map fun (body, tail) => (close :: body, tail)
        else some ([], cs)
      | [] => some ([], [])
    else if c == '\n' then none
    else if c == '\\' then
      match cs with
      | [] => none
      | d :: rest =>
        match escape? d, escapeDigits? d with
        | some e, _ => (spanText close rest).map fun (body, tail) => (e :: body, tail)
        | none, none => none
        | none, some n =>
          match ofHexDigits? (rest.take n) with
          | none => none
          | some e =>
            if (rest.take n).length == n then
              (spanText close (rest.drop n)).map fun (body, tail) => (e :: body, tail)
            else none
    else (spanText close cs).map fun (body, tail) => (c :: body, tail)
  termination_by cs => cs.length
  decreasing_by all_goals simp_all; try omega

theorem spanText_length {close : Char} {cs body rest : List Char}
    (h : spanText close cs = some (body, rest)) : rest.length ≤ cs.length := by
  fun_induction spanText close cs generalizing body rest <;>
    simp_all [Option.map_eq_some_iff] <;> grind

/-- Skips a comment between `/*` and `*/`; such comments nest.  At the end of the text the comment
ends as well. -/
def skipComment : Nat → List Char → List Char
  | 0, cs => cs
  | _ + 1, [] => []
  | depth + 1, '/' :: '*' :: cs => skipComment (depth + 2) cs
  | depth + 1, '*' :: '/' :: cs => skipComment depth cs
  | depth + 1, _ :: cs => skipComment (depth + 1) cs
  termination_by _ cs => cs.length

theorem skipComment_length (depth : Nat) (cs : List Char) :
    (skipComment depth cs).length ≤ cs.length := by
  fun_induction skipComment depth cs <;> simp_all <;> omega

/-- Symbols of two characters. -/
def pair? (c d : Char) : Option Token :=
  match c, d with
  | '*', '*' => some (symbol .power)
  | '<', '=' => some (symbol .lessEqual)
  | '>', '=' => some (symbol .greaterEqual)
  | '=', '=' => some (symbol .equal)
  | '!', '=' => some (symbol .notEqual)
  | '&', '&' => some (symbol .both)
  | '|', '|' => some (symbol .either)
  | '+', '+' | '-', '-' | '+', '=' | '-', '=' | '*', '=' | '/', '=' | '%', '=' | '.', '.'
  | '<', '<' | '>', '>' | '-', '>' | '<', '-' | '=', '>' | '(', '*' | '*', ')' | '|', '>'
  | '<', '|' => some invalid
  | _, _ => none

/-- Symbols of one character. -/
def single (c : Char) : Token :=
  match c with
  | '+' => symbol .plus
  | '-' => symbol .minus
  | '*' => symbol .times
  | '/' => symbol .divide
  | '%' => symbol .modulo
  | '<' => symbol .less
  | '>' => symbol .greater
  | '!' => symbol .negation
  | '(' => symbol .leftParen
  | ')' => symbol .rightParen
  | '[' => symbol .leftBracket
  | ']' => symbol .rightBracket
  | ',' => symbol .comma
  | '.' => symbol .dot
  | _ => invalid

/-- The token of a word. -/
def ofWord (word : List Char) : Token :=
  if isLegalName word then name (String.ofList word) else invalid

/-- Whether a sign behind a token belongs to what follows: nothing can be subtracted from the
token, and no property is asked for. -/
def precedesSign : Token → Bool
  | symbol .rightParen | symbol .rightBracket | symbol .dot => false
  | symbol _ => true
  | _ => false

/-- Whether a text starts with a digit. -/
def startsWithDigit (cs : List Char) : Bool := (cs.head?.map Char.isDigit).getD false

/-- The token at the front of a text that starts with `c`, neither blank nor in a comment, and the
text behind it; `signed` tells whether a sign there belongs to what follows. -/
def readToken (signed : Bool) (c : Char) (cs : List Char) : Token × List Char :=
  if c.isDigit then readNumber [] c cs
  else if signed && c == '-' && startsWithDigit cs then readNumber [c] (cs.headD c) cs.tail
  else if c.isAlpha || c == '_' then
    (ofWord (c :: cs.takeWhile isWordChar), cs.dropWhile isWordChar)
  else if c == '"' then
    match spanText '"' cs with
    | some (body, rest) => (text (String.ofList body), rest)
    | none => (invalid, [])
  else if c == '\'' then
    match spanText '\'' cs with
    | some ([d], rest) => (char d, rest)
    | _ => (invalid, [])
  else
    match cs with
    | [] => (single c, [])
    | d :: rest =>
      match pair? c d with
      | some token => (token, rest)
      | none => (single c, d :: rest)

theorem readToken_length (signed : Bool) (c : Char) (cs : List Char) :
    (readToken signed c cs).2.length ≤ cs.length := by
  unfold readToken
  split
  · exact readNumber_length [] c cs
  split
  · exact Nat.le_trans (readNumber_length ..) (by simp)
  split
  · exact (List.dropWhile_suffix _).length_le
  split
  · split
    · exact spanText_length ‹_›
    · exact Nat.zero_le _
  split
  · split
    · exact spanText_length ‹_›
    · exact Nat.zero_le _
  split
  · exact Nat.le_refl _
  · split
    · exact Nat.le_succ _
    · exact Nat.le_refl _

/-- Characters between tokens: the blanks of ASCII without the vertical tab. -/
def isSpace (c : Char) : Bool :=
  c == ' ' || c == '\t' || c == '\n' || c == '\r' || c == '\x0c'

/-- The tokens of a text; `signed` tells whether a sign at its front belongs to what follows. -/
def ofCharsFrom (signed : Bool) : List Char → List Token
  | [] => []
  | '/' :: '/' :: cs => ofCharsFrom signed (cs.dropWhile fun c => c != '\n' && c != '\r')
  | '/' :: '*' :: cs => ofCharsFrom signed (skipComment 1 cs)
  | c :: cs =>
    if isSpace c then ofCharsFrom signed cs
    else
      match _h : readToken signed c cs with
      | (invalid, _) => [invalid]
      | (token, rest) => token :: ofCharsFrom token.precedesSign rest
  termination_by cs => cs.length
  decreasing_by
  · have := (List.dropWhile_suffix (l := cs) fun c => c != '\n' && c != '\r').length_le
    simp; omega
  · have := skipComment_length 1 cs
    simp; omega
  · simp
  · have := readToken_length signed c cs
    simp only [_h] at this
    simp; omega

/-- **The tokens of a text.** -/
def ofChars (cs : List Char) : List Token := ofCharsFrom true cs

end Token

end SiteAnalysis.Expression
