import SiteAnalysis.Json.Number

/-! # Tokens of structured texts

A text is split into brackets, separators and single values.  Scanning a token gives the rest of
the text, which is always shorter.  The text up to the first place where no token stands gives
tokens as usual, and `malformed` stands for that place; what follows it is not looked at.
-/

namespace SiteAnalysis.Json

/-- **Tokens.** -/
inductive Token where
  | openArray | closeArray | openObject | closeObject | comma | colon
  | value (j : Json)
  /-- A number or a text of the right form that no value corresponds to: the number is too large,
  or the text holds half a character. -/
  | valueless
  /-- A place where no token stands. -/
  | malformed

/-- Blanks between tokens. -/
def isSpace (c : Char) : Bool := c == ' ' || c == '\n' || c == '\t' || c == '\r'

/-- Value of a digit of base sixteen. -/
def hexValue? (c : Char) : Option Nat :=
  if c.isDigit then some (digitValue c)
  else if 'a' ≤ c ∧ c ≤ 'f' then some (c.toNat - 'a'.toNat + 10)
  else if 'A' ≤ c ∧ c ≤ 'F' then some (c.toNat - 'A'.toNat + 10)
  else none

/-- Four digits of base sixteen at the front of a text. -/
def hexQuad? : List Char → Option (Nat × List Char)
  | a :: b :: c :: d :: rest =>
    match hexValue? a, hexValue? b, hexValue? c, hexValue? d with
    | some a, some b, some c, some d => some (((a * 16 + b) * 16 + c) * 16 + d, rest)
    | _, _, _, _ => none
  | _ => none

/-- Characters that a single letter behind a backslash stands for. -/
def shortEscape? (c : Char) : Option Char :=
  if c == '"' || c == '\\' || c == '/' then some c
  else if c == 'b' then some (Char.ofNat 8)
  else if c == 'f' then some (Char.ofNat 12)
  else if c == 'n' then some '\n'
  else if c == 'r' then some '\r'
  else if c == 't' then some '\t'
  else none

/-- An escape by number, behind `\u`.  A character beyond the first plane is given by two numbers,
a high and a low one; one of them alone is no character. -/
def unicodeEscape? (cs : List Char) : Option (Option Char × List Char) :=
  match hexQuad? cs with
  | none => none
  | some (n, rest) =>
    if n < 0xD800 ∨ 0xDFFF < n then some (some (Char.ofNat n), rest)
    else if 0xDBFF < n then some (none, rest)
    else match rest with
      | '\\' :: 'u' :: more =>
        match hexQuad? more with
        | some (m, more) =>
          if 0xDC00 ≤ m ∧ m ≤ 0xDFFF then
            some (some (Char.ofNat (0x10000 + (n - 0xD800) * 0x400 + (m - 0xDC00))), more)
          else some (none, rest)
        | none => some (none, rest)
      | rest => some (none, rest)

theorem hexQuad?_length {cs rest : List Char} {n : Nat} (h : hexQuad? cs = some (n, rest)) :
    rest.length < cs.length := by
  match cs with
  | a :: b :: c :: d :: tail =>
    simp only [hexQuad?] at h
    split at h
    · simp only [Option.some.injEq, Prod.mk.injEq] at h
      simp [← h.2]
      omega
    · simp at h
  | [] | [_] | [_, _] | [_, _, _] => simp [hexQuad?] at h

theorem unicodeEscape?_length {cs rest : List Char} {c : Option Char}
    (h : unicodeEscape? cs = some (c, rest)) : rest.length < cs.length := by
  unfold unicodeEscape? at h
  split at h
  · simp at h
  · rename_i n tail hq
    have hlen := hexQuad?_length hq
    have self {d : Option Char} (he : some (d, tail) = some (c, rest)) :
        rest.length < cs.length := by
      simp only [Option.some.injEq, Prod.mk.injEq] at he
      exact he.2 ▸ hlen
    split at h
    · exact self h
    · split at h
      · exact self h
      · split at h
        · rename_i more
          split at h
          · rename_i m last hm
            have hlast := hexQuad?_length hm
            split at h
            · simp only [Option.some.injEq, Prod.mk.injEq] at h
              have := h.2 ▸ hlast
              simp only [List.length_cons] at hlen
              omega
            · exact self h
          · exact self h
        · exact self h

/-- The rest of a quoted text, behind its opening quote; `read` holds the characters read so far,
last first, unless one of them was only half a character. -/
def scanText (read : Option (List Char)) (cs : List Char) :
    Option (Option (List Char) × List Char) :=
  match cs with
  | [] => none
  | '"' :: rest => some (read.map List.reverse, rest)
  | '\\' :: 'u' :: rest =>
    match _h : unicodeEscape? rest with
    | some (c, rest) => scanText (read.bind fun read => c.map (· :: read)) rest
    | none => none
  | '\\' :: c :: rest =>
    match shortEscape? c with
    | some c => scanText (read.map (c :: ·)) rest
    | none => none
  | c :: rest =>
    if c.toNat < 32 || c == '\\' then none else scanText (read.map (c :: ·)) rest
  termination_by cs.length
  decreasing_by
  · have := unicodeEscape?_length _h
    simp only [List.length_cons]
    omega
  · simp only [List.length_cons]
    omega
  · simp

/-- A text without a word at its front. -/
def dropWord? : List Char → List Char → Option (List Char)
  | [], cs => some cs
  | _ :: _, [] => none
  | w :: word, c :: cs => if w = c then dropWord? word cs else none

namespace Token

/-- The token at the front of a text that does not start with a blank. -/
def scanToken (c : Char) (cs : List Char) : Option (Token × List Char) :=
  if c == '[' then some (.openArray, cs)
  else if c == ']' then some (.closeArray, cs)
  else if c == '\x7b' then some (.openObject, cs)
  else if c == '\x7d' then some (.closeObject, cs)
  else if c == ',' then some (.comma, cs)
  else if c == ':' then some (.colon, cs)
  else if c == '"' then
    (scanText (some []) cs).map fun (read, rest) =>
      (((read.map String.ofList).map (value ∘ text)).getD valueless, rest)
  else if c == 't' then (dropWord? "rue".toList cs).map fun rest => (.value (bool true), rest)
  else if c == 'f' then (dropWord? "alse".toList cs).map fun rest => (.value (bool false), rest)
  else if c == 'n' then (dropWord? "ull".toList cs).map fun rest => (.value null, rest)
  else
    let (number, rest) := NumberText.scan (c :: cs)
    if number.isWellFormed then some ((number.value?.map value).getD valueless, rest) else none

/-- The tokens of a text behind those given, last first. -/
def scanTokens : Nat → List Char → List Token → List Token
  | _, [], tokens => tokens
  | 0, _ :: _, tokens => malformed :: tokens
  | n + 1, c :: cs, tokens =>
    if isSpace c then scanTokens n cs tokens
    else match scanToken c cs with
      | some (token, rest) => scanTokens n rest (token :: tokens)
      | none => malformed :: tokens

/-- **The tokens of a text** in order.  Every token takes a character, so a text has no more tokens
than characters. -/
def ofText (source : String) : List Token :=
  (scanTokens source.length source.toList []).reverse

end Token

end SiteAnalysis.Json
