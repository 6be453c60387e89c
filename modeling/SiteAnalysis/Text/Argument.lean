import SiteAnalysis.Text.Blank

/-! # Arguments on a line

A line holds arguments separated by blanks.  An argument in `'` or `"` runs to the same
character and may hold blanks; a `#` where an argument would start ends the line.

* `scan` splits a line into its arguments.
* `quote` writes one argument; it reads back as one exactly when `isWritable` holds.
* `niceName` makes a text fit to be the name of a node.
-/

namespace SiteAnalysis

namespace Argument

/-- The characters that open a quoted argument. -/
def isQuote (c : Char) : Bool := c == '\'' || c == '"'

/-- Splits at the first character for which `p` holds; none if there is no such character. -/
def splitAtFirst (p : Char → Bool) : List Char → Option (List Char × List Char)
  | [] => none
  | c :: cs =>
    if p c then some ([], cs)
    else (splitAtFirst p cs).map fun (front, back) => (c :: front, back)

theorem splitAtFirst_length {p : Char → Bool} {cs front back : List Char}
    (h : splitAtFirst p cs = some (front, back)) : back.length < cs.length := by
  induction cs generalizing front with
  | nil => simp [splitAtFirst] at h
  | cons c cs ih =>
    by_cases hp : p c
    · simp only [splitAtFirst, hp, if_true, Option.some.injEq, Prod.mk.injEq] at h
      simp [← h.2]
    · simp only [splitAtFirst, hp, Bool.false_eq_true, if_false, Option.map_eq_some_iff,
        Prod.exists, Prod.mk.injEq] at h
      obtain ⟨f, b, hs, _, rfl⟩ := h
      exact Nat.lt_succ_of_lt (ih hs)

/-- **The scan of a line.**  On failure it gives the quote that is never closed and the arguments
read before it. -/
def scan : List Char → List (List Char) → Except (Char × List (List Char)) (List (List Char))
  | [], args => .ok args.reverse
  | c :: cs, args =>
    if isBlank c then scan cs args
    else if c == '#' then .ok args.reverse
    else if isQuote c then
      match _h : splitAtFirst (· == c) cs with
      | some (body, rest) => scan rest (body :: args)
      | none => .error (c, args.reverse)
    else scan (cs.dropWhile fun d => !isBlank d) ((c :: cs.takeWhile fun d => !isBlank d) :: args)
  termination_by cs => cs.length
  decreasing_by
  · simp
  · exact Nat.lt_succ_of_lt (splitAtFirst_length ‹_›)
  · exact Nat.lt_succ_of_le (List.dropWhile_suffix _).length_le

/-- Whether a text needs quotes to be read back as one argument. -/
def needsQuotes (s : String) : Bool :=
  s.isEmpty || s.toList.any fun c => isBlank c || c == '#' || isQuote c

end Argument

/-- **One argument, written.**  Double quotes serve only a text that holds a single one. -/
def quote (s : String) : String :=
  if !Argument.needsQuotes s then s
  else if s.toList.contains '\'' then String.ofList ('"' :: s.toList ++ ['"'])
  else String.ofList ('\'' :: s.toList ++ ['\''])

/-- Whether a text reads back as one argument once it is written: no quoting covers a text with
both kinds of quotes. -/
def isWritable (s : String) : Bool := !(s.toList.contains '\'' && s.toList.contains '"')

/-- Characters of an identifier. -/
def isWordChar (c : Char) : Bool := c.isAlphanum || c == '_'

/-- **The name made from a text**: blanks at the ends are dropped and every character that cannot
stand in an identifier becomes `_`. -/
def niceName (s : String) : String :=
  String.ofList ((trimBlanks s.toList).map fun c => if isWordChar c then c else '_')

end SiteAnalysis
