import SiteAnalysis.Error
import SiteAnalysis.Text.Argument

/-! # Lines of arguments

A text is read line by line.  Lines without arguments are passed over; a line that cannot be
split is reported with its number, and reading goes on behind it.
-/

namespace SiteAnalysis

/-- **The arguments on a line.** -/
def tokenise (line : String) : Except Error (List String) :=
  match Argument.scan line.toList [] with
  | .ok args => .ok (args.map String.ofList)
  | .error (quote, args) =>
    .error (.invalidArgument ((args.head?.map String.ofList).getD "") (.unterminatedQuote quote))

/-- Splits at every line feed; there is one part more than there are line feeds. -/
def splitAtLineFeeds : List Char → List (List Char)
  | [] => [[]]
  | c :: cs =>
    if c = '\n' then [] :: splitAtLineFeeds cs
    else match splitAtLineFeeds cs with
      | [] => [[c]]
      | part :: parts => (c :: part) :: parts

/-- A line without the carriage return at its end. -/
def dropReturn (line : List Char) : List Char :=
  if line.getLast? = some '\r' then line.dropLast else line

/-- **The lines of a text.**  A carriage return before a line feed belongs to no line, and a text
that ends with a line feed has no further line behind it. -/
def linesOf (text : String) : List String :=
  let parts := splitAtLineFeeds text.toList
  let closed := parts.dropLast.map fun part => String.ofList (dropReturn part)
  match parts.getLast? with
  | none | some [] => closed
  | some open_ => closed ++ [String.ofList open_]

/-- The text of some lines, each closed by a line feed. -/
def joinLines (lines : List String) : String := String.join (lines.map (· ++ "\n"))

/-- **A walk over the lines of a text.** -/
structure LineReader where
  /-- The lines not read yet. -/
  rest : List String
  /-- Number of the line read last; the first line has number one. -/
  number : Nat
  /-- Arguments of the line read last. -/
  args : List String

namespace LineReader

/-- A walk that has read nothing yet. -/
def ofText (text : String) : LineReader := ⟨linesOf text, 0, []⟩

/-- Moves on over the given lines; `number` is the number of the line before them. -/
def advance : List String → Nat → Except Error Bool × LineReader
  | [], number => (.ok false, ⟨[], number, []⟩)
  | line :: rest, number =>
    match tokenise line with
    | .error e => (.error (e.atLine (number + 1)), ⟨rest, number + 1, []⟩)
    | .ok [] => advance rest (number + 1)
    | .ok args => (.ok true, ⟨rest, number + 1, args⟩)

/-- **Moves on to the next line with arguments**; `false` at the end of the text.  After an error
the walk stands behind the line that failed. -/
def next (r : LineReader) : Except Error Bool × LineReader := advance r.rest r.number

/-- The arguments behind the keyword. -/
def values (r : LineReader) : List String := r.args.drop 1

end LineReader

end SiteAnalysis
