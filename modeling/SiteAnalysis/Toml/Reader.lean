import SiteAnalysis.Toml.Scan
import SiteAnalysis.Toml.Table

/-! # Reading TOML

A document is a sequence of headers and of keys with values.  The readers count their steps; every
step takes at least a character or opens a value, so twice the length of the text is enough.
-/

namespace SiteAnalysis.Toml

mutual

/-- A value at the front of a text, inside `depth` other ones. -/
def value? : Nat → Nat → List Char → Option (Json × List Char)
  | 0, _, _ => none
  | n + 1, depth, cs =>
    match cs with
    | '[' :: rest => if depth + 1 < maxDepth then arrayRest? n (depth + 1) [] rest else none
    | '\x7b' :: rest =>
      if depth + 1 < maxDepth then
        match skipBlanks rest with
        | '\x7d' :: rest => some (.object [], rest)
        | rest => inlineRest? n (depth + 1) [] rest
      else none
    | '"' :: _ | '\'' :: _ => (text? n cs).map fun (s, rest) => (.text s, rest)
    | _ => scalar? cs

/-- The rest of an array behind `before`, given last first. -/
def arrayRest? : Nat → Nat → List Json → List Char → Option (Json × List Char)
  | 0, _, _, _ => none
  | n + 1, depth, before, cs =>
    match skipLines n cs with
    | ']' :: rest => some (.array before.reverse, rest)
    | cs => do
      let (j, rest) ← value? n depth cs
      match skipLines n rest with
      | ',' :: rest => arrayRest? n depth (j :: before) rest
      | ']' :: rest => some (.array (j :: before).reverse, rest)
      | _ => none

/-- The rest of a table in braces, which stands on one line. -/
def inlineRest? : Nat → Nat → Members → List Char → Option (Json × List Char)
  | 0, _, _, _ => none
  | n + 1, depth, before, cs => do
    let (path, rest) ← key? n cs
    let .cons '=' rest := skipBlanks rest | none
    let (j, rest) ← value? n depth (skipBlanks rest)
    let members ← addValue path.dropLast (path.getLast?.getD "") j before
    match skipBlanks rest with
    | ',' :: rest => inlineRest? n depth members rest
    | '\x7d' :: rest => some ((Entry.table .header members).toJson, rest)
    | _ => none

end

/-- What follows a header or a value on its line: nothing but a comment. -/
def restOfLine? (cs : List Char) : Option (List Char) :=
  let cs := match skipBlanks cs with
    | '#' :: rest => rest.dropWhile isPlain
    | cs => cs
  if cs.isEmpty then some [] else lineEnd? cs

/-- Reads the headers and values of a document into its tables; `table` is the path of the table
begun last. -/
def document? : Nat → List String → Members → List Char → Option Members
  | 0, _, _, _ => none
  | n + 1, table, members, cs =>
    match skipLines n cs with
    | [] => some members
    | '[' :: '[' :: rest => do
      let (path, rest) ← key? n rest
      let .cons ']' rest := rest | none
      let .cons ']' rest := rest | none
      let members ← beginItem path.dropLast (path.getLast?.getD "") members
      document? n path members (← restOfLine? rest)
    | '[' :: rest => do
      let (path, rest) ← key? n rest
      let .cons ']' rest := rest | none
      let members ← beginTable path.dropLast (path.getLast?.getD "") members
      document? n path members (← restOfLine? rest)
    | cs => do
      let (path, rest) ← key? n cs
      let .cons '=' rest := rest | none
      let (j, rest) ← value? n 0 (skipBlanks rest)
      let members ← addValueAt table path.dropLast (path.getLast?.getD "") j members
      document? n table members (← restOfLine? rest)

/-- **Reads a document**; none when it is malformed. -/
def read? (source : String) : Option Json :=
  let cs := match source.toList with
    | '\uFEFF' :: rest => rest
    | cs => cs
  (document? (2 * cs.length + 2) [] [] cs).map fun members => (Entry.table .header members).toJson

end SiteAnalysis.Toml
