/-! # Paths

Texts that name files and directories, split into parts.
-/

namespace SiteAnalysis

/-- Splits a text at every `/`. -/
def splitAtSlashes : List Char → List (List Char)
  | [] => [[]]
  | c :: cs =>
    if c = '/' then [] :: splitAtSlashes cs
    else match splitAtSlashes cs with
      | [] => [[c]]
      | part :: parts => (c :: part) :: parts

/-- **A path** as its parts; parts that stand for the directory itself are left out.  A part `..`
leads to the directory above. -/
structure Path where
  /-- Whether the path starts at the root and not at the working directory. -/
  absolute : Bool
  parts : List String
  deriving DecidableEq, Repr

namespace Path

/-- The path a text means. -/
def ofText (s : String) : Path :=
  { absolute := s.toList.head? == some '/'
    parts := ((splitAtSlashes s.toList).map String.ofList).filter fun p => p != "" && p != "." }

/-- A text that means a path. -/
def toText (p : Path) : String :=
  (if p.absolute then "/" else "") ++ String.intercalate "/" p.parts

/-- The directory a path lies in. -/
def parent (p : Path) : Path := { p with parts := p.parts.dropLast }

/-- The path of a name in a directory. -/
def child (p : Path) (name : String) : Path := { p with parts := p.parts ++ [name] }

/-- Whether a path leads nowhere but to directories above its start. -/
def isAboveStart (p : Path) : Bool := p.parts.all (· == "..")

/-- The directory above a directory whose path has `..` only in front.  The root is above
itself. -/
def above (p : Path) : Path :=
  if !p.isAboveStart then p.parent else if p.absolute then p else p.child ".."

/-- How the text of a path ends behind its last part. -/
inductive Ending where
  | plain
  /-- With `/`, which asks for a directory. -/
  | slash
  /-- With a part `.`, which stands for the directory itself. -/
  | dot
  deriving DecidableEq, Repr

/-- The ending of a text. -/
def Ending.ofText (s : String) : Ending :=
  let back := (splitAtSlashes s.toList).reverse
  if (back.dropWhile List.isEmpty).head? == some ['.'] then dot
  else if back.head? == some [] then slash
  else plain

/-- A file in a directory, both given as texts.  A file that starts at the root stays itself. -/
def join (directory file : String) : String :=
  if file.toList.head? == some '/' || directory.isEmpty then file
  else if directory.toList.getLast? == some '/' then directory ++ file
  else directory ++ "/" ++ file

/-- The extension of the last part: what stands behind its last point, which must not be its first
character. -/
def extension? (s : String) : Option String :=
  match (ofText s).parts.getLast? with
  | none => none
  | some name =>
    let back := name.toList.reverse
    match back.dropWhile (· != '.') with
    | [] | [_] => none
    | _ :: _ =>
      if name == ".." then none else some (String.ofList (back.takeWhile (· != '.')).reverse)

end Path

end SiteAnalysis
