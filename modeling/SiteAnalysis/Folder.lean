import SiteAnalysis.Path

/-! # Folders

What is on disk, as far as programs see it: the texts of files under their paths, and the
directories that exist.  The working directory and those above it always exist.
-/

namespace SiteAnalysis

/-- **Why a path cannot be used** for what is asked of it. -/
inductive PathFault where
  /-- The path leads nowhere. -/
  | missing
  /-- Something stands where a directory is to be made. -/
  | taken
  /-- A file is taken for a directory. -/
  | notDirectory
  /-- A directory is taken for a file. -/
  | isDirectory
  /-- A part of the path is longer than a name can be. -/
  | tooLong
  /-- The path holds a character that no name can hold. -/
  | unusable
  deriving DecidableEq, Repr

/-- Wording of a fault. -/
def PathFault.message : PathFault → String
  | missing => "No such file or directory (os error 2)"
  | taken => "File exists (os error 17)"
  | notDirectory => "Not a directory (os error 20)"
  | isDirectory => "Is a directory (os error 21)"
  | tooLong => "File name too long (os error 36)"
  | unusable => "file name contained an unexpected NUL byte"

/-- **The files and directories on disk**, under paths that have `..` only in front. -/
structure Folder where
  files : List (Path × String)
  directories : List Path

namespace Folder

/-- A working directory that holds nothing. -/
def empty : Folder := ⟨[], []⟩

/-- Whether a directory exists. -/
def hasDirectory (f : Folder) (p : Path) : Bool := p.isAboveStart || f.directories.contains p

/-- Whether a file exists. -/
def hasFile (f : Folder) (p : Path) : Bool := (f.files.lookup p).isSome

/-- Greatest number of bytes in a name. -/
def maxNameSize : Nat := 255

/-- The place of a name in a directory. -/
def place (d : Path) (name : String) : Except PathFault Path :=
  if name.utf8ByteSize ≤ maxNameSize then .ok (d.child name) else .error .tooLong

/-- One part of a path, from a directory to the next. -/
def enter (f : Folder) (d : Path) (name : String) : Except PathFault Path :=
  if name == ".." then .ok d.above
  else do
    let p ← place d name
    if f.hasDirectory p then .ok p
    else if f.hasFile p then .error .notDirectory
    else .error .missing

/-- **The directory that a path leads to.** -/
def resolve (f : Folder) (p : Path) : Except PathFault Path :=
  if p.parts.any fun name => name.toList.contains '\x00' then .error .unusable
  else p.parts.foldlM f.enter ⟨p.absolute, []⟩

/-- What a path names inside a directory: the place of its last part.  A path that ends in `..`
leads to a directory. -/
def locate (f : Folder) (p : Path) : Except PathFault (Option Path) :=
  match p.parts.getLast? with
  | none => .ok none
  | some name => do
    if name.toList.contains '\x00' then throw .unusable
    let d ← f.resolve p.parent
    if name == ".." then return none else return some (← place d name)

/-- **The text of a file.** -/
def read (f : Folder) (path : String) : Except PathFault String := do
  if path.isEmpty then throw .missing
  match ← f.locate (.ofText path) with
  | none => throw .isDirectory
  | some p =>
    match f.files.lookup p with
    | some text => if Path.Ending.ofText path = .plain then return text else throw .notDirectory
    | none => throw (if f.hasDirectory p then .isDirectory else .missing)

/-- **Writes a file**, in place of what it held.  Its directory has to exist. -/
def write (f : Folder) (path text : String) : Except PathFault Folder := do
  if path.isEmpty then throw .missing
  match ← f.locate (.ofText path) with
  | none => throw .isDirectory
  | some p =>
    if f.hasDirectory p then throw .isDirectory
    match Path.Ending.ofText path with
    | .plain => return { f with files := f.files.filter (fun e => e.1 != p) ++ [(p, text)] }
    | .slash => throw .isDirectory
    | .dot => throw (if f.hasFile p then .notDirectory else .missing)

/-- Makes a directory in one that exists. -/
def makeDirectory (f : Folder) (p : Path) : Except PathFault Folder := do
  match ← f.locate p with
  | none => throw .taken
  | some p =>
    if f.hasDirectory p || f.hasFile p then throw .taken
    return { f with directories := f.directories ++ [p] }

/-- Makes a directory in one that exists, unless it exists already. -/
def ensureDirectory (f : Folder) (p : Path) : Except PathFault Unit × Folder :=
  match f.makeDirectory p with
  | .ok f => (.ok (), f)
  | .error fault => (if (f.resolve p).isOk then .ok () else .error fault, f)

/-- Makes the directory whose parts are given last first, after those above it if one of them is
missing.  Directories made before a fault stay. -/
def makeParts (absolute : Bool) : List String → Folder → Except PathFault Unit × Folder
  | [], f => (.ok (), f)
  | name :: above, f =>
    let p : Path := ⟨absolute, (name :: above).reverse⟩
    match f.ensureDirectory p with
    | (.error .missing, f) =>
      match makeParts absolute above f with
      | (.ok (), f) => f.ensureDirectory p
      | failed => failed
    | done => done

/-- **Makes a directory and those above it** that are missing. -/
def makeDirectories (f : Folder) (p : Path) : Except PathFault Unit × Folder :=
  makeParts p.absolute p.parts.reverse f

/-- A working directory with some files, and the directories they need. -/
def ofFiles (files : List (String × String)) : Folder :=
  files.foldl (fun f (path, text) =>
    let f := (f.makeDirectories (Path.ofText path).parent).2
    (f.write path text).toOption.getD f) empty

/-- **The files that a folder has gained or changed** since it was another one. -/
def changedSince (f before : Folder) : List (Path × String) :=
  f.files.filter fun (p, text) => before.files.lookup p != some text

end Folder

end SiteAnalysis
