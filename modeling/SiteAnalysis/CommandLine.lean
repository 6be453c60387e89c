import SiteAnalysis.Procedure

/-! # The command line

Runs a procedure once over a snapshot and lists the results.  What the program reads and writes is
a `Folder`, so that a run of it is a function.

* `CommandLine.parse` takes the arguments apart.
* `CommandLine.run` does what they ask for.
* `CommandLine.filesFor` and `CommandLine.withSaveDirectory` tell which part of the disk a run sees.
-/

namespace SiteAnalysis.CommandLine

/-- How the program is called. -/
def usage : String :=
  "usage: nodeproc <procedure> <snapshot.json> [--config <file>] [--core <file>]"

/-- **What to run**, as names of files. -/
structure Request where
  procedure : String
  snapshot : String
  settings : Option String
  catalogue : Option String
  deriving DecidableEq, Repr

/-- What the arguments ask for. -/
inductive Command where
  | help
  | run (request : Request)
  deriving DecidableEq, Repr

/-- The arguments taken so far. -/
structure Taken where
  /-- Arguments that belong to no option. -/
  files : List String := []
  settings : Option String := none
  catalogue : Option String := none

/-- What was taken as a command; there have to be two files. -/
def Taken.command (t : Taken) : Except String Command :=
  match t.files with
  | [procedure, snapshot] => .ok (.run ⟨procedure, snapshot, t.settings, t.catalogue⟩)
  | _ => .error usage

/-- Takes one argument after the other.  The first fault counts, and so does a call for help. -/
def take : List String → Taken → Except String Command
  | [], t => t.command
  | "--config" :: file :: rest, t => take rest { t with settings := some file }
  | "--core" :: file :: rest, t => take rest { t with catalogue := some file }
  | arg :: rest, t =>
    if arg == "--config" || arg == "--core" then .error (arg ++ " needs a file")
    else if arg == "-h" || arg == "--help" then .ok .help
    else if arg.startsWith "--" then .error ("unknown option '" ++ arg ++ "'\n" ++ usage)
    else take rest { t with files := t.files ++ [arg] }

/-- **Takes the arguments apart.** -/
def parse (args : List String) : Except String Command := take args {}

/-- What a run of the program leaves: its exit code, what it wrote, and the files. -/
structure Result where
  code : Nat
  output : String
  errors : String
  folder : Folder

/-- A text made as wide as a column. -/
def padded (width : Nat) (s : String) : String :=
  s ++ String.ofList (List.replicate (width - s.length) ' ')

/-- The line for a stored item: its name, its type and its group. -/
def itemLine (key : ResultKey) (item : Item) : String :=
  padded 40 key.name ++ " " ++ padded 16 item.type.name ++ " " ++ key.group ++ "\n"

/-- Reads a file with a document, and tells no more than that it failed. -/
def load {α : Type} (folder : Folder) (file : String)
    (decode : Json.Fragment → Except String α) (failure : String) : Except String α :=
  match folder.read file with
  | .ok text => (Json.decodeSource decode text).mapError fun _ => failure
  | .error _ => .error failure

/-- The settings of a request. -/
def settingsOf (folder : Folder) (defaultFile : String) (r : Request) : Except String Settings :=
  match r.settings with
  | some file => (Settings.load folder file).mapError Error.message
  | none => .ok (Settings.loadOrDefault folder defaultFile)

/-- The files that a request reads. -/
def Request.files (defaultFile : String) (r : Request) : List String :=
  r.procedure :: r.snapshot :: r.settings.getD defaultFile :: r.catalogue.toList

/-- **The files that a run may read**, which are none when the arguments are refused. -/
def filesFor (defaultFile : String) (args : List String) : List String :=
  match parse args with
  | .ok (.run request) => request.files defaultFile
  | _ => []

/-- The directory in which a request saves files. -/
def Request.saveDirectory (folder : Folder) (defaultFile : String) (r : Request) : String :=
  ((settingsOf folder defaultFile r).toOption.getD {}).outputDir

/-- A folder in which the directory exists in which a run saves files. -/
def withSaveDirectory (folder : Folder) (defaultFile : String) (args : List String) : Folder :=
  match parse args with
  | .ok (.run request) =>
    (folder.makeDirectories (Path.ofText (request.saveDirectory folder defaultFile))).2
  | _ => folder

/-- Reads a procedure in the form that the name of its file tells. -/
def readProcedure (p : Procedure) (lookup : Lookup) (file text : String) :
    Except Error Unit × Procedure :=
  let isForm := fun form : String => (Path.extension? file).any fun e => sameName e form
  if isForm "json" then p.readJson lookup text
  else if isForm "toml" then p.readToml lookup text
  else p.readText lookup text

/-- What a request needs to run: the procedure, checked, and the configuration. -/
def prepare (folder : Folder) (defaultFile : String) (r : Request) :
    Except String (Procedure × Configuration) := do
  let settings ← settingsOf folder defaultFile r
  let configuration ← load folder r.snapshot Configuration.decode
    ("Failed to load snapshot " ++ r.snapshot)
  let catalogue ← match r.catalogue with
    | some file => load folder file Catalogue.decode ("Failed to load species data " ++ file)
    | none => .ok configuration.catalogue
  let text ← (folder.read r.procedure).mapError fun _ => "Failed to read " ++ r.procedure
  let empty := Procedure.ofSettings settings settings.context.keyword
  match readProcedure empty ⟨catalogue, .full⟩ r.procedure text with
  | (.error _, _) => throw ("Failed to read procedure " ++ r.procedure)
  | (.ok (), p) =>
    match p.check with
    | .error _ => throw "Procedure check failed"
    | .ok () => return (p, configuration)

/-- A failure of the program. -/
def failed (folder : Folder) (message : String) : Result :=
  ⟨1, "", "Error: " ++ message ++ "\n", folder⟩

/-- **Runs the procedure of a request** and lists the results. -/
def perform (folder : Folder) (defaultFile : String) (r : Request) (time : String) : Result :=
  match prepare folder defaultFile r with
  | .error message => failed folder message
  | .ok (p, configuration) =>
    let report := p.execute configuration .empty folder .serial p.settings.dataGroup time
    match report.outcome with
    | .error e => failed report.folder e.message
    | .ok .skipped => ⟨0, "", "", report.folder⟩
    | .ok .executed =>
      ⟨0, String.join (report.results.entries.map fun (key, item) => itemLine key item), "",
        report.folder⟩

/-- **Runs the program.** -/
def run (folder : Folder) (defaultFile : String) (args : List String) (time : String) : Result :=
  match parse args with
  | .error message => failed folder message
  | .ok .help => ⟨0, usage ++ "\n", "", folder⟩
  | .ok (.run request) => perform folder defaultFile request time

end SiteAnalysis.CommandLine
