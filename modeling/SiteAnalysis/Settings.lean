import SiteAnalysis.Expression.Engine
import SiteAnalysis.Folder
import SiteAnalysis.Json.Decode
import SiteAnalysis.Json.Printer
import SiteAnalysis.Json.Reader
import SiteAnalysis.Node.Kind
import SiteAnalysis.Scalar
import SiteAnalysis.Text.Shown
import SiteAnalysis.Toml.Printer
import SiteAnalysis.Toml.Reader

/-! # Settings

Limits of expressions, defaults of the minimisers, and where results go.  Settings are kept in
files, as JSON when the name ends in `.json` and as TOML otherwise.  Fields missing in a file have
their defaults.
-/

namespace SiteAnalysis

open Json (Fragment)

/-- **Defaults of the minimisers.** -/
structure MinimiserSettings where
  maxIterations : Nat := 2000
  stepSize : Float := 0.1
  tolerance : Float := 1.0e-10
  seed : Nat := 12345

/-- **Settings.** -/
structure Settings where
  expression : Expression.Limits := ⟨100000, 64⟩
  minimiser : MinimiserSettings := {}
  /-- Directory of the files that runs save. -/
  outputDir : String := "."
  /-- Group under which results are stored. -/
  dataGroup : String := "Analysis"
  /-- Context of procedures. -/
  context : Context := .analysis

namespace MinimiserSettings

/-- Equality; what is no number differs from itself. -/
def same (a b : MinimiserSettings) : Bool :=
  a.maxIterations == b.maxIterations && a.stepSize == b.stepSize && a.tolerance == b.tolerance &&
    a.seed == b.seed

/-- Decodes the defaults of the minimisers. -/
def decode (format : Json.Format) (f : Fragment) : Except String MinimiserSettings := do
  let fields ← f.decodeRecord format ["max_iterations", "step_size", "tolerance", "seed"]
  let maxIterations ← Json.optionalField fields "max_iterations" Fragment.decodeIndex 2000
  let stepSize ← Json.optionalField fields "step_size" Fragment.decodeFloat 0.1
  let tolerance ← Json.optionalField fields "tolerance" Fragment.decodeFloat 1.0e-10
  let seed ← Json.optionalField fields "seed" Fragment.decodeIndex 12345
  return { maxIterations, stepSize, tolerance, seed }

/-- The defaults as members of a document, floats as `number` gives them. -/
def toMembers (number : Float → Json) (m : MinimiserSettings) : List (String × Json) :=
  [("max_iterations", .int m.maxIterations), ("step_size", number m.stepSize),
    ("tolerance", number m.tolerance), ("seed", .int m.seed)]

end MinimiserSettings

namespace Settings

/-- Equality; what is no number differs from itself. -/
def same (a b : Settings) : Bool :=
  a.expression == b.expression && a.minimiser.same b.minimiser && a.outputDir == b.outputDir &&
    a.dataGroup == b.dataGroup && a.context == b.context

/-- Decodes the limits of expressions. -/
def decodeLimits (format : Json.Format) (f : Fragment) :
    Except String Expression.Limits := do
  let fields ← f.decodeRecord format ["max_operations", "max_expression_depth"]
  let operations ← Json.optionalField fields "max_operations" Fragment.decodeIndex 100000
  let depth ← Json.optionalField fields "max_expression_depth" Fragment.decodeIndex 64
  return ⟨operations, depth⟩

/-- Decodes a context by its keyword. -/
def decodeContext (format : Json.Format) (f : Fragment) : Except String Context := do
  match Context.ofKeyword? (← f.decodeChoice format) with
  | some c => return c
  | none => .error Json.malformed

/-- **Decodes settings.** -/
def decode (format : Json.Format) (f : Fragment) : Except String Settings := do
  let fields ← f.decodeRecord format ["expression", "minimiser", "output_dir", "data_prefix",
    "context"]
  let expression ← Json.optionalField fields "expression" (decodeLimits format) ⟨100000, 64⟩
  let minimiser ← Json.optionalField fields "minimiser" (MinimiserSettings.decode format) {}
  let outputDir ← Json.optionalField fields "output_dir" Fragment.decodeText "."
  let dataGroup ← Json.optionalField fields "data_prefix" Fragment.decodeText "Analysis"
  let context ← Json.optionalField fields "context" (decodeContext format) .analysis
  return { expression, minimiser, outputDir, dataGroup, context }

/-- The settings as members of a document, floats as `number` gives them. -/
def toMembers (number : Float → Json) (s : Settings) : List (String × Json) :=
  [("expression", .object [("max_operations", .int s.expression.operations),
      ("max_expression_depth", .int s.expression.depth)]),
    ("minimiser", .object (s.minimiser.toMembers number)), ("output_dir", .text s.outputDir),
    ("data_prefix", .text s.dataGroup), ("context", .text s.context.keyword)]

/-- Whether a file holds JSON. -/
def isJson (path : String) : Bool := (Path.extension? path).any fun e => sameName e "json"

/-- **Reads settings from the text of a file.** -/
def ofText (path text : String) : Except Error Settings :=
  let decoded :=
    if isJson path then Json.decodeSource (decode .json) text
    else match Toml.read? text with
      | some j => decode .toml (.ofJson j)
      | none => .error Json.malformed
  decoded.mapError fun e =>
    .config ("Failed to parse config file " ++ shown path ++ ": " ++ e)

/-- **Reads settings from a file.** -/
def load (folder : Folder) (path : String) : Except Error Settings :=
  match folder.read path with
  | .ok text => ofText path text
  | .error fault =>
    .error (.config ("Failed to read config file " ++ shown path ++ ": " ++ fault.message))

/-- Reads settings from a file; any failure gives the defaults. -/
def loadOrDefault (folder : Folder) (path : String) : Settings :=
  match load folder path with
  | .ok s => s
  | .error _ => {}

/-- The file that is read where none is named, below the directory for such files. -/
def defaultFile (home : String) : String := Path.join home "nodeproc-rs/config.toml"

/-- **The text of a file with the settings.** -/
def toText (path : String) (s : Settings) : Except Error String :=
  if isJson path then .ok (Json.pretty (.object (s.toMembers Scalar.floatJson)))
  else
    let members := s.toMembers Json.float
    if Toml.areMembersExpressible members then .ok (Toml.pretty members)
    else .error (.config "Failed to serialize config: u64 value was too large")

/-- **Writes settings to a file**; directories missing on its path are made, and stay even if the
file cannot be written. -/
def save (folder : Folder) (path : String) (s : Settings) : Except Error Unit × Folder :=
  match folder.makeDirectories (Path.ofText path).parent with
  | (.error fault, folder) =>
    (.error (.config ("Failed to create config directory: " ++ fault.message)), folder)
  | (.ok (), folder) =>
    match s.toText path with
    | .error e => (.error e, folder)
    | .ok text =>
      match folder.write path text with
      | .ok folder => (.ok (), folder)
      | .error fault =>
        (.error (.config
          ("Failed to write config file " ++ shown path ++ ": " ++ fault.message)), folder)

end Settings

end SiteAnalysis
