import SiteAnalysis.Expression.Fault
import SiteAnalysis.Number.Layout

/-! # Errors

Every failure the library reports is a value of `Error`.  Its constructors name causes; the
wording is in `Error.message`.  `Error.atLine` and `Error.withContext` wrap an error to say
where it arose, and `Error.rootCause` looks through both.
-/

namespace SiteAnalysis

/-- **Why an argument is refused.** -/
inductive ArgumentFault where
  | unterminatedQuote (quote : Char)
  | notNumber (text : String)
  | notBoolean (text : String)
  | notInteger (text : String)
  | notIndex (text : String)
  | bothQuotes
  | notOption (text : String) (options : List String)
  | invalidOption (text : String)
  | emptyRange
  | unknownSite (site species : String)
  | wrongDocument (expected found : String)
  | wrongKind (kind : String)
  | invalidParameterName (name : String)
  | notParameterPairs
  | notDynamicSites
  | undefinedSiteName (name : String)
  | unknownSpecies (name : String)
  | repeatedName (name : String)
  | notNames
  | other (text : String)

/-- Wording of a refused argument. -/
def ArgumentFault.message : ArgumentFault → String
  | unterminatedQuote quote => "unterminated " ++ quote.toString ++ " quote"
  | notNumber text => "'" ++ text ++ "' is not a number"
  | notBoolean text => "'" ++ text ++ "' is not a boolean"
  | notInteger text => "'" ++ text ++ "' is not an integer"
  | notIndex text => "'" ++ text ++ "' is not an index"
  | bothQuotes => "text may not contain both ' and \""
  | notOption text options => "'" ++ text ++ "' is not one of " ++ String.intercalate ", " options
  | invalidOption text => "'" ++ text ++ "' is not a valid option"
  | emptyRange => "maximum must exceed minimum and width must be positive"
  | unknownSite site species => "no site '" ++ site ++ "' on species '" ++ species ++ "'"
  | wrongDocument expected found => "expected " ++ expected ++ ", found " ++ found
  | wrongKind kind => "not " ++ kind ++ " keyword"
  | invalidParameterName name => "'" ++ name ++ "' is not a valid parameter name"
  | notParameterPairs => "expected an array of [name, value] pairs"
  | notDynamicSites => "expected an array of DynamicSite blocks"
  | undefinedSiteName name => "no species defines a site named '" ++ name ++ "'"
  | unknownSpecies name => "unknown species '" ++ name ++ "'"
  | repeatedName name => "'" ++ name ++ "' is given more than once"
  | notNames => "expected an array of names"
  | other text => text

/-- **Why a value is unacceptable.** -/
inductive ValueFault where
  | expression (problem : Expression.Problem)
  | noEquation
  | nonPositiveLengths (x y z : Float)
  | flatCell (alpha beta gamma : Float)
  | other (text : String)

/-- Three numbers separated by commas. -/
def tripleText (x y z : Float) : String :=
  Layout.plain.text x ++ ", " ++ Layout.plain.text y ++ ", " ++ Layout.plain.text z

/-- Wording of an expression problem as an error. -/
def Expression.Problem.errorMessage (p : Expression.Problem) : String :=
  "Expression error: " ++ p.message

/-- Wording of an unacceptable value. -/
def ValueFault.message : ValueFault → String
  | expression problem => problem.errorMessage
  | noEquation => "no equation given"
  | nonPositiveLengths x y z => "box lengths must be positive (got " ++ tripleText x y z ++ ")"
  | flatCell alpha beta gamma =>
    "angles (" ++ tripleText alpha beta gamma ++ ") do not describe a valid cell"
  | other text => text

/-- **Why a node fails while a procedure runs.** -/
inductive RunFault where
  | keywordNotSet (keyword : String)
  | unresolved (target keyword : String)
  | noCurrentSite (selection : String)
  | emptyDynamicSite
  | noObservable (calculation : String) (index : Nat)
  | noPopulation (selection : String)
  | badFactor (factor : Float)
  | noReferenceData
  /-- A fit gives no finite cost, and the problem behind that if an expression failed. -/
  | fitFailed (problem : Option Expression.Problem)
  /-- The node was told to fail in a phase. -/
  | refused (phase : String)
  | badCell (node keyword : String) (fault : ValueFault)
  | other (text : String)

/-- Wording of a value error for a node and one of its keywords. -/
def ValueFault.errorMessage (node keyword : String) (fault : ValueFault) : String :=
  "Invalid value for '" ++ keyword ++ "' in node '" ++ node ++ "': " ++ fault.message

/-- Wording of a failure while running. -/
def RunFault.message : RunFault → String
  | keywordNotSet keyword => "keyword '" ++ keyword ++ "' is not set"
  | unresolved target keyword =>
    "'" ++ target ++ "' in keyword '" ++ keyword ++ "' has not been resolved"
  | noCurrentSite selection => "selection '" ++ selection ++ "' has no current site"
  | emptyDynamicSite => "a DynamicSite block names no SiteName or Species"
  | noObservable calculation index =>
    "'" ++ calculation ++ "' has no value at index " ++ toString index
  | noPopulation selection => "selection '" ++ selection ++ "' has no sites to normalise by"
  | badFactor factor => "cannot divide by factor " ++ Layout.plain.text factor
  | noReferenceData => "reference data are empty"
  | fitFailed (some problem) => "fit failed: " ++ problem.errorMessage
  | fitFailed none => "fit failed: cost is not finite"
  | refused phase => phase ++ " refused"
  | badCell node keyword fault => fault.errorMessage node keyword
  | other text => text

/-- **Errors.** -/
inductive Error where
  /-- A node name is already used somewhere in the tree. -/
  | duplicateName (name : String)
  /-- A node was looked up but does not exist. -/
  | unknownNode (node : String)
  /-- A node type may not appear in a sequence of this context. -/
  | wrongContext (nodeType context : String)
  /-- A node reference does not resolve from where it stands. -/
  | danglingReference (node keyword target : String)
  /-- A branch names another node as its owner. -/
  | ownerMismatch (node : String)
  /-- A node without a branch was asked for it. -/
  | noBranch (node : String)
  | unrecognisedNodeType (keyword : String)
  | unrecognisedKeyword (nodeType keyword : String)
  | argumentCount (keyword expected : String) (found : Nat)
  | invalidArgument (keyword : String) (fault : ArgumentFault)
  /-- The input ended before this terminator. -/
  | unexpectedEnd (terminator : String)
  /-- An error on a line of input. -/
  | onLine (line : Nat) (source : Error)
  /-- The problems found while a procedure was read. -/
  | readFailed (problems : List Error)
  | invalidValue (node keyword : String) (fault : ValueFault)
  | outOfRange (keyword : String) (value : Float) (limits : String)
  | expression (problem : Expression.Problem)
  /-- A node failed while a procedure ran. -/
  | execution (node : String) (fault : RunFault)
  /-- A stored result holds another type of data. -/
  | resultType (name group expected found : String)
  | missingResult (name group : String)
  | io (text : String)
  | serialization (text : String)
  | config (text : String)
  /-- An error and what was being done when it arose. -/
  | inContext (context : String) (source : Error)
  deriving Inhabited

/-- Broad kinds of errors. -/
inductive ErrorKind where
  | structural | parse | validation | execution | io
  deriving DecidableEq, Repr

/-- The name of a kind. -/
def ErrorKind.name : ErrorKind → String
  | structural => "Structural"
  | parse => "Parse"
  | validation => "Validation"
  | execution => "Execution"
  | io => "Io"

namespace Error

/-- **Wording of an error.** -/
def message : Error → String
  | duplicateName name => "Node name '" ++ name ++ "' is already in use"
  | unknownNode node => "Node '" ++ node ++ "' does not exist"
  | wrongContext nodeType context =>
    "Node type '" ++ nodeType ++ "' is not permitted in the " ++ context ++ " context"
  | danglingReference node keyword target =>
    "Node '" ++ node ++ "' keyword '" ++ keyword ++ "' refers to '" ++ target ++
      "', which is not in scope"
  | ownerMismatch node => "Branch of node '" ++ node ++ "' does not point back to its owner"
  | noBranch node => "Node '" ++ node ++ "' has no branch"
  | unrecognisedNodeType keyword => "Unrecognised node type '" ++ keyword ++ "'"
  | unrecognisedKeyword nodeType keyword =>
    "Unrecognised keyword '" ++ keyword ++ "' in " ++ nodeType ++ " node"
  | argumentCount keyword expected found =>
    "Keyword '" ++ keyword ++ "' expects " ++ expected ++ " argument(s) but " ++
      toString found ++ " were given"
  | invalidArgument keyword fault =>
    "Invalid argument for keyword '" ++ keyword ++ "': " ++ fault.message
  | unexpectedEnd terminator =>
    "Unexpected end of input while looking for '" ++ terminator ++ "'"
  | onLine line source => "Line " ++ toString line ++ ": " ++ source.message
  | readFailed problems =>
    "Failed to read procedure (" ++ toString problems.length ++ " problem(s))"
  | invalidValue node keyword fault => fault.errorMessage node keyword
  | outOfRange keyword value limits =>
    "Value " ++ Layout.plain.text value ++ " for keyword '" ++ keyword ++
      "' is outside the permitted range " ++ limits
  | expression problem => problem.errorMessage
  | execution node fault => "Node '" ++ node ++ "' failed: " ++ fault.message
  | resultType name group expected found =>
    "Result '" ++ name ++ "' (prefix '" ++ group ++ "') holds " ++ found ++ ", not " ++ expected
  | missingResult name group => "Result '" ++ name ++ "' (prefix '" ++ group ++ "') does not exist"
  | io text => "IO error: " ++ text
  | serialization text => "Serialization error: " ++ text
  | config text => "Configuration error: " ++ text
  | inContext context source => context ++ ": " ++ source.message

/-- The kind of an error; a wrapper has the kind of what it wraps. -/
def kind : Error → ErrorKind
  | duplicateName _ | unknownNode _ | wrongContext .. | danglingReference .. | ownerMismatch _
  | noBranch _ => .structural
  | unrecognisedNodeType _ | unrecognisedKeyword .. | argumentCount .. | invalidArgument ..
  | unexpectedEnd _ | readFailed _ => .parse
  | invalidValue .. | outOfRange .. | expression _ => .validation
  | execution .. | resultType .. | missingResult .. => .execution
  | io _ | serialization _ | config _ => .io
  | onLine _ source | inContext _ source => source.kind

/-- The error inside all line and context wrappers. -/
def rootCause : Error → Error
  | onLine _ source | inContext _ source => source.rootCause
  | e => e

/-- **The single problems an error carries.**  Failed reads are flattened, also inside a context;
an error on a line stays one problem. -/
def problems : Error → List Error
  | readFailed es => es.attach.flatMap fun ⟨e, _⟩ => e.problems
  | inContext _ source => source.problems
  | e => [e]

/-- Says on which line an error arose, unless that is known already. -/
def atLine (line : Nat) : Error → Error
  | onLine l source => onLine l source
  | e => onLine line e

/-- Says what was being done when an error arose. -/
def withContext (context : String) (e : Error) : Error := inContext context e

end Error

end SiteAnalysis
