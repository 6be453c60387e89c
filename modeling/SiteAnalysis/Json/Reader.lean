import SiteAnalysis.Json.Fragment

/-! # Reading structured values

Tokens are taken one by one by a machine with a stack of open arrays and objects.  Where it cannot
go on, what it has read so far is the fragment that the text holds.
-/

namespace SiteAnalysis.Json

/-- **An open array or object** with what it holds so far, last first. -/
inductive Frame where
  | items (before : List Fragment)
  /-- An object that waits for the value of a key. -/
  | members (before : List (Option String × Fragment)) (key : Option String)

/-- What may come next. -/
inductive Expecting where
  /-- A value. -/
  | value
  /-- A value, or the end of the array just opened. -/
  | valueOrClose
  /-- A key, or the end of the object just opened. -/
  | keyOrClose
  /-- A key, behind a comma. -/
  | key (before : List (Option String × Fragment))
  /-- The colon behind a key. -/
  | colon (before : List (Option String × Fragment)) (key : Option String)
  /-- Whatever may follow a finished value. -/
  | after (finished : Fragment)

/-- **State of the reading.** -/
structure ReadState where
  stack : List Frame
  expecting : Expecting

/-- The fragment of a token that is a value of its own. -/
def Token.scalar? : Token → Option Fragment
  | value j => some (.scalar (some j))
  | valueless => some (.scalar none)
  | _ => none

/-- The key that a token stands for; the inner option is none for a key without a value. -/
def Token.key? : Token → Option (Option String)
  | value (text s) => some (some s)
  | valueless => some none
  | _ => none

namespace ReadState

/-- The state before a text. -/
def start : ReadState := ⟨[], .value⟩

/-- A value where one is expected. -/
def startValue (s : ReadState) (token : Token) : Option ReadState :=
  match token with
  | .openArray => some ⟨.items [] :: s.stack, .valueOrClose⟩
  | .openObject => some { s with expecting := .keyOrClose }
  | token => token.scalar?.map fun f => { s with expecting := .after f }

/-- A key where one is expected. -/
def takeKey (s : ReadState) (before : List (Option String × Fragment)) (token : Token) :
    Option ReadState :=
  token.key?.map fun key => { s with expecting := .colon before key }

/-- What may follow a finished value. -/
def finish (finished : Fragment) (stack : List Frame) (token : Token) : Option ReadState :=
  match stack, token with
  | .items before :: stack, .comma => some ⟨.items (finished :: before) :: stack, .value⟩
  | .items before :: stack, .closeArray =>
    some ⟨stack, .after (.items (finished :: before).reverse true)⟩
  | .members before key :: stack, .comma => some ⟨stack, .key ((key, finished) :: before)⟩
  | .members before key :: stack, .closeObject =>
    some ⟨stack, .after (.members ((key, finished) :: before).reverse true)⟩
  | _, _ => none

/-- Takes one token. -/
def step (s : ReadState) (token : Token) : Option ReadState :=
  match s.expecting, token with
  | .valueOrClose, .closeArray => some ⟨s.stack.tail, .after (.items [] true)⟩
  | .value, token | .valueOrClose, token => s.startValue token
  | .keyOrClose, .closeObject => some { s with expecting := .after (.members [] true) }
  | .keyOrClose, token => s.takeKey [] token
  | .key before, token => s.takeKey before token
  | .colon before key, .colon => some ⟨.members before key :: s.stack, .value⟩
  | .after finished, token => finish finished s.stack token
  | _, _ => none

/-- Takes tokens until one of them does not fit, and tells whether all of them did. -/
def run (s : ReadState) : List Token → ReadState × Bool
  | [] => (s, true)
  | token :: rest =>
    match s.step token with
    | some s => s.run rest
    | none => (s, false)

/-- What stands where the reading has come to. -/
def current (s : ReadState) : Fragment :=
  match s.expecting with
  | .value | .valueOrClose => .fault
  | .keyOrClose => .members [] false
  | .key before | .colon before _ => .members before.reverse false
  | .after finished => finished

/-- An open array or object that ends with a fragment. -/
def enclose (f : Fragment) : Frame → Fragment
  | .items before => .items (f :: before).reverse false
  | .members before key => .members ((key, f) :: before).reverse false

/-- All that was read. -/
def fragment (s : ReadState) : Fragment := s.stack.foldl enclose s.current

/-- Whether a value was read and nothing is open. -/
def isFinished (s : ReadState) : Bool :=
  match s with
  | ⟨[], .after _⟩ => true
  | _ => false

end ReadState

/-- **The fragment at the front of a text**, and whether it is a whole value with nothing behind
it. -/
def Fragment.ofText (source : String) : Fragment × Bool :=
  let (s, fits) := ReadState.start.run (Token.ofText source)
  (s.fragment, fits && s.isFinished)

/-- Greatest number of arrays and objects open at once. -/
def maxOpen : Nat := 127

/-- **Reads a text** as one value. -/
def read? (source : String) : Option Json :=
  match Fragment.ofText source with
  | (f, true) => f.value? maxOpen
  | (_, false) => none

end SiteAnalysis.Json
