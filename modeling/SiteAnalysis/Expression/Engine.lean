import SiteAnalysis.Expression.Evaluate
import SiteAnalysis.Expression.Parser

/-! # The expression engine

Compiles, evaluates and checks the sources of expressions within limits.

* `eval` compiles a source, keeps what it compiled for the next time, and evaluates it to a
  number.  Unknown members of a group are the unit value.
* `check` confirms that a source compiles, that every variable it names is bound and that it gives
  a number.  Its bindings hold placeholders, so failures of arithmetic are accepted.
* `validate` confirms that a source compiles.
-/

namespace SiteAnalysis.Expression

/-- **Limits of evaluation**; zero stands for no limit. -/
structure Limits where
  operations : Nat
  depth : Nat
  deriving DecidableEq, Repr

namespace Limits

/-- **Compiles a source** to the expression that is evaluated. -/
def compile (l : Limits) (source : String) : Except Fault Expr :=
  match read source with
  | .malformed _ => .error .malformed
  | .expression e =>
    if l.depth ≠ 0 ∧ l.depth < e.depth then .error .tooDeep else .ok e.settled.simplified

/-- **Compiles a source whose variables have to be bound**, without computing anything.  An unknown
variable that stands before the place where reading fails is found first. -/
def compileBound (l : Limits) (b : Bindings) (source : String) : Except Fault Expr :=
  let unbound := fun name : String => (b.value? name).isNone
  match read source with
  | .malformed named =>
    match named.find? unbound with
    | some name => .error (.unknownVariable name)
    | none => .error .malformed
  | .expression e =>
    if l.depth ≠ 0 ∧ l.depth < e.depth then .error .tooDeep
    else match e.names.find? unbound with
      | some name => .error (.unknownVariable name)
      | none => .ok e.settled

/-- Evaluates an expression, unless it takes too many steps. -/
def run (l : Limits) (mode : Mode) (b : Bindings) (e : Expr) : Except Fault Value :=
  if l.operations ≠ 0 ∧ l.operations < e.steps + 1 then .error .tooManyOperations
  else e.eval mode b

/-- **Evaluates a compiled source to a number.** -/
def evaluate (l : Limits) (source : String) (e : Expr) (b : Bindings) : Except Problem Float :=
  match l.run .lenient b e with
  | .error fault => .error (.failed source fault)
  | .ok v =>
    match v.number? with
    | some n => .ok n.toFloat
    | none => .error (.notNumber source v.kind)

/-- **Compiles and evaluates a source.** -/
def eval (l : Limits) (source : String) (b : Bindings) : Except Problem Float :=
  match l.compile source with
  | .error fault => .error (.uncompiled source fault)
  | .ok e => l.evaluate source e b

/-- **Checks a source** against bindings whose values are placeholders. -/
def check (l : Limits) (source : String) (b : Bindings) : Except Problem Unit :=
  match l.compileBound b source with
  | .error fault => .error (.refused source fault)
  | .ok e =>
    match l.run .strict b e with
    | .ok v => if v.number?.isSome then .ok () else .error (.notNumber source v.kind)
    | .error (.arithmetic _) => .ok ()
    | .error fault => .error (.refused source fault)

/-- **Confirms that a source compiles.** -/
def validate (l : Limits) (source : String) : Except Problem Unit :=
  match l.compile source with
  | .error fault => .error (.refused source fault)
  | .ok _ => .ok ()

end Limits

/-- **An engine that remembers what it compiled.** -/
structure Engine where
  limits : Limits
  /-- Compiled sources, each once. -/
  compiled : List (String × Expr)

namespace Engine

/-- An engine that has compiled nothing. -/
def ofLimits (limits : Limits) : Engine := ⟨limits, []⟩

/-- Compiles a source, or finds it among those compiled before. -/
def compile (engine : Engine) (source : String) : Except Fault Expr × Engine :=
  match engine.compiled.lookup source with
  | some e => (.ok e, engine)
  | none =>
    match engine.limits.compile source with
    | .error fault => (.error fault, engine)
    | .ok e => (.ok e, { engine with compiled := (source, e) :: engine.compiled })

/-- **Compiles and evaluates a source**, remembering it when it compiles. -/
def eval (engine : Engine) (source : String) (b : Bindings) : Except Problem Float × Engine :=
  match engine.compile source with
  | (.error fault, engine) => (.error (.uncompiled source fault), engine)
  | (.ok e, engine) => (engine.limits.evaluate source e b, engine)

/-- Checks a source.  What is checked is compiled in another way, and nothing of it is kept. -/
def check (engine : Engine) (source : String) (b : Bindings) : Except Problem Unit :=
  engine.limits.check source b

/-- Confirms that a source compiles; nothing of it is kept. -/
def validate (engine : Engine) (source : String) : Except Problem Unit :=
  engine.limits.validate source

end Engine

end SiteAnalysis.Expression
