import SiteAnalysis.Expression.Literal
import SiteAnalysis.Expression.Token

/-! # From tokens to expressions

A parser by descent, with one level for each precedence.  From tight to loose: properties and
calls; the signs `+ - !`; `**`, which groups to the right; `* / %`; `+ -`; the orderings; `==`
and `!=`; `&&`; `||`.  All but `**` group to the left.

Every parser gives the tokens behind what it has read; on failure it gives the tokens from the
place of the failure on.
-/

namespace SiteAnalysis.Expression

namespace Parser

/-- What a parsing step gives: a value, or the tokens where it failed. -/
abbrev Step (α : Type) := Except (List Token) α

/-- Levels of the operators that group to the left, from loose to tight. -/
inductive Level where
  | either | both | equality | ordering | sum | product
  deriving DecidableEq, Repr

/-- The level below which the operands of a level are found; none for the tightest. -/
def Level.tighter : Level → Option Level
  | either => some .both
  | both => some .equality
  | equality => some .ordering
  | ordering => some .sum
  | sum => some .product
  | product => none

/-- How an operator of a level joins its operands; none if the symbol is no operator of it. -/
def Level.join? : Level → Symbol → Option (Expr → Expr → Expr)
  | either, .either => some (.logic .either)
  | both, .both => some (.logic .both)
  | equality, .equal => some (.binary .equal)
  | equality, .notEqual => some (.binary .notEqual)
  | ordering, .less => some (.binary .less)
  | ordering, .lessEqual => some (.binary .lessEqual)
  | ordering, .greater => some (.binary .greater)
  | ordering, .greaterEqual => some (.binary .greaterEqual)
  | sum, .plus => some (.binary .add)
  | sum, .minus => some (.binary .subtract)
  | product, .times => some (.binary .multiply)
  | product, .divide => some (.binary .divide)
  | product, .modulo => some (.binary .modulo)
  | _, _ => none

/-- Whether the operators of a level take truth values only. -/
def Level.wantsTruth : Level → Bool
  | either | both => true
  | _ => false

/-- The expression a word stands for when no call follows it. -/
def word? (name : String) : Option Expr :=
  if name == "true" then some (.bool true)
  else if name == "false" then some (.bool false)
  else if Token.reserved.contains name then none
  else some (.var name)

/-- Whether a word may be called. -/
def mayBeCalled (name : String) : Bool :=
  !Token.reserved.contains name || Token.callable.contains name

mutual

/-- A number, text, word, call, array or an expression in parentheses. -/
def primary : Nat → List Token → Step (Expr × List Token)
  | 0, ts => .error ts
  | fuel + 1, ts =>
    match ts with
    | .int n :: rest => .ok (.int n, rest)
    | .float x :: rest => .ok (.float x, rest)
    | .text s :: rest => .ok (.text s, rest)
    | .char c :: rest => .ok (.char c, rest)
    | .name f :: .symbol .leftParen :: rest =>
      if mayBeCalled f then do
        let (es, rest) ← items fuel .rightParen rest
        .ok (.call f es, rest)
      else .error ts
    | .name x :: rest =>
      match word? x with
      | some e => .ok (e, rest)
      | none => .error ts
    | .symbol .leftParen :: .symbol .rightParen :: rest => .ok (.unit, rest)
    | .symbol .leftParen :: rest => do
      let (e, rest) ← expression fuel rest
      match rest with
      | .symbol .rightParen :: rest => .ok (.group e, rest)
      | rest => .error rest
    | .symbol .leftBracket :: rest => do
      let (es, rest) ← items fuel .rightBracket rest
      .ok (.array es, rest)
    | ts => .error ts

/-- Expressions separated by commas, up to a closing symbol; a comma may stand behind the last. -/
def items : Nat → Symbol → List Token → Step (List Expr × List Token)
  | 0, _, ts => .error ts
  | fuel + 1, close, ts =>
    match ts with
    | .symbol s :: rest =>
      if s = close then .ok ([], rest) else someItems fuel close ts
    | ts => someItems fuel close ts

/-- At least one expression, and more behind commas, up to a closing symbol. -/
def someItems : Nat → Symbol → List Token → Step (List Expr × List Token)
  | 0, _, ts => .error ts
  | fuel + 1, close, ts => do
    let (e, rest) ← expression fuel ts
    match rest with
    | .symbol .comma :: rest => do
      let (es, rest) ← items fuel close rest
      .ok (e :: es, rest)
    | .symbol s :: behind => if s = close then .ok ([e], behind) else .error rest
    | rest => .error rest

/-- Properties and method calls behind an expression.  A method call is a call with the expression
as its first argument. -/
def postfixes : Nat → Expr → List Token → Step (Expr × List Token)
  | 0, _, ts => .error ts
  | fuel + 1, e, ts =>
    match ts with
    | .symbol .dot :: .name f :: .symbol .leftParen :: rest =>
      if mayBeCalled f then do
        let (es, rest) ← items fuel .rightParen rest
        postfixes fuel (.call f (e :: es)) rest
      else .error ts
    | .symbol .dot :: .name x :: rest =>
      if Token.reserved.contains x then .error ts else postfixes fuel (.property e x) rest
    | .symbol .dot :: rest => .error rest
    | ts => .ok (e, ts)

/-- An expression behind any number of signs. -/
def signed : Nat → List Token → Step (Expr × List Token)
  | 0, ts => .error ts
  | fuel + 1, ts =>
    match ts with
    | .symbol .plus :: rest => do
      let (e, rest) ← signed fuel rest
      .ok (.unary .plus e, rest)
    | .symbol .minus :: rest => do
      let (e, rest) ← signed fuel rest
      .ok (.unary .minus e, rest)
    | .symbol .negation :: rest => do
      let (e, rest) ← signed fuel rest
      .ok (.unary .negation e, rest)
    | ts => do
      let (e, rest) ← primary fuel ts
      postfixes fuel e rest

/-- A power; its exponent may be a power in turn. -/
def power : Nat → List Token → Step (Expr × List Token)
  | 0, ts => .error ts
  | fuel + 1, ts => do
    let (base, rest) ← signed fuel ts
    match rest with
    | .symbol .power :: rest => do
      let (exponent, rest) ← power fuel rest
      .ok (.binary .power base exponent, rest)
    | rest => .ok (base, rest)

/-- An operand of a level. -/
def operand : Nat → Level → List Token → Step (Expr × List Token)
  | 0, _, ts => .error ts
  | fuel + 1, level, ts =>
    match level.tighter with
    | none => power fuel ts
    | some tighter => chain fuel tighter ts

/-- Operands of a level joined by its operators, from the left. -/
def chain : Nat → Level → List Token → Step (Expr × List Token)
  | 0, _, ts => .error ts
  | fuel + 1, level, ts => do
    let (e, rest) ← operand fuel level ts
    continued fuel level e rest

/-- The operators and operands of a level behind its first operand.  An operand that is no truth
value by its form is refused where one is wanted. -/
def continued : Nat → Level → Expr → List Token → Step (Expr × List Token)
  | 0, _, _, ts => .error ts
  | fuel + 1, level, e, ts =>
    match ts with
    | .symbol s :: rest =>
      match level.join? s with
      | some join => do
        let (e', rest) ← operand fuel level rest
        if level.wantsTruth && (e.isNeverTruth || e'.isNeverTruth) then .error rest
        else continued fuel level (join e e') rest
      | none => .ok (e, ts)
    | ts => .ok (e, ts)

/-- An expression. -/
def expression : Nat → List Token → Step (Expr × List Token)
  | 0, ts => .error ts
  | fuel + 1, ts => chain fuel .either ts

end

/-- Fuel for a list of tokens.  Between one token and the next a parser descends at most through
all levels and the parsers of signs, primaries and items. -/
def fuelFor (ts : List Token) : Nat := 32 * (ts.length + 1)

/-- **Parses a whole list of tokens.** -/
def parse (ts : List Token) : Except (List Token) Expr := do
  let (e, rest) ← expression (fuelFor ts) ts
  match rest with
  | [] => .ok e
  | rest => .error rest

/-- The variables named by tokens that were read before a failure: the names that are neither
called nor a property. -/
def variablesIn : List Token → List String
  | .symbol .dot :: .name _ :: rest => variablesIn rest
  | .name _ :: .symbol .leftParen :: rest => variablesIn rest
  | .name x :: rest => if Token.reserved.contains x then variablesIn rest else x :: variablesIn rest
  | _ :: rest => variablesIn rest
  | [] => []

end Parser

/-- **Outcome of reading a source**: an expression, or the variables named before the place where
reading failed. -/
inductive Parsed where
  | expression (e : Expr)
  | malformed (named : List String)

/-- **Reads an expression.** -/
def read (source : String) : Parsed :=
  let ts := Token.ofChars source.toList
  match Parser.parse ts with
  | .ok e => .expression e
  | .error rest => .malformed (Parser.variablesIn (ts.take (ts.length - rest.length)))

end SiteAnalysis.Expression
