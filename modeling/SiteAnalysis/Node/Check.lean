import SiteAnalysis.Node.Basic
import SiteAnalysis.Text.Blank

/-! # Checking the expressions of a node

Before a procedure runs, the expressions of its nodes are tried with the variables in scope.  A
fit has an equation instead, which may use its own variables as well.
-/

namespace SiteAnalysis

namespace Node

/-- The equation of a node, which must not be blank. -/
def equation (n : Node) : Except Error String :=
  let equation := n.keywords.text "Equation"
  if (trim equation).isEmpty then .error (.invalidValue n.name "Equation" .noEquation)
  else .ok equation

/-- The starting values of the variables. -/
def startingValues (n : Node) : List Float := (n.keywords.targets "Fit").map Prod.snd

/-- **The variables of the equation**: `x`, the fitted variables and the constants hide what else
is in scope. -/
def equationBindings (n : Node) (x : Float) (values : List Float) (scope : Expression.Bindings) :
    Expression.Bindings :=
  let b := Expression.Bindings.empty.bind none "x" (.float x)
  let b := (List.zip (n.keywords.targets "Fit") values).foldl
    (fun b ((name, _), value) => b.bind none name (.float value)) b
  let b := (n.keywords.targets "Constant").foldl
    (fun b (name, value) => b.bind none name (.float value)) b
  b.extend scope

/-- Checks the equation of a node. -/
def checkEquation (n : Node) (limits : Expression.Limits) (scope : Expression.Bindings) :
    Except Error Unit := do
  let equation ← n.equation
  match limits.check equation (n.equationBindings 0.0 n.startingValues scope) with
  | .ok () => return ()
  | .error problem => throw (.invalidValue n.name "Equation" (.expression problem))

/-- Checks the scalars of a node. -/
def checkScalars (n : Node) (limits : Expression.Limits) (scope : Expression.Bindings) :
    Except Error Unit :=
  n.keywords.scalars.forM fun (keyword, v) =>
    match v.check limits scope with
    | .ok () => .ok ()
    | .error problem => .error (.invalidValue n.name keyword (.expression problem))

/-- **Checks the expressions of a node.** -/
def check (n : Node) (limits : Expression.Limits) (scope : Expression.Bindings) :
    Except Error Unit :=
  match n.kind with
  | .fit _ _ => n.checkEquation limits scope
  | _ => n.checkScalars limits scope

/-- Whether the branch of a node is that of the node. -/
def ownsBranch (n : Node) : Bool :=
  match n.branch with
  | some level => level.owner == some n.id
  | none => true

end Node

end SiteAnalysis
