/-! # What can be wrong with an expression

The causes for which an expression is refused or its evaluation fails, and their wording.
-/

namespace SiteAnalysis.Expression

/-- Failures of arithmetic on integers of 64 bits. -/
inductive ArithmeticFault where
  | divisionByZero
  | overflow
  | negativePower
  deriving DecidableEq, Repr

/-- **Causes of failure.** -/
inductive Fault where
  /-- The text is no expression. -/
  | malformed
  /-- The text nests deeper than the engine allows. -/
  | tooDeep
  /-- A name stands for no variable. -/
  | unknownVariable (name : String)
  /-- A value has no property of this name. -/
  | absentProperty (name : String)
  /-- No function or operator of this name takes arguments of these kinds. -/
  | noFunction (name : String) (arguments : List String)
  /-- The evaluation takes more steps than the engine allows. -/
  | tooManyOperations
  /-- Integer arithmetic failed. -/
  | arithmetic (fault : ArithmeticFault)
  /-- An operand of `&&` or `||` is no truth value. -/
  | notTruthValue (found : String)
  deriving DecidableEq, Repr

/-- Wording of a failure of arithmetic. -/
def ArithmeticFault.message : ArithmeticFault → String
  | divisionByZero => "Division by zero"
  | overflow => "Arithmetic overflow"
  | negativePower => "Integer raised to a negative power"

/-- Wording of a cause. -/
def Fault.message : Fault → String
  | malformed => "Malformed expression"
  | tooDeep => "Expression exceeds the permitted depth"
  | unknownVariable name => "Variable not found: " ++ name
  | absentProperty name => "Property not found: " ++ name
  | noFunction name arguments =>
    "Function not found: " ++ name ++ " (" ++ String.intercalate ", " arguments ++ ")"
  | tooManyOperations => "Too many operations"
  | arithmetic fault => fault.message
  | notTruthValue found => "Expected a truth value, found " ++ found

/-- **Outcome of an expression that did not give a number.** -/
inductive Problem where
  /-- The source could not be compiled for evaluation. -/
  | uncompiled (source : String) (fault : Fault)
  /-- Evaluation of a compiled source failed. -/
  | failed (source : String) (fault : Fault)
  /-- A check refused the source. -/
  | refused (source : String) (fault : Fault)
  /-- The value is of a kind other than a number. -/
  | notNumber (source : String) (kind : String)
  /-- A minimisation ended at a cost that is no finite number. -/
  | unboundedCost
  /-- Any other problem, in words. -/
  | other (text : String)

/-- Wording of a problem. -/
def Problem.message : Problem → String
  | uncompiled source fault => "failed to compile '" ++ source ++ "': " ++ fault.message
  | failed source fault => "failed to evaluate '" ++ source ++ "': " ++ fault.message
  | refused source fault => "'" ++ source ++ "': " ++ fault.message
  | notNumber source kind => "'" ++ source ++ "' did not evaluate to a number (got " ++ kind ++ ")"
  | unboundedCost => "cost function did not produce a finite value"
  | other text => text

end SiteAnalysis.Expression
