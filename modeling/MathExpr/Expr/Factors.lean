import MathExpr.Expr.Polynomial

/-!
# Taking a term apart

A term is its coefficient times its variable factors.  Both are read off the top of the term:
negations around it are looked through, products inside products are not.

* `Expr.variableName?` — the variable of a variable factor.
* `Expr.variableFactors`, `Expr.coefficient?` — the two parts of a term.
* `Expr.sortVariables` — variable factors in the order of their variables.
-/

namespace MathExpr.Expr

/-- The variable of a variable factor: `x` for `x` and for `x^2`, without its subscript. -/
def variableName? : Expr → Option String
  | .identifier name _ => some name
  | .apply .pow (base :: _) _ => base.variableName?
  | _ => none

/-- The variable factors of a term, in the order in which they are written. -/
def variableFactors : Expr → List Expr
  | .apply .mul factors _ => factors.filter isVariableFactor
  | .apply .neg (e :: _) _ => e.variableFactors
  | e => if e.isVariableFactor then [e] else []

/-- Whether an expression is a number or a fraction of numbers. -/
def isConstant (e : Expr) : Bool :=
  e.isNumber || e.isConstantFraction

/-- The product of constant factors.  Without any it is one. -/
def constantProduct : List Expr → Expr
  | [] => ofInt 1
  | [constant] => constant
  | constants => mul constants

/-- The coefficient of a term.  A number is its own coefficient, and so is a negated one; a product
has its constant factors for a coefficient; a negation negates, and keeps its mark of subtraction.
Other shapes have none. -/
def coefficient? : Expr → Option Expr
  | .number numeral => some (.number numeral)
  | .identifier _ _ => some (ofInt 1)
  | .apply .pow _ _ => some (ofInt 1)
  | .apply .mul factors _ => some (constantProduct (factors.filter isConstant))
  | .apply .neg (e :: es) marks =>
    if e.isNumber then some (.apply .neg (e :: es) marks)
    else e.coefficient?.map fun c => neg c { subtracted := marks.subtracted }
  | _ => none

/-- The order of optional names: an absent name comes first, and names go by their characters. -/
def nameLE : Option String → Option String → Bool
  | none, _ => true
  | some _, none => false
  | some a, some b => a ≤ b

/-- Variable factors in the order of their variables.  Factors of one variable keep their order. -/
def sortVariables (factors : List Expr) : List Expr :=
  factors.mergeSort fun a b => nameLE a.variableName? b.variableName?

end MathExpr.Expr
