import MathExpr.Expr.Equality

/-!
# Shapes of expressions

Tests of what stands at the root of an expression, some of them under any number of negations.  None
of them can fail: an expression of another shape, or with too few operands, answers no.

* `Expr.isIdentifier`, `Expr.isApplication`, `Expr.isCall`, `Expr.isParens`, `Expr.hasHead`,
  `Expr.isOp`, `Expr.isRelation` — what stands at the root.
* `Expr.numeral?`, `Expr.isNumber` — numerals, perhaps negated.
* `Expr.isFraction`, `Expr.numerator?`, `Expr.denominator?` — fractions, perhaps negated.
* `Expr.isJuxtaposed` — products without signs between their factors, perhaps negated.
-/

namespace MathExpr.Expr

/-! ## The root -/

/-- Whether an expression is an identifier. -/
def isIdentifier : Expr → Bool
  | .identifier _ _ => true
  | _ => false

/-- Whether an expression applies something, be it an operator or a function. -/
def isApplication : Expr → Bool
  | .apply _ _ _ => true
  | .call _ _ _ _ => true
  | _ => false

/-- Whether an expression is a call of a named function. -/
def isCall : Expr → Bool
  | .call _ _ _ _ => true
  | _ => false

/-- Whether an expression is in parentheses. -/
def isParens : Expr → Bool
  | .parens _ => true
  | _ => false

/-- Whether an expression applies exactly `head`. -/
def hasHead (head : Head) (e : Expr) : Bool :=
  e.head? = some head

/-- Whether an expression applies the operator `op`. -/
def isOp (op : Operator) : Expr → Bool
  | .apply op' _ _ => op = op'
  | _ => false

/-- Whether an expression is a relation. -/
def isRelation : Expr → Bool
  | .apply op _ _ => op.isRelation
  | _ => false

/-! ## Under negations -/

/-- The text of a numeral, under any number of negations. -/
def numeral? : Expr → Option String
  | .number numeral => some numeral
  | .apply .neg (e :: _) _ => e.numeral?
  | _ => none

/-- Whether an expression is a numeral under any number of negations.  A plus sign in front makes it
none. -/
def isNumber (e : Expr) : Bool :=
  e.numeral?.isSome

/-- Whether an expression applies something and is not a negated number. -/
def isOperation (e : Expr) : Bool :=
  e.isApplication && !e.isNumber

/-- Whether an expression is a fraction under any number of negations. -/
def isFraction : Expr → Bool
  | .apply .div _ _ => true
  | .apply .neg (e :: _) _ => e.isFraction
  | _ => false

/-- Whether an expression is a fraction with numbers for operands.  Only the operands of the
expression itself are asked, so a negated fraction is none of these. -/
def isConstantFraction (e : Expr) : Bool :=
  e.isFraction && e.operands.all isNumber

/-- The numerator of a fraction.  The negations around the fraction are not carried over to it. -/
def numerator? : Expr → Option Expr
  | .apply .div args _ => args[0]?
  | .apply .neg (e :: _) _ => e.numerator?
  | _ => none

/-- The denominator of a fraction. -/
def denominator? : Expr → Option Expr
  | .apply .div args _ => args[1]?
  | .apply .neg (e :: _) _ => e.denominator?
  | _ => none

/-- Whether an expression is a product without signs, under any number of negations. -/
def isJuxtaposed : Expr → Bool
  | .apply .mul _ marks => marks.juxtaposed
  | .apply .neg (e :: _) _ => e.isJuxtaposed
  | _ => false

end MathExpr.Expr
