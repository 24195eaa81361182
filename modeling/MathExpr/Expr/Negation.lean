import MathExpr.Expr.Factors

/-!
# Turning the sign of an expression

An expression is negated in the way a person would write it: a negation loses its sign, a fraction
turns the sign of its numerator, and a product with a negative coefficient makes it positive and
puts it in front.  Other terms, and sums, get a minus sign.

* `Expr.negate?` — the expression with the opposite sign, or none where no rule applies.
-/

namespace MathExpr.Expr

/-- A term with the opposite sign.  A product with a negative coefficient among its factors
exchanges it for its positive, which comes first, and keeps the other factors in their order. -/
def negateTerm? (term : Expr) : Option Expr := do
  let coefficient ← term.coefficient?
  match coefficient, term with
  | .apply .neg args _, .apply .mul factors marks =>
    if coefficient ∈ factors then
      let positive ← args.head?
      return .apply .mul (positive :: factors.erase coefficient) { juxtaposed := marks.juxtaposed }
    else return neg term
  | _, _ => return neg term

/-- The expression with the opposite sign. -/
def negate? : Expr → Option Expr
  | .apply .neg args _ => args.head?
  | .apply .add terms marks => some (neg (.apply .add terms marks))
  | .apply .div (numerator :: denominator :: _) _ =>
    numerator.negate?.map fun numerator => div numerator denominator
  | .apply .div _ _ => none
  | e => if e.isTerm then negateTerm? e else none

end MathExpr.Expr
