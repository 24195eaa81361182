import MathExpr.Expr.Description
import MathExpr.Expr.Polynomial

/-!
# Degrees

The degree of a term in one variable is an expression, since an exponent may be one.  Of a product
it is the degree of the second factor, and of a negation the second operand of what is negated; a
negated expression with fewer operands is refused.

* `DegreeError`, `DegreeError.message` — the refusal.
* `Expr.degree` — the degree, or none for other shapes.
-/

namespace MathExpr

/-- Why an expression has no degree, although its shape promised one. -/
inductive DegreeError
  /-- The negated expression has no second operand that could be an exponent. -/
  | noExponent (negated : Expr)

/-- The sentence shown for a refusal. -/
def DegreeError.message : DegreeError → String
  | .noExponent negated => "cannot get the degree of negated node " ++ negated.describe

namespace Expr

/-- The degree of a term in one variable, such as `2` for `6x^2`. -/
def degree : Expr → Except DegreeError (Option Expr)
  | .number _ => .ok (some (ofInt 0))
  | .identifier _ _ => .ok (some (ofInt 1))
  | .apply .add args marks =>
    if isPolynomial (.apply .add args marks) then .ok (some (ofInt 1)) else .ok none
  | .apply .pow args _ => .ok args[1]?
  | .apply .mul (_ :: second :: _) _ => second.degree
  | .apply .neg (e :: _) _ =>
    if e.isNumber then .ok (some (ofInt 0))
    else match e.operands[1]? with
      | some exponent => .ok (some exponent)
      | none => .error (.noExponent e)
  | _ => .ok none

end Expr

end MathExpr
