import MathExpr.Expr.Shape

/-!
# Polynomials and their terms

A variable factor is an identifier, or a tower of powers over identifiers.  A term is built from
numbers, constant fractions, identifiers and suitable powers by products and negations, and a
polynomial is a sum of terms.  Parentheses are in no term.

* `Expr.isVariableFactor`, `Expr.isTerm`, `Expr.isPolynomial` — the three classes.
* `Expr.hasConstantBase` — powers of a number.
-/

namespace MathExpr.Expr

/-- Whether an expression is an identifier, or an identifier raised to a number or to another
variable factor. -/
def isVariableFactor : Expr → Bool
  | .identifier _ _ => true
  | .apply .pow [base, exponent] _ =>
    base.isIdentifier && (exponent.isNumber || exponent.isVariableFactor)
  | _ => false

mutual

/-- Whether an expression is a term: a number, a fraction of numbers, an identifier, a power of an
identifier or polynomial to a term, a negated term, or a product of terms. -/
def isTerm : Expr → Bool
  | .number _ => true
  | .identifier _ _ => true
  | .apply .div args _ => args.all isNumber
  | .apply .pow [base, exponent] _ => (base.isIdentifier || base.isPolynomial) && exponent.isTerm
  | .apply .neg (e :: _) _ => e.isTerm
  | .apply .mul args _ => allTerms args
  | _ => false

/-- Whether an expression is a sum of terms. -/
def isPolynomial : Expr → Bool
  | .apply .add args _ => allTerms args
  | _ => false

/-- Whether all expressions of a list are terms. -/
def allTerms : List Expr → Bool
  | [] => true
  | e :: es => e.isTerm && allTerms es

end

/-- Whether an expression is a power of a number, such as `2^x`. -/
def hasConstantBase : Expr → Bool
  | .apply .pow (base :: _) _ => base.isNumber
  | _ => false

end MathExpr.Expr
