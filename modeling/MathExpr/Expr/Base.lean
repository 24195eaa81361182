import MathExpr.Expr.Printing

/-!
# Expressions with the same base

Two expressions share a base if they print alike, if one is a power of the other, or if both are
powers of one expression.  Expressions are compared by what a printer makes of them.

* `Expr.base?` — the base of a power.
* `Expr.hasSameBase` — the comparison.
-/

namespace MathExpr.Expr

/-- What is raised in a power. -/
def base? : Expr → Option Expr
  | .apply .pow args _ => args.head?
  | _ => none

/-- Whether two expressions share a base, as far as `print` tells expressions apart. -/
def hasSameBase (print : Printer) (a b : Expr) : Bool :=
  let baseOfA := a.base?.map print
  let baseOfB := b.base?.map print
  print a = print b || baseOfA = some (print b) || baseOfB = some (print a) ||
    baseOfA.isSome && baseOfA = baseOfB

end MathExpr.Expr
