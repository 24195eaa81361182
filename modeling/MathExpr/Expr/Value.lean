import MathExpr.Decimal.Reading
import MathExpr.Expr.Shape

/-!
# Values of numbers

Whether a number is whole is read off its digits, so it is known also of numbers that are too large,
or have too many places, for a decimal.  The value itself is a decimal, where one holds it exactly.

* `Expr.isInteger`, `Expr.isFractional` — numbers without and with a fractional part.
* `Expr.isIntegerFraction` — fractions of whole numbers.
* `Expr.value?` — the value of a number under any number of signs.
-/

namespace MathExpr.Expr

/-- Whether an expression is a number without a fractional part. -/
def isInteger (e : Expr) : Bool :=
  e.numeral?.bind Decimal.isWholeText? = some true

/-- Whether an expression is a number with a fractional part. -/
def isFractional (e : Expr) : Bool :=
  e.numeral?.bind Decimal.isWholeText? = some false

/-- Whether an expression is a fraction with whole numbers for operands. -/
def isIntegerFraction (e : Expr) : Bool :=
  e.isFraction && e.operands.all isInteger

/-- The value of a numeral under any number of plus and minus signs.  Each minus sign turns the sign
of the value over, also that of a zero. -/
def value? : Expr → Option Decimal
  | .number numeral => Decimal.ofText? numeral
  | .apply .neg (e :: _) _ => e.value?.map Decimal.neg
  | .apply .pos (e :: _) _ => e.value?
  | _ => none

end MathExpr.Expr
