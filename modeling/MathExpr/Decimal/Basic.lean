/-!
# Decimals of limited size

A decimal is a sign, a mantissa below `2 ^ 96` and a scale of at most 28: the mantissa counts units
of that many places after the point.  Its scale belongs to it, so `2.50` and `2.5` are equal in
value and different as decimals.  A zero may carry a sign as well.

* `Decimal` — the decimals.
* `Decimal.neg`, `Decimal.isWhole`, `Decimal.reducedScale` — operations on them.
* `Decimal.toText` — the text of a decimal, with as many places as its scale says.
-/

namespace MathExpr

/-- The mantissas of decimals lie below this bound. -/
abbrev Decimal.mantissaLimit : Nat := Nat.pow 2 96

/-- The largest number of places after the point. -/
abbrev Decimal.maxScale : Nat := 28

/-- A decimal with a mantissa of 96 bits and at most 28 places. -/
structure Decimal where
  negative : Bool
  mantissa : Nat
  scale : Nat
  mantissa_lt : mantissa < Decimal.mantissaLimit
  scale_le : scale ≤ Decimal.maxScale
deriving DecidableEq

namespace Decimal

/-- The decimal with the opposite sign.  A zero changes its sign too. -/
def neg (x : Decimal) : Decimal :=
  { x with negative := !x.negative }

/-- The decimal with the given sign, which a zero does not take. -/
def withSign (negative : Bool) (x : Decimal) : Decimal :=
  { x with negative := negative && x.mantissa != 0 }

/-- Whether nothing but zeros would stand after the point. -/
def isWhole (x : Decimal) : Bool :=
  x.mantissa % Nat.pow 10 x.scale = 0

/-- The scale that is left of `scale` places of `mantissa` without the zeros at their end. -/
def withoutZeros (mantissa : Nat) : (scale : Nat) → Nat
  | 0 => 0
  | scale + 1 => if mantissa % 10 = 0 then withoutZeros (mantissa / 10) scale else scale + 1

/-- The smallest number of places that hold the value. -/
def reducedScale (x : Decimal) : Nat :=
  withoutZeros x.mantissa x.scale

/-- The last `count` decimal digits of `n`, with zeros in front where `n` has fewer. -/
def lastDigits (n : Nat) : (count : Nat) → List Char
  | 0 => []
  | count + 1 => lastDigits (n / 10) count ++ [Nat.digitChar (n % 10)]

/-- The characters of a decimal: a minus sign if it has one, at least one digit, and after a point
as many digits as its scale says. -/
def toChars (x : Decimal) : List Char :=
  let magnitude := Nat.toDigits 10 (x.mantissa / Nat.pow 10 x.scale)
  let places := if x.scale = 0 then [] else '.' :: lastDigits x.mantissa x.scale
  (if x.negative then ['-'] else []) ++ magnitude ++ places

/-- The text of a decimal. -/
def toText (x : Decimal) : String :=
  String.ofList x.toChars

end Decimal

end MathExpr
