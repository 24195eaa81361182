/-!
# Plain numerals

A plain numeral is a run of decimal digits with at most one point, which may come first or last.  It
has at least one digit, and neither a sign nor an exponent.  Only ASCII digits count.

* `Numeral` — the digits before and after the point.
* `Numeral.ofChars?` — reads a plain numeral, and nothing else.
* `Numeral.isWhole`, `Numeral.significantPlaces` — what its fraction digits say about its value.
* `Numeral.countedPlaces` — the significant places as far as they are counted.
-/

namespace MathExpr

/-- The digits of a plain numeral. -/
structure Numeral where
  /-- The digits before the point. -/
  integer : List (Fin 10)
  /-- The digits after the point. -/
  fraction : List (Fin 10)
deriving DecidableEq, Repr

namespace Numeral

/-- The value of a decimal digit. -/
def digit? (c : Char) : Option (Fin 10) :=
  if h : '0'.toNat ≤ c.toNat ∧ c.toNat ≤ '9'.toNat then
    some ⟨c.toNat - '0'.toNat, by have := h.2; simp at this ⊢; omega⟩
  else none

/-- The values of a run of decimal digits. -/
def digits? : List Char → Option (List (Fin 10))
  | [] => some []
  | c :: cs => do
    let d ← digit? c
    let ds ← digits? cs
    return d :: ds

/-- The number that a run of digits denotes, read from the left. -/
def digitsValue (digits : List (Fin 10)) : Nat :=
  digits.foldl (fun n d => 10 * n + d.val) 0

/-- The plain numeral that a text is. -/
def ofChars? (text : List Char) : Option Numeral := do
  let integer ← digits? (text.takeWhile (· ≠ '.'))
  let fraction ← digits? ((text.dropWhile (· ≠ '.')).drop 1)
  if integer.isEmpty && fraction.isEmpty then none else return ⟨integer, fraction⟩

/-- Whether the numeral denotes a whole number. -/
def isWhole (n : Numeral) : Bool :=
  n.fraction.all (· = 0)

/-- The number of fraction digits up to the last that is not zero. -/
def significantPlaces (n : Numeral) : Nat :=
  (n.fraction.reverse.dropWhile (· = 0)).length

/-- The significant places counted by a word of 32 bits, which starts again at zero when it is
full. -/
def countedPlaces (n : Numeral) : UInt32 :=
  n.significantPlaces.toUInt32

end Numeral

end MathExpr
