import MathExpr.Decimal.Basic
import MathExpr.Numeral
import MathExpr.Text.WhiteSpace

/-!
# Reading decimals

A decimal takes the digits of a numeral from the left as long as they fit.  The first fraction digit
that does not fit rounds what was taken, and the digits after it are ignored; integer digits have to
fit.  A plain numeral is then accepted only if it has as many significant places as what was taken
of it.  They are counted by a word of 32 bits, so nothing of its value was lost then, unless there
are so many of them that the count starts again.  A numeral with an exponent goes another way: its
significand may be signed, grouped by underscores and rounded, and the exponent moves the point.
Underscores are skipped, but where a group ends with the last place that a decimal has, nothing
after it rounds: only a mantissa that has outgrown a word is rounded across the end of a group.

* `Decimal.rounded?` — a numeral as the decimal next to it.
* `Decimal.ofPlain?` — a numeral as the decimal that its places do not tell from it.
* `Decimal.ofSignificand?` — the part of a numeral in front of its exponent.
* `Decimal.ofScientific?` — a numeral with an exponent.
* `Decimal.ofText?` — either, with white space around it.
-/

namespace MathExpr.Decimal

/-- Rounds by the first digit that does not fit, a five upwards.  If that exceeds the largest
mantissa, one place is given up. -/
def roundBy (d : Fin 10) (x : Decimal) : Option Decimal :=
  if d.val < 5 then some x
  else if h : x.mantissa + 1 < mantissaLimit then
    some ⟨x.negative, x.mantissa + 1, x.scale, h, x.scale_le⟩
  else if x.scale = 0 then none
  else
    have := x.mantissa_lt
    have := x.scale_le
    some ⟨x.negative, (x.mantissa + 5) / 10, x.scale - 1, by omega, by omega⟩

/-- Takes fraction digits as long as they fit, and rounds by the first that does not. -/
def appendPlaces (x : Decimal) : List (Fin 10) → Option Decimal
  | [] => some x
  | d :: ds =>
    if h : x.scale < maxScale ∧ 10 * x.mantissa + d < mantissaLimit then
      appendPlaces ⟨x.negative, 10 * x.mantissa + d, x.scale + 1, h.2, h.1⟩ ds
    else roundBy d x

/-- The decimal next to a numeral. -/
def rounded? (n : Numeral) : Option Decimal :=
  let magnitude := Numeral.digitsValue n.integer
  if h : magnitude < mantissaLimit then
    appendPlaces ⟨false, magnitude, 0, h, Nat.zero_le _⟩ n.fraction
  else none

/-- The decimal next to a numeral, if its places are as many as those counted of the numeral.
Rounding shows in their number. -/
def ofPlain? (n : Numeral) : Option Decimal := do
  let x ← rounded? n
  if x.reducedScale = n.countedPlaces.toNat then return x else none

/-! ## Exponents -/

/-- A text without its sign, and whether that is a minus. -/
def splitSign : List Char → Bool × List Char
  | '-' :: text => (true, text)
  | '+' :: text => (false, text)
  | text => (false, text)

/-- Whether an underscore stands directly after the first `count` digits of a text. -/
def groupEndsAfter : (count : Nat) → List Char → Bool
  | 0, text => text.head? = some '_'
  | _ + 1, [] => false
  | count + 1, c :: text => groupEndsAfter (if c.isDigit then count else count + 1) text

/-- A digit appended to a mantissa below this bound leaves it within a word of 64 bits, with room to
spare. -/
def wordBound : Nat := (Nat.pow 2 64 - 1) / 10 - 255

/-- Whether the digits of a significand end with the last place that a decimal has: a group ends
there, and the mantissa was within a word when that place was taken. -/
def endsAtLastPlace (n : Numeral) (text : List Char) : Bool :=
  groupEndsAfter maxScale ((text.dropWhile (· ≠ '.')).drop 1) &&
    Numeral.digitsValue (n.integer ++ n.fraction.take (maxScale - 1)) < wordBound

/-- Reads a significand: a numeral with an optional sign, and with underscores anywhere after its
first digit.  What is ignored behind the digits that fit has to be digits all the same. -/
def ofSignificand? (text : List Char) : Option Decimal := do
  let (negative, digits) := splitSign text
  if '_' ∈ digits.takeWhile (!·.isDigit) then none
  else
    let n ← Numeral.ofChars? (digits.filter (· ≠ '_'))
    let fraction := if endsAtLastPlace n digits then n.fraction.take maxScale else n.fraction
    let x ← rounded? ⟨n.integer, fraction⟩
    return x.withSign negative

/-- Reads an unsigned exponent, in front of which a plus sign may stand. -/
def magnitude? (text : List Char) : Option Nat := do
  let digits ← Numeral.digits? (if text.head? = some '+' then text.tail else text)
  if digits.isEmpty then none else return Numeral.digitsValue digits

/-- Moves the point to the left, as far as there are places for it. -/
def shiftLeft? (x : Decimal) (places : Nat) : Option Decimal :=
  if h : x.scale + places ≤ maxScale then
    some ⟨x.negative, x.mantissa, x.scale + places, x.mantissa_lt, h⟩
  else none

/-- Moves the point to the right.  Once there are no places left, zeros are appended. -/
def shiftRight? (x : Decimal) (places : Nat) : Option Decimal :=
  if places ≤ x.scale then
    some ⟨x.negative, x.mantissa, x.scale - places, x.mantissa_lt,
      Nat.le_trans (Nat.sub_le _ _) x.scale_le⟩
  else if h : x.mantissa * Nat.pow 10 (places - x.scale) < mantissaLimit then
    some ⟨x.negative, x.mantissa * Nat.pow 10 (places - x.scale), 0, h, Nat.zero_le _⟩
  else none

/-- Moves the point as an exponent says.  No exponent is larger than the largest scale. -/
def applyExponent? (x : Decimal) (exponent : List Char) : Option Decimal :=
  match exponent with
  | '-' :: text => do
    let places ← magnitude? text
    if places ≤ maxScale then x.shiftLeft? places else none
  | text => do
    let places ← magnitude? text
    if places ≤ maxScale then x.shiftRight? places else none

/-- Whether a character introduces an exponent. -/
def isExponentMark (c : Char) : Bool :=
  c == 'e' || c == 'E'

/-- Reads a numeral with an exponent, which starts at the first exponent mark. -/
def ofScientific? (text : List Char) : Option Decimal := do
  let x ← ofSignificand? (text.takeWhile (!isExponentMark ·))
  x.applyExponent? ((text.dropWhile (!isExponentMark ·)).drop 1)

/-! ## Numerals of either kind -/

/-- The decimal that a numeral denotes, with white space around it dropped. -/
def ofText? (text : String) : Option Decimal :=
  let text := Text.trim text.toList
  if text.any isExponentMark then ofScientific? text
  else do ofPlain? (← Numeral.ofChars? text)

/-- Whether a numeral denotes a whole number, or nothing if the text is no numeral.  The digits of a
plain numeral tell even where it is too large for a decimal. -/
def isWholeText? (text : String) : Option Bool :=
  let text := Text.trim text.toList
  if text.any isExponentMark then (ofScientific? text).map isWhole
  else (Numeral.ofChars? text).map Numeral.isWhole

end MathExpr.Decimal
