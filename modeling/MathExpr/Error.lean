/-!
# Reasons for refusing a text

A text is refused while its characters are grouped into tokens, or while its tokens are read as an
expression.  Both stages answer with the cause; its wording for people is fixed here, once.

* `ReadError` — the causes.
* `ReadError.message` — the wording of each.
-/

namespace MathExpr

/-- Why a text, or a list of tokens, is not an expression. -/
inductive ReadError
  /-- The character can begin no token. -/
  | unexpectedCharacter (c : Char)
  /-- A run of digits has a second decimal point. -/
  | malformedNumber
  /-- A number, an identifier or a group had to stand here. -/
  | expectedOperand
  /-- A parenthesis or a bar is not closed. -/
  | unclosedGroup
  /-- An expression ended before its tokens did. -/
  | trailingTokens
deriving DecidableEq, Repr

/-- The sentence shown for an error. -/
def ReadError.message : ReadError → String
  | .unexpectedCharacter c => "unexpected character '" ++ String.singleton c ++ "'"
  | .malformedNumber => "malformed number"
  | .expectedOperand => "expected a number, identifier or group"
  | .unclosedGroup => "unclosed parentheses or absolute value"
  | .trailingTokens => "unexpected tokens at end of input"

end MathExpr
