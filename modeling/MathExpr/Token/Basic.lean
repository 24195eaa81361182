/-!
# Tokens

The text of an expression is grouped into tokens: signs, relation symbols, numerals, and words.  A
word is a whole run of letters; whether it names a function or lists one-letter variables is decided
when tokens are read as an expression, so a word keeps its letters apart.

* `Token` — the tokens.
* `Token.ofChar?` — the tokens that are a single fixed character.
* `Token.spelling` — the characters that a token stands for.
-/

namespace MathExpr

/-- A token of expression text. -/
inductive Token
  | plus
  | minus
  | times
  | slash
  | caret
  /-- A factorial sign, that is a `!` that no `=` follows. -/
  | bang
  /-- The sign in front of a subscript. -/
  | underscore
  | leftParen
  | rightParen
  /-- The sign of an absolute value, which opens and closes it. -/
  | bar
  | comma
  /-- A relation symbol, such as `<=`. -/
  | relation (symbol : String)
  /-- A numeral, as the text it was written with. -/
  | number (numeral : String)
  /-- A run of letters. -/
  | word (letters : List Char)
deriving DecidableEq, Repr

namespace Token

/-- The token that a character is all by itself, whatever follows it.  A `!` is none of these, since
an `=` after it makes it part of a relation. -/
def ofChar? : Char → Option Token
  | '+' => some .plus
  | '-' => some .minus
  | '*' => some .times
  | '/' => some .slash
  | '^' => some .caret
  | '_' => some .underscore
  | '(' => some .leftParen
  | ')' => some .rightParen
  | '|' => some .bar
  | ',' => some .comma
  | _ => none

/-- The characters that a token stands for. -/
def spelling : Token → List Char
  | .plus => ['+']
  | .minus => ['-']
  | .times => ['*']
  | .slash => ['/']
  | .caret => ['^']
  | .bang => ['!']
  | .underscore => ['_']
  | .leftParen => ['(']
  | .rightParen => [')']
  | .bar => ['|']
  | .comma => [',']
  | .relation symbol => symbol.toList
  | .number numeral => numeral.toList
  | .word letters => letters

end Token

end MathExpr
