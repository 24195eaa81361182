import MathExpr.Phrase.Reading
import MathExpr.Token.Scan

/-!
# Reading expressions

A reader stands somewhere in a list of tokens and reads the expression that starts there.  The whole
rest of the tokens has to be that expression.  Whatever comes of it, the reader moves on to where
reading stopped, and the words whose letters were taken one at a time are changed in its list.

* `Reader`, `Reader.readExpr` — a reader and one attempt to read.
* `Expr.ofTokens`, `Expr.parse` — the expression that a list of tokens, or a text, is as a whole.
-/

namespace MathExpr

/-- A position in a list of tokens.  It may lie beyond the end. -/
structure Reader where
  tokens : List Token
  index : Nat := 0

namespace Reader

/-- The tokens from the position on. -/
def ahead (r : Reader) : List Token :=
  r.tokens.drop r.index

/-- The reader after an outcome that started at its position. -/
def advance (r : Reader) (o : Outcome) : Reader where
  tokens := r.tokens.take r.index ++ o.trail ++ o.rest
  index := r.index + o.trail.length

/-- Reads the rest of the tokens as one expression. -/
def readExpr (r : Reader) : Except ReadError Expr × Reader :=
  let o := Phrase.relation.read r.ahead
  let result := do
    let e ← o.result
    if o.rest.isEmpty then return e else throw .trailingTokens
  (result, r.advance o)

end Reader

namespace Expr

/-- The expression that a list of tokens is. -/
def ofTokens (tokens : List Token) : Except ReadError Expr :=
  (Reader.readExpr { tokens }).1

/-- The expression that a text is. -/
def parse (text : String) : Except ReadError Expr := do
  ofTokens (← Token.ofText text)

end Expr

end MathExpr
