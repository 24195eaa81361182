import MathExpr.Expr.Basic
import MathExpr.Token.Basic

/-!
# Phrases

The tokens of an expression are read phrase by phrase, from relations, which bind loosest, down to
single operands.  A phrase that repeats, such as the terms of a sum, has a companion for what
follows its first part; the companion carries the parts already read.

* `RelationChain` — the sides of a relation read so far.
* `Phrase` — the phrases.
* `Phrase.startsOperand` — where the next factor of a product without signs begins.
* `Token.weigh`, `Phrase.rank`, `Phrase.grace` — the measure that every step of reading lowers.
-/

namespace MathExpr

/-- The sides of a relation read so far.  Equal symbols chain, so `a < b < c` is one relation with
three sides; another symbol starts a new relation with the whole of the old one on its left. -/
inductive RelationChain
  /-- A first side that no relation symbol has followed yet. -/
  | single (side : Expr)
  /-- Two or more sides under one symbol. -/
  | linked (symbol : String) (sides : List Expr)

namespace RelationChain

/-- The relation with the symbol `symbol` between the given sides. -/
def relation (symbol : String) (sides : List Expr) : Expr :=
  .relate (.ofRelationSymbol symbol) sides

/-- The chain after one more symbol and side. -/
def extend : RelationChain → (symbol : String) → (side : Expr) → RelationChain
  | .single first, symbol, side => .linked symbol [first, side]
  | .linked previous sides, symbol, side =>
    if previous = symbol then .linked symbol (sides ++ [side])
    else .linked symbol [relation previous sides, side]

/-- The expression that a finished chain stands for. -/
def toExpr : RelationChain → Expr
  | .single side => side
  | .linked symbol sides => relation symbol sides

end RelationChain

/-- What can be read from a list of tokens. -/
inductive Phrase
  /-- Sums between relation symbols. -/
  | relation
  /-- What follows the sides of `chain`. -/
  | relationRest (chain : RelationChain)
  /-- Products between plus and minus signs. -/
  | sum
  /-- What follows the given terms. -/
  | sumRest (terms : List Expr)
  /-- Signed factors between multiplication and division signs. -/
  | product
  /-- What follows the given factors.  A division sign makes one factor of all of them. -/
  | productRest (factors : List Expr)
  /-- A product without signs, under any number of plus and minus signs. -/
  | signed
  /-- Powers side by side. -/
  | juxtaposition
  /-- What follows the given factors. -/
  | juxtapositionRest (factors : List Expr)
  /-- A base, perhaps with an exponent. -/
  | power
  /-- The exponent that follows `base`, if there is one. -/
  | powerRest (base : Expr)
  /-- An exponent: a power under any number of plus and minus signs. -/
  | exponent
  /-- An operand, perhaps with factorial signs. -/
  | factorial
  /-- The factorial signs that follow `operand`. -/
  | factorialRest (operand : Expr)
  /-- A numeral, an identifier, a call, a group in parentheses or between bars. -/
  | operand
  /-- One more argument of a call of `name`, and all that follows it in the parentheses. -/
  | arguments (name : String) (args : List Expr)
  /-- What follows the given arguments: a comma and more of them, or the closing parenthesis. -/
  | argumentsRest (name : String) (args : List Expr)

namespace Phrase

/-- Whether tokens begin with one that can begin another factor of a product without signs.  A bar
cannot, since it may close an absolute value. -/
def startsOperand : List Token → Bool
  | .number _ :: _ => true
  | .word _ :: _ => true
  | .leftParen :: _ => true
  | _ => false

/-- The call of `name`, where `nthRoot` is the name of the root operator. -/
def callOf (name : String) (args : List Expr) : Expr :=
  if name = "nthRoot" then .apply .nthRoot args {} else .function name args

end Phrase

/-! ## The measure

Reading takes whole tokens or the first letter of a word.  Between two such steps it only descends
to tighter phrases. -/

/-- A token weighs one, and a word one more for each letter, since its letters are taken one at a
time. -/
def Token.weight : Token → Nat
  | .word letters => letters.length + 1
  | .plus | .minus | .times | .slash | .caret | .bang | .underscore | .leftParen | .rightParen
  | .bar | .comma | .relation _ | .number _ => 1

/-- The weight of a list of tokens. -/
def Token.weigh : List Token → Nat
  | [] => 0
  | t :: ts => t.weight + weigh ts

/-- How loosely a phrase binds: a phrase begins with phrases of smaller rank. -/
def Phrase.rank : Phrase → Nat
  | .operand => 0
  | .factorial => 1
  | .power => 2
  | .juxtaposition | .exponent => 3
  | .signed => 4
  | .product => 5
  | .sum => 6
  | .relation => 7
  | .arguments _ _ => 8
  | .factorialRest _ | .powerRest _ | .juxtapositionRest _ | .productRest _ | .sumRest _
  | .relationRest _ | .argumentsRest _ _ => 9

/-- The companion phrases may be empty, which is counted as a weight of one. -/
@[reducible]
def Phrase.grace : Phrase → Nat
  | .factorialRest _ | .powerRest _ | .juxtapositionRest _ | .productRest _ | .sumRest _
  | .relationRest _ | .argumentsRest _ _ => 1
  | .operand | .factorial | .power | .juxtaposition | .exponent | .signed | .product | .sum
  | .relation | .arguments _ _ => 0

end MathExpr
