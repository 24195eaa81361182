/-!
# Expressions

An expression is a tree of numerals, identifiers, applied operators, calls of named functions and
parentheses.  Numerals keep their text, so `2.50` and `2.5` are different trees, and parentheses are
nodes of their own, so a tree remembers where they were written.  Trees are not checked: an operator
may stand over any number of operands.

* `Operator`, `Marks` — what an application applies, and how it was written.
* `Expr` — the trees, with the builders `Expr.add`, `Expr.sub`, `Expr.root`, … for the usual shapes.
* `Head` — an operator or a function name, that is whatever can stand over operands.
* `Expr.head?`, `Expr.operands` — the two halves of an application; anything else has no operands.
-/

namespace MathExpr

/-- The operators with a notation of their own. -/
inductive Operator
  /-- A sum of any number of terms.  A difference is a sum with a negated term. -/
  | add
  /-- A product of any number of factors. -/
  | mul
  /-- A fraction: numerator, then denominator. -/
  | div
  /-- A power: base, then exponent. -/
  | pow
  | neg
  | pos
  | abs
  | fact
  /-- A root: radicand, then optionally the index. -/
  | nthRoot
  | eq
  | ne
  | lt
  | le
  | gt
  | ge
deriving DecidableEq, Repr

/-- The short name of an operator. -/
def Operator.name : Operator → String
  | .add => "add"
  | .mul => "mul"
  | .div => "div"
  | .pow => "pow"
  | .neg => "neg"
  | .pos => "pos"
  | .abs => "abs"
  | .fact => "fact"
  | .nthRoot => "nthRoot"
  | .eq => "eq"
  | .ne => "ne"
  | .lt => "lt"
  | .le => "le"
  | .gt => "gt"
  | .ge => "ge"

/-- The symbol that a relation is written with.  The other operators have none. -/
def Operator.relationSymbol? : Operator → Option String
  | .eq => some "="
  | .ne => some "!="
  | .lt => some "<"
  | .le => some "<="
  | .gt => some ">"
  | .ge => some ">="
  | _ => none

/-- Whether an operator is one of the six relations. -/
def Operator.isRelation (op : Operator) : Bool :=
  op.relationSymbol?.isSome

/-- The relation that a symbol stands for.  A symbol other than those of the first five relations
stands for the sixth. -/
def Operator.ofRelationSymbol (symbol : String) : Operator :=
  if symbol = "=" then .eq
  else if symbol = "!=" then .ne
  else if symbol = "<" then .lt
  else if symbol = "<=" then .le
  else if symbol = ">" then .gt
  else .ge

/-- How an application was written, where its operator leaves that open. -/
structure Marks where
  /-- A product without a sign between its factors, as in `2x`. -/
  juxtaposed : Bool := false
  /-- A negation that is the second half of a subtraction, as in `a - b`. -/
  subtracted : Bool := false
deriving DecidableEq, Repr

/-- A mathematical expression. -/
inductive Expr
  /-- A numeral, as the text it was written with. -/
  | number (numeral : String)
  /-- A variable, such as `x` or `x_1`. -/
  | identifier (name : String) (subscript : Option Expr)
  /-- An operator over its operands. -/
  | apply (op : Operator) (args : List Expr) (marks : Marks)
  /-- A call of a named function, such as `sin(x)`. -/
  | call (name : String) (subscript : Option Expr) (args : List Expr) (marks : Marks)
  /-- An expression in parentheses. -/
  | parens (body : Expr)
deriving Repr

/-- What stands over the operands of an application: an operator, or the name of a function.  The
function named `add` is not the operator `add`. -/
inductive Head
  | operator (op : Operator)
  | function (name : String) (subscript : Option Expr)

namespace Head

/-- The short name of an operator, and the name of a function without its subscript. -/
def name : Head → String
  | .operator op => op.name
  | .function f _ => f

/-- The symbol of a relation.  No function has one. -/
def relationSymbol? : Head → Option String
  | .operator op => op.relationSymbol?
  | .function _ _ => none

/-- Whether this is one of the six relations. -/
def isRelation (head : Head) : Bool :=
  head.relationSymbol?.isSome

/-- The head over the given operands. -/
def applied (head : Head) (args : List Expr) (marks : Marks) : Expr :=
  match head with
  | .operator op => .apply op args marks
  | .function f subscript => .call f subscript args marks

end Head

namespace Expr

/-! ## The two halves of an application -/

/-- What an application applies. -/
def head? : Expr → Option Head
  | .apply op _ _ => some (.operator op)
  | .call f subscript _ _ => some (.function f subscript)
  | _ => none

/-- The operands of an application, and none for any other expression. -/
def operands : Expr → List Expr
  | .apply _ args _ => args
  | .call _ _ args _ => args
  | _ => []

/-- The body of an expression in parentheses, and any other expression itself. -/
def unparenthesized : Expr → Expr
  | .parens body => body
  | e => e

/-! ## Builders -/

/-- The numeral of an integer, in decimal. -/
def ofInt (n : Int) : Expr :=
  .number (toString n)

/-- An identifier without a subscript. -/
def var (name : String) : Expr :=
  .identifier name none

/-- The negation of an operand. -/
def neg (arg : Expr) (marks : Marks := {}) : Expr :=
  .apply .neg [arg] marks

/-- An operand under a plus sign. -/
def pos (arg : Expr) : Expr :=
  .apply .pos [arg] {}

/-- A sum. -/
def add (terms : List Expr) : Expr :=
  .apply .add terms {}

/-- A difference, as the sum of the minuend and of the negated subtrahend, which is marked as
subtracted. -/
def sub (minuend subtrahend : Expr) : Expr :=
  add [minuend, neg subtrahend { subtracted := true }]

/-- A product written with multiplication signs. -/
def mul (factors : List Expr) : Expr :=
  .apply .mul factors {}

/-- A product written by placing its factors side by side. -/
def juxtapose (factors : List Expr) : Expr :=
  .apply .mul factors { juxtaposed := true }

/-- A fraction. -/
def div (numerator denominator : Expr) : Expr :=
  .apply .div [numerator, denominator] {}

/-- A power. -/
def pow (base exponent : Expr) : Expr :=
  .apply .pow [base, exponent] {}

/-- An absolute value. -/
def abs (arg : Expr) : Expr :=
  .apply .abs [arg] {}

/-- A factorial. -/
def fact (arg : Expr) : Expr :=
  .apply .fact [arg] {}

/-- A root.  Without an index it is a square root, and the index `2` is written out. -/
def root (radicand : Expr) (index : Option Expr) : Expr :=
  .apply .nthRoot [radicand, index.getD (ofInt 2)] {}

/-- A call of the function `name`. -/
def function (name : String) (args : List Expr) : Expr :=
  .call name none args {}

/-- Operands joined by an operator, where a single operand stands for itself. -/
def gather (join : List Expr → Expr) : List Expr → Expr
  | [operand] => operand
  | operands => join operands

/-- A relation between any number of sides. -/
def relate (relation : Operator) (sides : List Expr) : Expr :=
  .apply relation sides {}

end Expr

end MathExpr
