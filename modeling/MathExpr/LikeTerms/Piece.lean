import MathExpr.Expr.Factors
import MathExpr.Expr.Printing

/-!
# The pieces of an expression

Walking through an expression from left to right yields constants, coefficients of variable factors,
and expressions that are neither.  A term is filed under a key, which is the printed form of its
variable factors in the order of their variables; several factors are printed as a product that is
written like the term itself, so `2xy` and `2 * x * y` have different keys.

* `likeKey?` — the key of a term.
* `Piece`, `Expr.piece?` — what an expression is as a piece of its own.
* `Expr.pieces` — the pieces of an expression; an application that is no piece is taken apart.
* `Piece.logLine?` — what is noted about a piece while walking.
-/

namespace MathExpr

/-- What is met on a walk through an expression. -/
inductive Piece
  /-- A number or a fraction of numbers. -/
  | constant (e : Expr)
  /-- The coefficient of the variable factors that are printed as `key`. -/
  | like (key : String) (coefficient : Expr)
  /-- An expression that is neither a constant nor a term, and that applies nothing. -/
  | other (e : Expr)
  /-- The walk goes on with the operands of the operator or function called `name`. -/
  | descent (name : String)

namespace Piece

/-- The line noted about a piece.  Constants and other expressions are passed over in silence. -/
def logLine? : Piece → Option String
  | .like key _ => some ("DEBUG: grouping term under " ++ key)
  | .descent name => some ("TRACE: recursing into " ++ name)
  | _ => none

end Piece

/-- The key of variable factors in the order of their variables.  Several are printed as a product,
juxtaposed or not, and where there are none there is no key. -/
def likeKey? (print : Printer) (juxtaposed : Bool) : List Expr → Option String
  | [] => none
  | [factor] => some (print factor)
  | factors => some (print (.apply .mul factors { juxtaposed }))

namespace Expr

/-- The key that a term is filed under. -/
def key? (print : Printer) (e : Expr) : Option String :=
  likeKey? print e.isJuxtaposed (sortVariables e.variableFactors)

/-- The piece that an expression is as a whole: a constant, or a term with variable factors. -/
def piece? (print : Printer) (e : Expr) : Option Piece :=
  if e.isConstant then some (.constant e)
  else if e.isTerm && !e.hasConstantBase then do
    return .like (← e.key? print) (← e.coefficient?)
  else none

mutual

/-- The pieces of an expression, from left to right.  Taking a polynomial apart is a matter of
course and is not noted. -/
def pieces (print : Printer) : Expr → List Piece
  | .apply op args marks =>
    match piece? print (.apply op args marks) with
    | some piece => [piece]
    | none =>
      if isPolynomial (.apply op args marks) then allPieces print args
      else .descent op.name :: allPieces print args
  | .call name subscript args marks =>
    match piece? print (.call name subscript args marks) with
    | some piece => [piece]
    | none => .descent name :: allPieces print args
  | e => [(piece? print e).getD (.other e)]

/-- The pieces of the expressions of a list, one after the other. -/
def allPieces (print : Printer) : List Expr → List Piece
  | [] => []
  | e :: es => e.pieces print ++ allPieces print es

end

/-- What is a piece of its own has no other pieces. -/
theorem pieces_of_piece? {print : Printer} {e : Expr} {piece : Piece}
    (h : e.piece? print = some piece) : e.pieces print = [piece] := by
  cases e <;> simp only [pieces, h, Option.getD_some]

theorem allPieces_eq_flatMap (print : Printer) (es : List Expr) :
    allPieces print es = es.flatMap (pieces print) := by
  induction es with
  | nil => rfl
  | cons e es ih => rw [allPieces, ih, List.flatMap_cons]

end Expr

end MathExpr
