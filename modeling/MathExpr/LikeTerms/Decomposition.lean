import MathExpr.LikeTerms.Groups
import MathExpr.LikeTerms.Piece

/-!
# Collecting like terms

A decomposition holds the coefficients of each group of like terms, the constants, and the rest.
Expressions are collected into it piece by piece, and every piece goes to the end of its list.

* `Decomposition`, `Decomposition.add` — a decomposition, and one more piece for it.
* `Decomposition.collect`, `Expr.decompose` — all pieces of an expression.
* **`Decomposition.collect_eq`** — collecting hands one decomposition from operand to operand.
* `Expr.decompositionLog` — the lines noted meanwhile.
-/

namespace MathExpr

/-- The like terms, constants and other parts of expressions. -/
structure Decomposition where
  /-- The coefficients of each group of like terms. -/
  groups : CoefficientGroups := .empty
  /-- Numbers and fractions of numbers. -/
  constants : List Expr := []
  /-- What is neither a constant nor a term. -/
  others : List Expr := []

namespace Decomposition

/-- Files one piece. -/
def add (d : Decomposition) : Piece → Decomposition
  | .constant e => { d with constants := d.constants ++ [e] }
  | .like key coefficient => { d with groups := d.groups.add key coefficient }
  | .other e => { d with others := d.others ++ [e] }
  | .descent _ => d

/-- Files the pieces of an expression. -/
def collect (d : Decomposition) (print : Printer) (e : Expr) : Decomposition :=
  (e.pieces print).foldl add d

/-- The pieces of operands are filed operand by operand. -/
theorem foldl_add_allPieces (d : Decomposition) (print : Printer) (es : List Expr) :
    (Expr.allPieces print es).foldl add d = es.foldl (fun d e => d.collect print e) d := by
  rw [Expr.allPieces_eq_flatMap, List.foldl_flatMap]
  rfl

/-- **Collecting hands one decomposition from operand to operand.**  An expression that is a piece
of its own is filed.  Any other application hands what was collected before on to its first operand,
and so forth to the last.  What applies nothing goes to the others. -/
theorem collect_eq (d : Decomposition) (print : Printer) (e : Expr) :
    d.collect print e = match e.piece? print with
      | some piece => d.add piece
      | none =>
        if e.isApplication then e.operands.foldl (fun d e => d.collect print e) d
        else d.add (.other e) := by
  cases hpiece : e.piece? print with
  | some piece =>
    rw [collect, Expr.pieces_of_piece? hpiece]
    rfl
  | none =>
    cases e with
    | apply op args marks =>
      rw [collect, Expr.pieces, hpiece]
      -- the descent that is noted where this is no polynomial files nothing
      simp only
      split <;> exact foldl_add_allPieces d print args
    | call name subscript args marks =>
      rw [collect, Expr.pieces, hpiece]
      exact foldl_add_allPieces d print args
    | number _ | identifier _ _ | parens _ =>
      simp only [collect, Expr.pieces, hpiece, Option.getD_none]
      rfl

end Decomposition

namespace Expr

/-- The like terms, constants and other parts of an expression. -/
def decompose (print : Printer) (e : Expr) : Decomposition :=
  Decomposition.collect {} print e

/-- The lines noted while an expression is decomposed. -/
def decompositionLog (print : Printer) (e : Expr) : List String :=
  (e.pieces print).filterMap Piece.logLine?

end Expr

end MathExpr
