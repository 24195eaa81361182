import Mathlib.Algebra.BigOperators.Group.List.Basic
import Mathlib.Algebra.Field.Rat
import Mathlib.Tactic.Ring
import MathExpr.LikeTerms.Decomposition

/-!
# The value of a decomposition

Expressions and decompositions are read as rational numbers.  A decomposition stands for the sum of
its constants and of its coefficients, each of these times what is said to be the value of its key.

* `Interpretation` — what numerals and everything that is no arithmetic stand for.
* `Interpretation.value` — the value of an expression.
* `Interpretation.worth`, `Interpretation.pieceWorth` — what a decomposition and a piece are worth.
* **`Interpretation.worth_add`** — filing a piece adds what it is worth.
* **`Interpretation.worth_collect`** — hence collecting an expression adds what its pieces are
  worth.
* `Decomposition.others_collect` — the pieces that are neither constants nor terms are kept in
  order.
-/

namespace MathExpr

/-- What the leaves of arithmetic stand for: numerals, of which `1` is one, and expressions that are
neither numerals nor sums, products, negations or fractions, such as variables and powers. -/
structure Interpretation where
  numeral : String → ℚ
  numeral_one : numeral "1" = 1
  atom : Expr → ℚ

namespace Interpretation

variable (I : Interpretation) (V : String → ℚ)

mutual

/-- The value of an expression. -/
def value : Expr → ℚ
  | .number numeral => I.numeral numeral
  | .apply .add args _ => (values args).sum
  | .apply .mul args _ => (values args).prod
  | .apply .neg [e] _ => -value e
  | .apply .div [a, b] _ => value a / value b
  | e => I.atom e

/-- The values of the expressions of a list. -/
def values : List Expr → List ℚ
  | [] => []
  | e :: es => value e :: values es

end

/-- The sum of the values of the expressions of a list. -/
def sum (es : List Expr) : ℚ :=
  (es.map I.value).sum

/-- The product of the values of the expressions of a list. -/
def product (es : List Expr) : ℚ :=
  (es.map I.value).prod

lemma values_eq_map (es : List Expr) : I.values es = es.map I.value := by
  induction es with
  | nil => rfl
  | cons e es ih => rw [values, ih, List.map_cons]

lemma value_sum (args : List Expr) (marks : Marks) :
    I.value (.apply .add args marks) = I.sum args := by
  rw [value, values_eq_map, sum]

lemma value_product (args : List Expr) (marks : Marks) :
    I.value (.apply .mul args marks) = I.product args := by
  rw [value, values_eq_map, product]

lemma value_neg (e : Expr) (marks : Marks) : I.value (.neg e marks) = -I.value e := by
  rw [Expr.neg, value]

/-- The numeral that is made for one stands for one. -/
lemma value_one : I.value (.ofInt 1) = 1 :=
  I.numeral_one

@[simp] lemma sum_nil : I.sum [] = 0 := rfl

@[simp] lemma sum_cons (e : Expr) (es : List Expr) : I.sum (e :: es) = I.value e + I.sum es :=
  List.sum_cons

lemma sum_append (es es' : List Expr) : I.sum (es ++ es') = I.sum es + I.sum es' := by
  rw [sum, List.map_append, List.sum_append, sum, sum]

@[simp] lemma product_nil : I.product [] = 1 := rfl

@[simp] lemma product_cons (e : Expr) (es : List Expr) :
    I.product (e :: es) = I.value e * I.product es :=
  List.prod_cons

/-! ## Decompositions

`V` says what the variable factors behind a key stand for.
-/

/-- What groups of coefficients are worth. -/
def groupsWorth (entries : List (String × List Expr)) : ℚ :=
  (entries.map fun entry => V entry.1 * I.sum entry.2).sum

/-- What a decomposition is worth. -/
def worth (d : Decomposition) : ℚ :=
  I.groupsWorth V d.groups.entries + I.sum d.constants

/-- What a piece is worth.  Descending into operands is not worth anything, the pieces there are. -/
def pieceWorth : Piece → ℚ
  | .constant e => I.value e
  | .like key coefficient => V key * I.value coefficient
  | .other _ => 0
  | .descent _ => 0

/-- What the pieces of a list are worth. -/
def piecesWorth (pieces : List Piece) : ℚ :=
  (pieces.map (I.pieceWorth V)).sum

@[simp] lemma piecesWorth_nil : I.piecesWorth V [] = 0 := rfl

@[simp] lemma piecesWorth_cons (piece : Piece) (pieces : List Piece) :
    I.piecesWorth V (piece :: pieces) = I.pieceWorth V piece + I.piecesWorth V pieces :=
  List.sum_cons

lemma piecesWorth_append (pieces pieces' : List Piece) :
    I.piecesWorth V (pieces ++ pieces') = I.piecesWorth V pieces + I.piecesWorth V pieces' := by
  rw [piecesWorth, List.map_append, List.sum_append, piecesWorth, piecesWorth]

lemma groupsWorth_cons (key : String) (coefficients : List Expr)
    (entries : List (String × List Expr)) :
    I.groupsWorth V ((key, coefficients) :: entries) =
      V key * I.sum coefficients + I.groupsWorth V entries :=
  List.sum_cons

/-- A coefficient counts with the value of its key, wherever it is put. -/
lemma groupsWorth_insert (key : String) (coefficient : Expr) :
    ∀ entries : List (String × List Expr),
      I.groupsWorth V (CoefficientGroups.insert key coefficient entries) =
        I.groupsWorth V entries + V key * I.value coefficient
  | [] => by
      rw [CoefficientGroups.insert, groupsWorth_cons, sum_cons, sum_nil]
      ring
  | (k, coefficients) :: entries => by
      rw [CoefficientGroups.insert]
      split
      · rw [groupsWorth_cons, sum_cons, sum_nil]
        ring
      · split
        · next hkey =>
          rw [groupsWorth_cons, groupsWorth_cons, sum_append, sum_cons, sum_nil, hkey]
          ring
        · rw [groupsWorth_cons, groupsWorth_cons, groupsWorth_insert key coefficient entries]
          ring

/-- **Filing a piece** adds what it is worth. -/
theorem worth_add (d : Decomposition) (piece : Piece) :
    I.worth V (d.add piece) = I.worth V d + I.pieceWorth V piece := by
  unfold worth
  cases piece with
  | constant e =>
      have hconstants : I.sum (d.constants ++ [e]) = I.sum d.constants + I.value e := by
        rw [sum_append, sum_cons, sum_nil, add_zero]
      rw [Decomposition.add, hconstants, pieceWorth]
      ring
  | like key coefficient =>
      have hgroups := I.groupsWorth_insert V key coefficient d.groups.entries
      rw [Decomposition.add, CoefficientGroups.add, hgroups, pieceWorth]
      ring
  | other | descent => rw [Decomposition.add, pieceWorth, add_zero]

/-- **Filing pieces one after the other** adds what they are worth. -/
theorem worth_foldl_add (d : Decomposition) (pieces : List Piece) :
    I.worth V (pieces.foldl Decomposition.add d) = I.worth V d + I.piecesWorth V pieces := by
  induction pieces generalizing d with
  | nil => rw [List.foldl_nil, piecesWorth_nil, add_zero]
  | cons piece pieces ih => rw [List.foldl_cons, ih, worth_add, piecesWorth_cons, add_assoc]

theorem worth_collect (d : Decomposition) (print : Printer) (e : Expr) :
    I.worth V (d.collect print e) = I.worth V d + I.piecesWorth V (e.pieces print) :=
  I.worth_foldl_add V d (e.pieces print)

/-- Nothing collected is worth nothing. -/
lemma worth_empty : I.worth V {} = 0 :=
  add_zero 0

end Interpretation

/-! ## Other pieces -/

/-- The expression of a piece that is neither a constant nor a term. -/
def Piece.other? : Piece → Option Expr
  | .other e => some e
  | _ => none

namespace Decomposition

/-- A list to whose end every single piece adds something gets that of all pieces, in order. -/
lemma view_foldl_add {α : Type} {view : Decomposition → List α} {yield : Piece → List α}
    (hadd : ∀ d piece, view (d.add piece) = view d ++ yield piece) (d : Decomposition)
    (pieces : List Piece) : view (pieces.foldl add d) = view d ++ pieces.flatMap yield := by
  induction pieces generalizing d with
  | nil => exact (List.append_nil _).symm
  | cons piece pieces ih =>
      rw [List.foldl_cons, ih, hadd, List.append_assoc, List.flatMap_cons]

lemma others_add (d : Decomposition) (piece : Piece) :
    (d.add piece).others = d.others ++ piece.other?.toList := by
  cases piece with
  | other e => rfl
  | _ => exact (List.append_nil _).symm

lemma others_foldl_add (d : Decomposition) (pieces : List Piece) :
    (pieces.foldl add d).others = d.others ++ pieces.filterMap Piece.other? := by
  rw [view_foldl_add others_add, List.filterMap_eq_flatMap_toList]

/-- What is neither a constant nor a term goes to the end of its list, in the order of the
pieces. -/
theorem others_collect (d : Decomposition) (print : Printer) (e : Expr) :
    (d.collect print e).others = d.others ++ (e.pieces print).filterMap Piece.other? :=
  d.others_foldl_add (e.pieces print)

end Decomposition

end MathExpr
