import MathExpr.Proofs.Printing.Rereading

/-!
# Expressions without their parentheses

Parentheses are nodes of a tree, and printing and reading adds some and drops others.  What is left
of a tree without any of them is what has to survive.

* `Expr.bare` — an expression without the parentheses in it.
* `Expr.bare_unparenthesized`, `Expr.bare_rereadIn` — parentheses that come and go do not matter.
-/

namespace MathExpr.Expr

mutual

/-- An expression without the parentheses in it. -/
def bare : Expr → Expr
  | .number numeral => .number numeral
  | .identifier name subscript => .identifier name (bareSubscript subscript)
  | .parens body => body.bare
  | .call name subscript args marks => .call name (bareSubscript subscript) (bareList args) marks
  | .apply op args marks => .apply op (bareList args) marks

/-- A subscript without the parentheses in it. -/
def bareSubscript : Option Expr → Option Expr
  | none => none
  | some e => some e.bare

/-- The expressions of a list without the parentheses in them. -/
def bareList : List Expr → List Expr
  | [] => []
  | e :: es => e.bare :: bareList es

end

lemma bareList_eq_map (es : List Expr) : bareList es = es.map bare := by
  induction es with
  | nil => rfl
  | cons e es ih => rw [bareList, ih, List.map_cons]

lemma bare_apply (op : Operator) (args : List Expr) (marks : Marks) :
    (apply op args marks).bare = apply op (args.map bare) marks := by
  rw [bare, bareList_eq_map]

lemma bare_function (name : String) (args : List Expr) :
    (function name args).bare = function name (args.map bare) := by
  rw [function, bare, bareList_eq_map]
  rfl

lemma bare_subscript (name : String) (s : Expr) :
    (identifier name (some s)).bare = identifier name (some s.bare) := rfl

@[simp] lemma bare_parens (body : Expr) : (parens body).bare = body.bare := by
  rw [bare]

@[simp] lemma bare_unparenthesized (e : Expr) : e.unparenthesized.bare = e.bare := by
  cases e with
  | parens body => exact (bare_parens body).symm
  | _ => rfl

/-- Parentheses that a place asks for do not matter. -/
lemma bare_rereadIn {e : Expr} (h : e.reread.bare = e.bare) (least : Binding) :
    (rereadIn least e).bare = e.bare := by
  unfold rereadIn factorsIn placed
  split
  · rwa [joined, gather_single, bare_parens]
  · exact h

lemma map_bare_rereadIn {args : List Expr} (h : ∀ a ∈ args, a.reread.bare = a.bare)
    (least : Binding) : (args.map (rereadIn least)).map bare = args.map bare := by
  rw [List.map_map]
  exact List.map_congr_left fun a ha => bare_rereadIn (h a ha) least

/-- The sign of a term is kept. -/
lemma bare_term (sign : TermSign) (e : Expr) : (sign.term e).bare = sign.term e.bare := by
  cases sign <;> rfl

end MathExpr.Expr
