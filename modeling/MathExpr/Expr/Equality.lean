import MathExpr.Expr.Basic

/-!
# Equality and induction for expressions

Expressions hold lists of expressions, so neither their equality test nor a usable induction
principle comes for free.

* `Expr.same`, `Expr.same_iff` — the structural test, and that it decides equality.
* `Expr.induction` — induction where an application gives a hypothesis for each of its operands.
-/

namespace MathExpr

namespace Expr

mutual

/-- Whether two expressions are equal in all their parts. -/
def same : Expr → Expr → Bool
  | .number n, .number n' => n == n'
  | .identifier x s, .identifier x' s' => x == x' && sameOption s s'
  | .apply op args marks, .apply op' args' marks' =>
    op == op' && sameList args args' && marks == marks'
  | .call f s args marks, .call f' s' args' marks' =>
    f == f' && sameOption s s' && sameList args args' && marks == marks'
  | .parens body, .parens body' => same body body'
  | _, _ => false

/-- Whether two optional expressions are equal in all their parts. -/
def sameOption : Option Expr → Option Expr → Bool
  | none, none => true
  | some e, some e' => same e e'
  | _, _ => false

/-- Whether two lists of expressions are equal in all their parts. -/
def sameList : List Expr → List Expr → Bool
  | [], [] => true
  | e :: es, e' :: es' => same e e' && sameList es es'
  | _, _ => false

end

mutual

/-- The structural test decides equality. -/
theorem same_iff : ∀ {e e' : Expr}, same e e' = true ↔ e = e'
  | .number _, e' => by cases e' <;> simp [same]
  | .identifier _ s, e' => by cases e' <;> simp [same, sameOption_iff]
  | .apply _ args _, e' => by cases e' <;> simp [same, sameList_iff, and_assoc]
  | .call _ s args _, e' => by cases e' <;> simp [same, sameOption_iff, sameList_iff, and_assoc]
  | .parens body, e' => by cases e' <;> simp [same, same_iff]

theorem sameOption_iff : ∀ {s s' : Option Expr}, sameOption s s' = true ↔ s = s'
  | none, s' => by cases s' <;> simp [sameOption]
  | some e, s' => by cases s' <;> simp [sameOption, same_iff]

theorem sameList_iff : ∀ {es es' : List Expr}, sameList es es' = true ↔ es = es'
  | [], es' => by cases es' <;> simp [sameList]
  | e :: es, es' => by cases es' <;> simp [sameList, same_iff, sameList_iff]

end

instance : DecidableEq Expr := fun _ _ => decidable_of_iff _ same_iff

/-! ## Induction -/

/-- Induction on expressions: a property holds of all expressions if it holds of each whenever it
holds of its subscript and of all its operands. -/
@[elab_as_elim]
theorem induction {motive : Expr → Prop} (number : ∀ n, motive (.number n))
    (identifier : ∀ x s, (∀ e ∈ s, motive e) → motive (.identifier x s))
    (apply : ∀ op args marks, (∀ e ∈ args, motive e) → motive (.apply op args marks))
    (call : ∀ f s args marks, (∀ e ∈ s, motive e) → (∀ e ∈ args, motive e) →
      motive (.call f s args marks))
    (parens : ∀ body, motive body → motive (.parens body)) : ∀ e, motive e
  | .number n => number n
  | .identifier x s =>
    identifier x s fun e _ => induction number identifier apply call parens e
  | .apply op args marks =>
    apply op args marks fun e _ => induction number identifier apply call parens e
  | .call f s args marks =>
    call f s args marks (fun e _ => induction number identifier apply call parens e)
      fun e _ => induction number identifier apply call parens e
  | .parens body => parens body (induction number identifier apply call parens body)
termination_by e => sizeOf e

end Expr

deriving instance DecidableEq for Head

end MathExpr
