import MathExpr.Proofs.Grammar.Basic
import MathExpr.Proofs.Printing.Lexemes

/-!
# Well-formed expressions

Trees are not checked, so not every tree has a notation.  Those that have one are singled out here:
numerals and names are texts that the scanner takes for such, every operator stands over as many
operands as its notation shows, and marks are only where the notation shows them.

* **`Expr.WellFormed`** — the trees with a notation.
* `Expr.WellFormed.ne_subtracted` — only the terms of a sum are marked as subtracted.
-/

namespace MathExpr

namespace Expr

/-- The trees with a notation.  The terms of a sum after the first come with their signs, which is
where negations may be marked as subtracted. -/
inductive WellFormed : Expr → Prop
  | number {numeral : String} : Token.IsNumeral numeral.toList → WellFormed (.number numeral)
  | letter {c : Char} : Text.isAlphabetic c = true → WellFormed (.var (String.singleton c))
  | subscript {c : Char} {s : Expr} : Text.isAlphabetic c = true → WellFormed s →
      WellFormed (.identifier (String.singleton c) (some s))
  | parens {body : Expr} : WellFormed body → WellFormed (.parens body)
  | call {c d : Char} {letters : List Char} {args : List Expr} :
      Token.IsWord (c :: d :: letters) → String.ofList (c :: d :: letters) ≠ "nthRoot" →
      (∀ e ∈ args, WellFormed e) → WellFormed (.function (String.ofList (c :: d :: letters)) args)
  | root {args : List Expr} : (∀ e ∈ args, WellFormed e) → WellFormed (.apply .nthRoot args {})
  | sum {first : Expr} {links : List (TermSign × Expr)} : links ≠ [] → WellFormed first →
      (∀ l ∈ links, WellFormed l.2) →
      WellFormed (.add (first :: links.map fun l => l.1.term l.2))
  | product {args : List Expr} : 2 ≤ args.length → (∀ e ∈ args, WellFormed e) →
      WellFormed (.mul args)
  | juxtaposition {args : List Expr} : 2 ≤ args.length → (∀ e ∈ args, WellFormed e) →
      WellFormed (.juxtapose args)
  | quotient {a b : Expr} : WellFormed a → WellFormed b → WellFormed (.div a b)
  | power {b x : Expr} : WellFormed b → WellFormed x → WellFormed (.pow b x)
  | neg {e : Expr} : WellFormed e → WellFormed (.neg e)
  | pos {e : Expr} : WellFormed e → WellFormed (.pos e)
  | abs {e : Expr} : WellFormed e → WellFormed (.abs e)
  | fact {e : Expr} : WellFormed e → WellFormed (.fact e)
  | relation {op : Operator} {symbol : String} {args : List Expr} :
      op.relationSymbol? = some symbol → 2 ≤ args.length → (∀ e ∈ args, WellFormed e) →
      WellFormed (.relate op args)

namespace WellFormed

variable {e : Expr}

/-- Outside of a sum no negation is marked as subtracted. -/
lemma ne_subtracted (h : WellFormed e) (args : List Expr) (juxtaposed : Bool) :
    e ≠ .apply .neg args ⟨juxtaposed, true⟩ := by
  rintro rfl
  cases h

end WellFormed

end Expr

end MathExpr
