import Mathlib.Algebra.BigOperators.Group.List.Basic
import Mathlib.Algebra.Field.Rat
import Mathlib.Tactic.Ring
import MathExpr.Proofs.Terms.Negation

/-!
# What turning a sign does to a value

Turning the sign of an expression turns that of its value, whatever numerals, identifiers and
functions stand for.  Nothing has to be known about numerals: the coefficients that are taken from a
term are its own.  It also never fails on the expressions that it is meant for.

* `Valuation`, `Valuation.value` — what the parts of expressions stand for, and the value of an
  expression made of them.
* `Expr.HasOpposite` — the expressions whose sign can be turned.
* `Expr.hasOpposite_iff` — these are the ones with a negation.
* `Expr.Negates.value_eq` — each way of turning a sign turns the value.
* **`Expr.negate?_domain_and_value`** — both of these laws of negation.
-/

namespace MathExpr

/-! ## Values -/

/-- What numerals, identifiers, functions and the operators that are no arithmetic stand for.  Of
the operands of an application it sees the values only. -/
structure Valuation where
  numeral : String → ℚ
  identifier : String → Option Expr → ℚ
  operation : Head → List ℚ → ℚ

namespace Valuation

variable (v : Valuation)

mutual

/-- The value of an expression.  Parentheses and plus signs make no difference. -/
def value : Expr → ℚ
  | .number numeral => v.numeral numeral
  | .identifier name subscript => v.identifier name subscript
  | .parens body => value body
  | .call name subscript args _ => v.operation (.function name subscript) (values args)
  | .apply .add args _ => (values args).sum
  | .apply .mul args _ => (values args).prod
  | .apply .neg [e] _ => -value e
  | .apply .pos [e] _ => value e
  | .apply .div [a, b] _ => value a / value b
  | .apply op args _ => v.operation (.operator op) (values args)

/-- The values of the expressions of a list. -/
def values : List Expr → List ℚ
  | [] => []
  | e :: es => value e :: values es

end

lemma values_eq_map (es : List Expr) : v.values es = es.map v.value := by
  induction es with
  | nil => rfl
  | cons e es ih => rw [values, ih, List.map_cons]

lemma value_mul (args : List Expr) (marks : Marks) :
    v.value (.apply .mul args marks) = (args.map v.value).prod := by
  rw [value, values_eq_map]

lemma value_neg (e : Expr) (marks : Marks) : v.value (.apply .neg [e] marks) = -v.value e := by
  rw [value]

lemma value_div (a b : Expr) (marks : Marks) :
    v.value (.apply .div [a, b] marks) = v.value a / v.value b := by
  rw [value]

end Valuation

namespace Expr

variable {e m p a : Expr} {args factors : List Expr} {marks : Marks}

/-! ## The domain of negation -/

/-- The expressions whose sign can be turned: negations, sums and terms, and the fractions of such
an expression. -/
inductive HasOpposite : Expr → Prop
  | negation (args : List Expr) (marks : Marks) : HasOpposite (.apply .neg args marks)
  | sum (terms : List Expr) (marks : Marks) : HasOpposite (.apply .add terms marks)
  | term {e : Expr} : e.isTerm = true → HasOpposite e
  | fraction {a : Expr} (others : List Expr) (marks : Marks) : HasOpposite a →
      HasOpposite (.apply .div (a :: others) marks)

/-- What gets a minus sign is a sum or a term. -/
lemma hasOpposite_of_takesSign (h : e.takesSign = true) : e.HasOpposite := by
  unfold takesSign at h
  split at h
  · exact .sum _ _
  · cases h
  · cases h
  · exact .term (Bool.and_eq_true_iff.mp h).1

lemma Negates.hasOpposite (h : Negates e m) : e.HasOpposite := by
  induction h with
  | signed => exact .negation _ _
  | fraction _ ih => exact .fraction _ _ ih
  | coefficient hterm => exact .term hterm
  | unsigned h => exact hasOpposite_of_takesSign h

/-- A fraction that has as many operands as it is meant to has two. -/
lemma exists_eq_pair_of_hasArity (h : (apply .div args marks).HasArity) :
    ∃ a b, args = [a, b] :=
  List.length_eq_two.mp h

lemma exists_negates_of_isNumber (h : a.isNumber = true) : ∃ m, Negates a m := by
  unfold isNumber numeral? at h
  split at h
  · exact ⟨_, .unsigned rfl⟩
  · exact ⟨_, .signed⟩
  · cases h

lemma exists_negates_of_isTerm (harity : e.HasArity) (h : e.isTerm = true) :
    ∃ m, Negates e m := by
  cases e with
  | number | identifier => exact ⟨_, .unsigned rfl⟩
  | parens | call => cases h
  | apply op args marks =>
      cases op with
      | neg =>
          obtain ⟨e, rfl⟩ := exists_eq_singleton_of_hasArity harity
          exact ⟨e, .signed⟩
      | div =>
          obtain ⟨a, b, rfl⟩ := exists_eq_pair_of_hasArity harity
          obtain ⟨a', ha⟩ := exists_negates_of_isNumber (List.all_eq_true.mp h a (.head _))
          exact ⟨_, .fraction ha⟩
      | mul =>
          cases hnegative : (apply .mul args marks).hasNegativeCoefficient with
          | true =>
              obtain ⟨factors, marks, p, es, cmarks, hmul, hfilter⟩ :=
                exists_of_hasNegativeCoefficient hnegative
              rw [hmul] at h ⊢
              exact ⟨_, .coefficient h hfilter⟩
          | false =>
              have hsign : (apply .mul args marks).takesSign = true := by
                rw [takesSign, h, hnegative]
                · rfl
                all_goals simp
              exact ⟨_, .unsigned hsign⟩
      | pow => exact ⟨_, .unsigned (Bool.and_eq_true_iff.mpr ⟨h, rfl⟩)⟩
      | _ => cases h

/-- **The domain of negation**, for operators that have the operands they are meant to have. -/
theorem hasOpposite_iff (harity : e.Everywhere HasArity) :
    (∃ m, Negates e m) ↔ e.HasOpposite := by
  refine ⟨fun ⟨m, h⟩ => h.hasOpposite, fun h => ?_⟩
  induction h with
  | negation args marks =>
      obtain ⟨e, rfl⟩ := exists_eq_singleton_of_hasArity (everywhere_apply.mp harity).1
      exact ⟨e, .signed⟩
  | sum => exact ⟨_, .unsigned rfl⟩
  | term hterm => exact exists_negates_of_isTerm (harity _ (mem_subterms_self _)) hterm
  | fraction others marks _ ih =>
      obtain ⟨hdiv, hargs⟩ := everywhere_apply.mp harity
      obtain ⟨_, b, hpair⟩ := exists_eq_pair_of_hasArity hdiv
      obtain ⟨rfl, rfl⟩ := List.cons.inj hpair
      obtain ⟨a', ha⟩ := ih (hargs _ (.head _))
      exact ⟨_, .fraction ha⟩

/-! ## The value of the opposite -/

/-- A product is worth any of its factors times the others. -/
lemma value_eq_mul_erase (v : Valuation) (hmem : a ∈ factors) :
    v.value (.apply .mul factors marks) =
      v.value a * ((factors.erase a).map v.value).prod := by
  rw [v.value_mul, ((List.perm_cons_erase hmem).map v.value).prod_eq, List.map_cons,
    List.prod_cons]

/-- **Turning a sign turns the value**, in each of the four ways. -/
theorem Negates.value_eq (v : Valuation) (harity : e.Everywhere HasArity) (h : Negates e m) :
    v.value m = -v.value e := by
  induction h with
  | @signed e es marks =>
      obtain ⟨_, hsingle⟩ := exists_eq_singleton_of_hasArity (everywhere_apply.mp harity).1
      obtain ⟨rfl, rfl⟩ := List.cons.inj hsingle
      rw [v.value_neg, neg_neg]
  | @fraction a a' b rest marks _ ih =>
      obtain ⟨hdiv, hargs⟩ := everywhere_apply.mp harity
      obtain ⟨_, _, hpair⟩ := exists_eq_pair_of_hasArity hdiv
      obtain ⟨rfl, hrest⟩ := List.cons.inj hpair
      obtain ⟨rfl, rfl⟩ := List.cons.inj hrest
      rw [div, v.value_div, v.value_div, ih (hargs _ (.head _)), neg_div]
  | @coefficient p es factors cmarks marks _ hfilter =>
      have hmem : apply .neg (p :: es) cmarks ∈ factors :=
        (List.mem_filter.mp (hfilter ▸ List.mem_singleton_self _)).1
      have hneg := (everywhere_apply.mp harity).2 _ hmem _ (mem_subterms_self _)
      obtain ⟨_, hsingle⟩ := exists_eq_singleton_of_hasArity hneg
      obtain ⟨rfl, rfl⟩ := List.cons.inj hsingle
      rw [value_eq_mul_erase v hmem, v.value_mul, List.map_cons, List.prod_cons, v.value_neg,
        neg_mul, neg_neg]
  | unsigned => exact v.value_neg _ {}

/-- **The two laws of negation.**  It is defined exactly for the negations, sums and terms, and the
fractions of what it is defined for, and it turns the sign of the value. -/
theorem negate?_domain_and_value (harity : e.Everywhere HasArity) :
    ((∃ m, e.negate? = some m) ↔ e.HasOpposite) ∧
      ∀ m, e.negate? = some m → ∀ v : Valuation, v.value m = -v.value e := by
  simp only [negate?_eq_some_iff]
  exact ⟨hasOpposite_iff harity, fun m h v => h.value_eq v harity⟩

/-- The numerator of `(x * -3 * y) / (y + 1)` has a negative coefficient, which comes to the front
without its sign. -/
theorem negate?_domain_and_value_fraction :
    (div (mul [var "x", neg (number "3"), var "y"])
        (add [var "y", number "1"])).Everywhere HasArity ∧
      (div (mul [var "x", neg (number "3"), var "y"])
        (add [var "y", number "1"])).HasOpposite ∧
      (div (mul [var "x", neg (number "3"), var "y"]) (add [var "y", number "1"])).negate? =
        some (div (mul [number "3", var "x", var "y"]) (add [var "y", number "1"])) ∧
      ∀ v : Valuation,
        v.value (div (mul [number "3", var "x", var "y"]) (add [var "y", number "1"])) =
          -v.value (div (mul [var "x", neg (number "3"), var "y"])
            (add [var "y", number "1"])) := by
  have harity : (div (mul [var "x", neg (number "3"), var "y"])
      (add [var "y", number "1"])).Everywhere HasArity := by decide
  have hnegate : (div (mul [var "x", neg (number "3"), var "y"])
      (add [var "y", number "1"])).negate? =
        some (div (mul [number "3", var "x", var "y"]) (add [var "y", number "1"])) := by decide
  obtain ⟨hdomain, hvalue⟩ := negate?_domain_and_value harity
  exact ⟨harity, hdomain.mp ⟨_, hnegate⟩, hnegate, hvalue _ hnegate⟩

end Expr

end MathExpr
