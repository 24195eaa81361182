import Mathlib.Tactic.NormNum
import MathExpr.Proofs.LikeTerms.Summands
import MathExpr.Proofs.Printing.Rereading

/-!
# What coefficients and variable factors leave out

A term is taken apart into its coefficient and its variable factors.  A product of terms may have
factors that are neither, such as the negation in `x * -y`, the product in `2x * y` and the power in
`x * y^-z`: these are in no part of it, so a term is worth its parts only up to them.

* `Operator.Accepts`, `Expr.HasArity` — how many operands belong under an operator.
* `Expr.leftOver` — the factors of a term that are neither constants nor variable factors.
* `Expr.isOp_of_isLeftOver` — there are three kinds of them.
* `Expr.product_eq_parts` — a product is that of its parts and of what is left over.
* **`Expr.value_of_isTerm`** — a term with variable factors is worth its coefficient times these
  times what is left over.
-/

namespace MathExpr

/-! ## How many operands there are -/

/-- How many operands an operator is meant to stand over.  Sums, products and relations may have any
number of them. -/
def Operator.Accepts (op : Operator) (n : ℕ) : Prop :=
  match op with
  | .neg | .pos | .abs | .fact => n = 1
  | .div | .pow => n = 2
  | .nthRoot => n = 1 ∨ n = 2
  | _ => True

instance (op : Operator) : DecidablePred op.Accepts := fun n =>
  match op with
  | .neg | .pos | .abs | .fact => inferInstanceAs (Decidable (n = 1))
  | .div | .pow => inferInstanceAs (Decidable (n = 2))
  | .nthRoot => inferInstanceAs (Decidable (n = 1 ∨ n = 2))
  | .add | .mul | .eq | .ne | .lt | .le | .gt | .ge => inferInstanceAs (Decidable True)

namespace Expr

/-- An operator stands over as many operands as it is meant to. -/
def HasArity : Expr → Prop
  | .apply op args _ => op.Accepts args.length
  | _ => True

instance : DecidablePred HasArity
  | .apply op args _ => inferInstanceAs (Decidable (op.Accepts args.length))
  | .number _ | .identifier _ _ | .call _ _ _ _ | .parens _ => inferInstanceAs (Decidable True)

variable {e : Expr} {args : List Expr} {marks : Marks}

/-- A negation that has as many operands as it is meant to is that of one expression. -/
lemma exists_eq_singleton_of_hasArity (h : (apply .neg args marks).HasArity) : ∃ e, args = [e] :=
  List.length_eq_one_iff.mp h

/-! ## What is left over -/

/-- Whether a factor is neither in the coefficient of a product nor one of its variable factors. -/
def isLeftOver (factor : Expr) : Bool :=
  !factor.isConstant && !factor.isVariableFactor

/-- The factors of a term that are left over. -/
def leftOver : Expr → List Expr
  | .apply .mul factors _ => factors.filter isLeftOver
  | .apply .neg (e :: _) _ => e.leftOver
  | _ => []

/-- A fraction in a term is a constant. -/
lemma isConstant_of_isTerm_div (h : (apply .div args marks).isTerm = true) :
    (apply .div args marks).isConstant = true :=
  h

/-- A term that is left over is a negation, a product or a power. -/
lemma isOp_of_isLeftOver (hterm : e.isTerm = true) (h : e.isLeftOver = true) :
    e.isOp .neg = true ∨ e.isOp .mul = true ∨ e.isOp .pow = true := by
  rw [isLeftOver, Bool.and_eq_true, Bool.not_eq_true', Bool.not_eq_true'] at h
  obtain ⟨hconstant, hvariable⟩ := h
  cases e with
  | number | identifier => simp_all [isConstant, isNumber, numeral?, isVariableFactor]
  | parens | call => cases hterm
  | apply op args marks =>
      cases op with
      | neg => exact .inl rfl
      | mul => exact .inr (.inl rfl)
      | pow => exact .inr (.inr rfl)
      | div =>
          rw [isConstant_of_isTerm_div hterm] at hconstant
          cases hconstant
      | _ => cases hterm

lemma isOp_of_mem_leftOver (hterm : e.isTerm = true) :
    ∀ f ∈ e.leftOver, f.isOp .neg = true ∨ f.isOp .mul = true ∨ f.isOp .pow = true := by
  fun_induction leftOver e with
  | case1 factors marks =>
      intro f hf
      obtain ⟨hmem, hleft⟩ := List.mem_filter.mp hf
      exact isOp_of_isLeftOver (isTerm_product_iff.mp hterm f hmem) hleft
  | case2 e _ _ ih => exact ih hterm
  | case3 => exact List.forall_mem_nil _

lemma product_filter_cons (I : Interpretation) (p : Expr → Bool) (f : Expr)
    (factors : List Expr) : I.product ((f :: factors).filter p) =
      (if p f then I.value f else 1) * I.product (factors.filter p) := by
  rw [List.filter_cons]
  split
  · exact I.product_cons f _
  · exact (one_mul _).symm

/-- A product is that of its constants, its variable factors, and what is left over. -/
lemma product_eq_parts (I : Interpretation) (factors : List Expr) :
    I.product factors = I.product (factors.filter isConstant) *
      I.product (factors.filter isVariableFactor) * I.product (factors.filter isLeftOver) := by
  induction factors with
  | nil => rw [List.filter_nil, List.filter_nil, List.filter_nil, I.product_nil, mul_one, mul_one]
  | cons f factors ih =>
      -- every factor counts in just one of the three products
      have hpart : (if f.isConstant then I.value f else 1) *
          (if f.isVariableFactor then I.value f else 1) *
          (if f.isLeftOver then I.value f else 1) = I.value f := by
        cases hvariable : f.isVariableFactor with
        | true => simp [isLeftOver, hvariable, isConstant_eq_false_of_isVariableFactor hvariable]
        | false => cases hconstant : f.isConstant <;> simp [isLeftOver, hvariable, hconstant]
      rw [I.product_cons, ih, product_filter_cons, product_filter_cons, product_filter_cons]
      nth_rewrite 1 [← hpart]
      ring

/-! ## The account -/

/-- **A term with variable factors** has a coefficient, and is worth this times its variable factors
times what is left over, which are negations, products and powers.  So the coefficient and the
variable factors account for the whole term just where nothing that matters is left over. -/
theorem value_of_isTerm (harity : e.Everywhere HasArity) (hterm : e.isTerm = true)
    (hvars : e.variableFactors ≠ []) :
    ∃ c, e.coefficient? = some c ∧
      (∀ f ∈ e.leftOver, f.isOp .neg = true ∨ f.isOp .mul = true ∨ f.isOp .pow = true) ∧
      ∀ I : Interpretation,
        I.value e = I.value c * I.product e.variableFactors * I.product e.leftOver := by
  suffices hvalue : ∃ c, e.coefficient? = some c ∧ ∀ I : Interpretation,
      I.value e = I.value c * I.product e.variableFactors * I.product e.leftOver by
    obtain ⟨c, hcoefficient, hvalue⟩ := hvalue
    exact ⟨c, hcoefficient, isOp_of_mem_leftOver hterm, hvalue⟩
  fun_induction leftOver e with
  | case1 factors marks =>
      refine ⟨_, rfl, fun I => ?_⟩
      rw [I.value_product, Summand.value_constantProduct, product_eq_parts]
      rfl
  | case2 e es marks ih =>
      obtain ⟨hneg, hargs⟩ := everywhere_apply.mp harity
      obtain ⟨_, hsingle⟩ := exists_eq_singleton_of_hasArity hneg
      obtain ⟨rfl, rfl⟩ := List.cons.inj hsingle
      obtain ⟨c, hcoefficient, hvalue⟩ := ih (hargs e (List.mem_singleton_self e)) hterm hvars
      have hnumber : ¬ e.isNumber = true := fun hnumber =>
        hvars (variableFactors_of_isNumber hnumber)
      refine ⟨neg c { subtracted := marks.subtracted }, ?_, fun I => ?_⟩
      · rw [coefficient?, if_neg hnumber, hcoefficient]
        rfl
      · have hneg : I.value (apply .neg [e] marks) = -I.value e := I.value_neg e marks
        rw [hneg, hvalue I, I.value_neg, neg_mul, neg_mul]
        rfl
  | case3 e hmul hneg =>
      have hvariable : e.isVariableFactor = true := by
        by_contra hvariable
        rw [variableFactors, if_neg hvariable] at hvars
        · exact hvars rfl
        · exact hmul
        · exact hneg
      refine ⟨ofInt 1, coefficient?_of_isVariableFactor hvariable, fun I => ?_⟩
      rw [variableFactors_of_isVariableFactor hvariable, I.value_one, I.product_cons,
        I.product_nil, one_mul, mul_one, mul_one]

/-- The sign of the second factor of `x * -y` is lost, and so is its variable. -/
theorem value_variableTimesNegation :
    (mul [var "x", neg (var "y")]).Everywhere HasArity ∧
    (mul [var "x", neg (var "y")]).isTerm = true ∧
    (mul [var "x", neg (var "y")]).variableFactors = [var "x"] ∧
    (mul [var "x", neg (var "y")]).coefficient? = some (ofInt 1) ∧
    (∀ I : Interpretation, I.value (mul [var "x", neg (var "y")]) =
      I.value (ofInt 1) * I.product [var "x"] * I.product [neg (var "y")]) ∧
    ∃ I : Interpretation, I.value (mul [var "x", neg (var "y")]) ≠
      I.value (ofInt 1) * I.product [var "x"] := by
  have harity : (mul [var "x", neg (var "y")]).Everywhere HasArity := by decide
  obtain ⟨c, hcoefficient, -, hvalue⟩ := value_of_isTerm harity (by decide) (by decide)
  obtain rfl : ofInt 1 = c := Option.some.inj hcoefficient
  let I : Interpretation := ⟨fun _ => 1, rfl, fun _ => 1⟩
  have hx : I.value (var "x") = 1 := rfl
  have hy : I.value (neg (var "y")) = -1 := I.value_neg (var "y") {}
  refine ⟨harity, by decide, by decide, hcoefficient, hvalue, I, ?_⟩
  rw [mul, I.value_product, I.value_one]
  norm_num [hx, hy]

end Expr

end MathExpr
