import MathExpr.Proofs.LikeTerms.Keys

/-!
# Recognized terms can be taken apart

Terms and variable factors are recognized by shape, and their parts are read off by functions that
look at shapes themselves.  Some of these look through minus signs and some only at the root, some
ask for two operands and some for a first one.  They agree all the same, on any expression: what is
recognized has the parts that it should have.  The one kind of term without a coefficient is a
fraction of numbers, be it under minus signs.

* `Expr.peeled` — what is under the minus signs.
* `Expr.hasConstantBase_eq_false_of_isTerm` — no term is a power of a number.
* `Expr.coefficient?_eq_none_iff` — which terms have no coefficient.
* **`Expr.parts_of_recognized`** — the parts of variable factors and of terms.
-/

namespace MathExpr.Expr

variable {e : Expr}

/-- What is under the minus signs around an expression.  Where a sign has several operands, the
first one counts. -/
def peeled : Expr → Expr
  | .apply .neg (e :: _) _ => e.peeled
  | e => e

/-- Every variable factor has a variable. -/
lemma exists_variableName? (h : e.isVariableFactor = true) :
    ∃ name, e.variableName? = some name := by
  rcases exists_of_isVariableFactor h with ⟨name, s, rfl⟩ | ⟨name, s, x, marks, rfl⟩
  · exact ⟨name, rfl⟩
  · exact ⟨name, rfl⟩

lemma isNumber_eq_false_of_isIdentifier (h : e.isIdentifier = true) : e.isNumber = false := by
  cases e with
  | identifier => rfl
  | _ => cases h

lemma isNumber_eq_false_of_isPolynomial (h : e.isPolynomial = true) : e.isNumber = false := by
  unfold isPolynomial at h
  split at h
  · rfl
  · cases h

/-- A power in a term is one of an identifier or of a polynomial, so no term is a power of a
number. -/
lemma hasConstantBase_eq_false_of_isTerm (h : e.isTerm = true) : e.hasConstantBase = false := by
  unfold isTerm at h
  split at h
  case h_4 base exponent marks =>
    rw [Bool.and_eq_true, Bool.or_eq_true] at h
    exact h.1.elim isNumber_eq_false_of_isIdentifier isNumber_eq_false_of_isPolynomial
  case h_7 => cases h
  all_goals rfl

/-! ## Terms without a coefficient -/

/-- What is under the signs of a number is no fraction. -/
lemma isConstantFraction_peeled_of_isNumber (h : e.isNumber = true) :
    e.peeled.isConstantFraction = false := by
  unfold isNumber at h
  fun_induction numeral? e with
  | case1 => rfl
  | case2 e _ _ ih => exact ih h
  | case3 => cases h

/-- A negation has a coefficient if its operand has one. -/
lemma coefficient?_neg_eq_none_iff {es : List Expr} {marks : Marks} :
    (apply .neg (e :: es) marks).coefficient? = none ↔
      e.isNumber = false ∧ e.coefficient? = none := by
  rw [coefficient?]
  split
  · next hnumber => simp [hnumber]
  · next hnumber => simp [hnumber]

/-- **Terms without a coefficient** are the fractions of numbers under any number of signs.  The
induction follows the signs; under them, the shape of a term decides. -/
theorem coefficient?_eq_none_iff (h : e.isTerm = true) :
    e.coefficient? = none ↔ e.peeled.isConstantFraction = true := by
  fun_induction peeled e with
  | case1 e es marks ih =>
      rw [coefficient?_neg_eq_none_iff, ih h]
      refine and_iff_right_of_imp fun hfraction => ?_
      rw [← Bool.not_eq_true]
      intro hnumber
      rw [isConstantFraction_peeled_of_isNumber hnumber] at hfraction
      cases hfraction
  | case2 e hneg =>
      cases e with
      | number | identifier => simp [coefficient?, isConstantFraction, isFraction]
      | parens | call => cases h
      | apply op args marks =>
          cases op with
          | div => exact iff_of_true rfl h
          | mul | pow => simp [coefficient?, isConstantFraction, isFraction]
          | neg =>
              cases args with
              | nil => cases h
              | cons e es => exact absurd rfl (hneg e es marks)
          | _ => cases h

/-! ## The parts of what is recognized -/

/-- **What is recognized has its parts.**  A variable factor is a term, has a variable, and is its
own and only variable factor with the coefficient one.  A term is no power of a number, its variable
factors are variable factors, and it has a coefficient unless there is a fraction of numbers under
its signs; so it has one if it has variable factors. -/
theorem parts_of_recognized (e : Expr) :
    (e.isVariableFactor = true →
      e.isTerm = true ∧ (∃ name, e.variableName? = some name) ∧
        e.coefficient? = some (ofInt 1) ∧ e.variableFactors = [e]) ∧
    (e.isTerm = true →
      e.hasConstantBase = false ∧ (∀ v ∈ e.variableFactors, v.isVariableFactor = true) ∧
        (e.coefficient? = none ↔ e.peeled.isConstantFraction = true) ∧
        (e.variableFactors ≠ [] → ∃ c, e.coefficient? = some c)) := by
  constructor
  · intro hfactor
    exact ⟨isTerm_of_isVariableFactor hfactor, exists_variableName? hfactor,
      coefficient?_of_isVariableFactor hfactor, variableFactors_of_isVariableFactor hfactor⟩
  · intro hterm
    exact ⟨hasConstantBase_eq_false_of_isTerm hterm, fun v => isVariableFactor_of_mem,
      coefficient?_eq_none_iff hterm, exists_coefficient?⟩

/-- A tower of powers is a variable factor, and a term without a coefficient is recognized whatever
the number of operands: here a sign with two of them is over a fraction with none. -/
theorem parts_of_recognized_malformed :
    ((pow (var "x") (pow (var "y") (number "2"))).isVariableFactor = true ∧
      (pow (var "x") (pow (var "y") (number "2"))).coefficient? = some (ofInt 1) ∧
      (pow (var "x") (pow (var "y") (number "2"))).variableFactors =
        [pow (var "x") (pow (var "y") (number "2"))]) ∧
    ((apply .neg [apply .div [] {}, var "x"] {}).isTerm = true ∧
      (apply .neg [apply .div [] {}, var "x"] {}).hasConstantBase = false ∧
      (apply .neg [apply .div [] {}, var "x"] {}).coefficient? = none) := by
  have hfactor : (pow (var "x") (pow (var "y") (number "2"))).isVariableFactor = true := by decide
  have hterm : (apply .neg [apply .div [] {}, var "x"] {}).isTerm = true := by decide
  obtain ⟨-, -, hcoefficient, hfactors⟩ := (parts_of_recognized _).1 hfactor
  obtain ⟨hbase, -, hnone, -⟩ := (parts_of_recognized _).2 hterm
  exact ⟨⟨hfactor, hcoefficient, hfactors⟩, hterm, hbase, hnone.mpr (by decide)⟩

end MathExpr.Expr
