import Mathlib.Tactic.Lemma
import MathExpr.Expr.Degree

/-!
# The degree of a negated term

The degree of a power is its exponent, and stays so under one minus sign: of what is negated, the
second operand is asked for.  Nothing but that is asked, so a second sign, which has one operand
only, makes the degree fail, and says why.

* `Expr.VariablePower`, `Expr.UnivariateTerm` — powers of a variable, and multiples of these.
* `Expr.underSigns` — an expression under any number of minus signs.
* `Expr.degree_neg`, `Expr.degree_neg_neg` — the degree under one sign, and under two or more.
* **`Expr.degree_underSigns`** — when a sign leaves the degree of a term as it is.
-/

namespace MathExpr.Expr

variable {e : Expr} {signs : List Marks}

/-! ## Terms in one variable, and signs -/

/-- A power of a variable, with any expression for an exponent. -/
inductive VariablePower : Expr → Prop
  | intro (name : String) (subscript : Option Expr) (exponent : Expr) (marks : Marks) :
      VariablePower (.apply .pow [.identifier name subscript, exponent] marks)

/-- A power of a variable, or a number times a variable or a power of it. -/
inductive UnivariateTerm : Expr → Prop
  | power {e : Expr} : VariablePower e → UnivariateTerm e
  | multiple {c e : Expr} (marks : Marks) : c.isNumber = true →
      e.isIdentifier = true ∨ VariablePower e → UnivariateTerm (.apply .mul [c, e] marks)

/-- An expression under minus signs with the given marks, the outermost first. -/
def underSigns (e : Expr) : List Marks → Expr
  | [] => e
  | marks :: signs => neg (e.underSigns signs) marks

/-- Signs make no number of what is none. -/
lemma isNumber_underSigns (e : Expr) (signs : List Marks) :
    (e.underSigns signs).isNumber = e.isNumber := by
  induction signs with
  | nil => rfl
  | cons marks signs ih => exact ih

/-! ## Degrees under signs -/

/-- Under one sign, the degree is the second operand. -/
lemma degree_neg {x : Expr} (marks : Marks) (hnumber : e.isNumber = false)
    (hx : e.operands[1]? = some x) : (neg e marks).degree = .ok (some x) := by
  rw [neg, degree, hnumber, hx]
  rfl

/-- Under two signs, the inner one has no second operand. -/
lemma degree_neg_neg (marks marks' : Marks) (hnumber : e.isNumber = false) :
    (neg (neg e marks') marks).degree = .error (.noExponent (neg e marks')) := by
  have hsigned : (neg e marks').isNumber = false := hnumber
  rw [neg, degree, hsigned]
  rfl

namespace UnivariateTerm

/-- These terms are no numbers, and have two operands. -/
lemma exists_second (h : UnivariateTerm e) :
    e.isNumber = false ∧ ∃ x, e.operands[1]? = some x := by
  cases h with
  | power hpower =>
      cases hpower
      exact ⟨rfl, _, rfl⟩
  | multiple => exact ⟨rfl, _, rfl⟩

end UnivariateTerm

/-- **When a sign leaves the degree of a term as it is.**  A term under signs has a degree if and
only if there is one sign, and if the term is a power then it has the degree of the power.  Under
more signs it fails for what is under the first of them. -/
theorem degree_underSigns (h : UnivariateTerm e) (hsigns : signs ≠ []) :
    ((∃ d, (e.underSigns signs).degree = .ok d) ↔ signs.length = 1) ∧
      (signs.length = 1 → VariablePower e → (e.underSigns signs).degree = e.degree) ∧
      (2 ≤ signs.length →
        (e.underSigns signs).degree = .error (.noExponent (e.underSigns signs.tail))) := by
  obtain ⟨hnumber, x, hx⟩ := h.exists_second
  match signs, hsigns with
  | [marks], _ =>
      have hdegree : (e.underSigns [marks]).degree = .ok (some x) := degree_neg marks hnumber hx
      refine ⟨iff_of_true ⟨_, hdegree⟩ rfl, fun _ hpower => ?_, fun hlen => absurd hlen (by simp)⟩
      cases hpower
      rw [hdegree, ← hx]
      rfl
  | marks :: marks' :: signs, _ =>
      have hdegree : (e.underSigns (marks :: marks' :: signs)).degree =
          .error (.noExponent (e.underSigns (marks' :: signs))) :=
        degree_neg_neg marks marks' ((isNumber_underSigns e signs).trans hnumber)
      refine ⟨iff_of_false ?_ (by simp), fun hlen => absurd hlen (by simp), fun _ => hdegree⟩
      rintro ⟨d, hd⟩
      rw [hdegree] at hd
      cases hd

/-- The subtracted `x^-2` has the degree of `x^-2`, and under one more sign it has none. -/
theorem degree_underSigns_subtracted :
    UnivariateTerm (pow (var "x") (neg (number "2"))) ∧
      (neg (pow (var "x") (neg (number "2"))) { subtracted := true }).degree =
        (pow (var "x") (neg (number "2"))).degree ∧
      (neg (neg (pow (var "x") (neg (number "2"))) { subtracted := true })).degree =
        .error (.noExponent (neg (pow (var "x") (neg (number "2"))) { subtracted := true })) := by
  have hpower : VariablePower (pow (var "x") (neg (number "2"))) := .intro _ _ _ _
  have hone := degree_underSigns (.power hpower) (List.cons_ne_nil { subtracted := true } [])
  have htwo := degree_underSigns (.power hpower) (List.cons_ne_nil {} [{ subtracted := true }])
  exact ⟨.power hpower, hone.2.1 rfl hpower, htwo.2.2 (by decide)⟩

/-- Signs do not leave all degrees as they are: that of `x^2` is lost under two signs, and under one
sign `3 x` has its variable for a degree. -/
theorem degree_changed_by_signs :
    UnivariateTerm (pow (var "x") (number "2")) ∧
      (pow (var "x") (number "2")).degree = .ok (some (number "2")) ∧
      (neg (neg (pow (var "x") (number "2")))).degree =
        .error (.noExponent (neg (pow (var "x") (number "2")))) ∧
      UnivariateTerm (juxtapose [number "3", var "x"]) ∧
      (juxtapose [number "3", var "x"]).degree = .ok (some (number "1")) ∧
      (neg (juxtapose [number "3", var "x"])).degree = .ok (some (var "x")) :=
  ⟨.power (.intro _ _ _ _), rfl, rfl, .multiple _ rfl (.inl rfl), rfl, rfl⟩

end MathExpr.Expr
