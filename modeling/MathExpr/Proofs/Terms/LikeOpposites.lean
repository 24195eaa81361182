import MathExpr.Proofs.LikeTerms.Keys
import MathExpr.Proofs.Terms.Opposite

/-!
# Opposite terms are like terms

A term whose sign is turned stays a term.  Only its coefficient changes: the variable factors, their
order and how they are put together are what they were, so both terms have one key.

* `Expr.Negates.isTerm` — the opposite of a term is a term.
* `Expr.Negates.variableFactors_eq`, `Expr.Negates.isJuxtaposed_eq` — what a key is made of stays.
* `Expr.Negates.coefficients` — the coefficients are opposites.
* **`Expr.negate?_like`** — a term with variable factors has an opposite, which is filed under its
  key.
-/

namespace MathExpr.Expr

variable {e m p c : Expr} {es factors : List Expr} {marks cmarks : Marks}

/-! ## A negative coefficient -/

/-- The operand of a negative coefficient is a number. -/
lemma isNumber_of_filter (h : factors.filter isConstant = [.apply .neg (p :: es) cmarks]) :
    p.isNumber = true := by
  have hconstant : (apply .neg (p :: es) cmarks).isConstant = true :=
    (List.mem_filter.mp (h ▸ List.mem_singleton_self _)).2
  obtain ⟨_, _, hargs, hnumber⟩ := isNumber_of_isConstant_neg hconstant
  obtain ⟨rfl, rfl⟩ := List.cons.inj hargs
  exact hnumber

/-- Without their only constant, factors have no constants. -/
lemma filter_erase_eq_nil (h : factors.filter isConstant = [c]) :
    (factors.erase c).filter isConstant = [] := by
  obtain ⟨hmem, hconstant⟩ := List.mem_filter.mp (h ▸ List.mem_singleton_self c)
  have hperm := ((List.perm_cons_erase hmem).filter isConstant).length_eq
  rw [h, List.filter_cons_of_pos hconstant, List.length_singleton, List.length_cons] at hperm
  exact List.eq_nil_of_length_eq_zero (by omega)

/-- A constant is not missed among the variable factors. -/
lemma filter_isVariableFactor_erase (h : c.isVariableFactor = false) (factors : List Expr) :
    (factors.erase c).filter isVariableFactor = factors.filter isVariableFactor := by
  induction factors with
  | nil => rfl
  | cons a factors ih =>
      by_cases hac : a = c
      · subst hac
        rw [List.erase_cons_head, List.filter_cons_of_neg (by simp [h])]
      · rw [List.erase_cons_tail (by simpa using hac), List.filter_cons, List.filter_cons, ih]

lemma isVariableFactor_eq_false_of_isNumber (h : e.isNumber = true) :
    e.isVariableFactor = false := by
  rw [← Bool.not_eq_true]
  intro hvar
  have hnil := variableFactors_of_isNumber h
  rw [variableFactors_of_isVariableFactor hvar] at hnil
  cases hnil

/-- The coefficient of a negated term is that of the term, negated. -/
lemma coefficient?_neg (hvars : e.variableFactors ≠ []) (hc : e.coefficient? = some c) :
    (apply .neg (e :: es) marks).coefficient? =
      some (neg c { subtracted := marks.subtracted }) := by
  have hnumber : ¬ e.isNumber = true := fun hnumber => hvars (variableFactors_of_isNumber hnumber)
  rw [coefficient?, if_neg hnumber, hc]
  rfl

/-! ## What is kept, and what is turned -/

namespace Negates

lemma isNumber (h : Negates e m) (hnumber : e.isNumber = true) : m.isNumber = true := by
  cases h with
  | signed => exact hnumber
  | fraction | coefficient => cases hnumber
  | unsigned => exact hnumber

/-- The opposite of a term is a term. -/
lemma isTerm (h : Negates e m) (hterm : e.isTerm = true) : m.isTerm = true := by
  cases h with
  | signed => exact hterm
  | @fraction a a' b rest marks ha =>
      have hoperands : ∀ d ∈ a :: b :: rest, d.isNumber = true := List.all_eq_true.mp hterm
      have hpair : ∀ d ∈ [a', b], d.isNumber = true := List.forall_mem_cons.mpr
        ⟨ha.isNumber (hoperands a (.head _)),
          List.forall_mem_singleton.mpr (hoperands b (.tail _ (.head _)))⟩
      exact List.all_eq_true.mpr hpair
  | coefficient _ hfilter =>
      refine isTerm_product_iff.mpr (List.forall_mem_cons.mpr ⟨?_, fun a ha => ?_⟩)
      · exact isTerm_of_isNumber (isNumber_of_filter hfilter)
      · exact isTerm_product_iff.mp hterm a (List.mem_of_mem_erase ha)
  | unsigned => exact hterm

/-- Turning a sign leaves the variable factors and their order alone. -/
lemma variableFactors_eq (h : Negates e m) : m.variableFactors = e.variableFactors := by
  cases h with
  | signed | unsigned | fraction => rfl
  | @coefficient p es factors cmarks marks _ hfilter =>
      have hp := isVariableFactor_eq_false_of_isNumber (isNumber_of_filter hfilter)
      rw [variableFactors, variableFactors, List.filter_cons_of_neg (by simp [hp])]
      exact filter_isVariableFactor_erase rfl factors

/-- So it leaves how they are put together. -/
lemma isJuxtaposed_eq (h : Negates e m) : m.isJuxtaposed = e.isJuxtaposed := by
  cases h <;> rfl

lemma key?_eq (print : Printer) (h : Negates e m) : m.key? print = e.key? print := by
  rw [key?, key?, h.variableFactors_eq, h.isJuxtaposed_eq]

/-- The coefficients of opposite terms are opposites. -/
lemma coefficients (h : Negates e m) (harity : e.Everywhere HasArity)
    (hvars : e.variableFactors ≠ []) :
    ∃ c c', e.coefficient? = some c ∧ m.coefficient? = some c' ∧
      ∀ v : Valuation, v.value c' = -v.value c := by
  cases h with
  | signed =>
      obtain ⟨c, hc⟩ := exists_coefficient? (e := m) hvars
      refine ⟨_, c, coefficient?_neg hvars hc, hc, fun v => ?_⟩
      rw [neg, v.value_neg, neg_neg]
  | fraction => exact absurd rfl hvars
  | @coefficient p es factors cmarks marks _ hfilter =>
      have hmem : apply .neg (p :: es) cmarks ∈ factors :=
        (List.mem_filter.mp (hfilter ▸ List.mem_singleton_self _)).1
      have hneg := (everywhere_apply.mp harity).2 _ hmem _ (mem_subterms_self _)
      obtain ⟨_, hsingle⟩ := exists_eq_singleton_of_hasArity hneg
      obtain ⟨rfl, rfl⟩ := List.cons.inj hsingle
      have hp : p.isConstant = true := by
        rw [isConstant, isNumber_of_filter hfilter, Bool.true_or]
      refine ⟨apply .neg [p] cmarks, p, ?_, ?_, fun v => ?_⟩
      · rw [coefficient?, hfilter, constantProduct]
      · rw [coefficient?, List.filter_cons_of_pos hp, filter_erase_eq_nil hfilter, constantProduct]
      · rw [v.value_neg, neg_neg]
  | unsigned =>
      obtain ⟨c, hc⟩ := exists_coefficient? hvars
      exact ⟨c, _, hc, coefficient?_neg hvars hc, fun v => v.value_neg c _⟩

end Negates

/-! ## One key -/

/-- **Opposite terms are like terms.**  A term with variable factors has an opposite, which is a
term with the same variable factors, put together in the same way; both are filed under one key,
whatever the printer, and the coefficients that are filed are opposites. -/
theorem negate?_like (harity : e.Everywhere HasArity) (hterm : e.isTerm = true)
    (hvars : e.variableFactors ≠ []) :
    ∃ m c c', e.negate? = some m ∧ m.isTerm = true ∧ m.variableFactors = e.variableFactors ∧
      m.isJuxtaposed = e.isJuxtaposed ∧ e.coefficient? = some c ∧ m.coefficient? = some c' ∧
      (∀ v : Valuation, v.value c' = -v.value c) ∧
      ∀ print : Printer, ∃ key, e.key? print = some key ∧ m.key? print = some key ∧
        e.decompose print = Decomposition.add {} (.like key c) ∧
        m.decompose print = Decomposition.add {} (.like key c') := by
  obtain ⟨m, h⟩ := exists_negates_of_isTerm (harity _ (mem_subterms_self _)) hterm
  obtain ⟨c, c', hc, hc', hvalue⟩ := h.coefficients harity hvars
  have hvars' : m.variableFactors ≠ [] := h.variableFactors_eq ▸ hvars
  refine ⟨m, c, c', negate?_eq_some_iff.mpr h, h.isTerm hterm, h.variableFactors_eq,
    h.isJuxtaposed_eq, hc, hc', hvalue, fun print => ?_⟩
  obtain ⟨key, d, hkey, hd, hdecompose⟩ := decompose_of_term print hterm hvars
  obtain ⟨key', d', hkey', hd', hdecompose'⟩ := decompose_of_term print (h.isTerm hterm) hvars'
  obtain rfl : c = d := Option.some.inj (hc.symm.trans hd)
  obtain rfl : c' = d' := Option.some.inj (hc'.symm.trans hd')
  obtain rfl : key = key' :=
    Option.some.inj (hkey.symm.trans ((h.key?_eq print).symm.trans hkey'))
  exact ⟨key, hkey, hkey', hdecompose, hdecompose'⟩

/-- The opposite of `x * -3 * y^2`, without its signs, has its coefficient in front and without the
minus sign.  Both have the variable factors `x` and `y^2`, and one key. -/
theorem negate?_like_negativeCoefficient :
    (juxtapose [var "x", neg (number "3"), pow (var "y") (number "2")]).Everywhere HasArity ∧
      (juxtapose [var "x", neg (number "3"), pow (var "y") (number "2")]).isTerm = true ∧
      (juxtapose [var "x", neg (number "3"), pow (var "y") (number "2")]).variableFactors ≠ [] ∧
      (juxtapose [var "x", neg (number "3"), pow (var "y") (number "2")]).negate? =
        some (juxtapose [number "3", var "x", pow (var "y") (number "2")]) ∧
      (juxtapose [number "3", var "x", pow (var "y") (number "2")]).variableFactors =
        (juxtapose [var "x", neg (number "3"), pow (var "y") (number "2")]).variableFactors ∧
      (∀ v : Valuation, v.value (number "3") = -v.value (neg (number "3"))) ∧
      ∀ print : Printer, ∃ key,
        (juxtapose [var "x", neg (number "3"), pow (var "y") (number "2")]).key? print =
          some key ∧
        (juxtapose [number "3", var "x", pow (var "y") (number "2")]).key? print = some key := by
  have harity : (juxtapose [var "x", neg (number "3"),
      pow (var "y") (number "2")]).Everywhere HasArity := by decide
  have hterm : (juxtapose [var "x", neg (number "3"),
      pow (var "y") (number "2")]).isTerm = true := by decide
  have hvars : (juxtapose [var "x", neg (number "3"),
      pow (var "y") (number "2")]).variableFactors ≠ [] := by decide
  have hnegate : (juxtapose [var "x", neg (number "3"), pow (var "y") (number "2")]).negate? =
      some (juxtapose [number "3", var "x", pow (var "y") (number "2")]) := by decide
  obtain ⟨m, c, c', hm, -, hfactors, -, hc, hc', hvalue, hkeys⟩ := negate?_like harity hterm hvars
  obtain rfl := Option.some.inj (hnegate.symm.trans hm)
  obtain rfl : neg (number "3") = c := Option.some.inj hc
  obtain rfl : number "3" = c' := Option.some.inj hc'
  refine ⟨harity, hterm, hvars, hnegate, hfactors, hvalue, fun print => ?_⟩
  obtain ⟨key, hkey, hkey', -⟩ := hkeys print
  exact ⟨key, hkey, hkey'⟩

end MathExpr.Expr
