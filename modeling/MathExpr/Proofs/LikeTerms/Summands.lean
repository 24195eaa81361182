import Mathlib.Algebra.BigOperators.Group.List.Basic
import MathExpr.Proofs.LikeTerms.Value

/-!
# The terms of plain polynomials

The terms considered here are products of numbers, fractions of numbers and variable factors under
any number of negations.  There are three kinds of them: constants, terms with variable factors, and
terms that fall apart, because there is no coefficient without variable factors to go with.

* `Expr.isTerm_product_iff` — what makes a product a term.
* `Expr.Numeric`, `Expr.Factor`, `Expr.Summand` — numbers, factors, and the terms made of them.
* `Expr.fallsApart`, `Expr.fragments` — the terms of the last kind, and what they fall into.
* `Expr.Summand.kinds` — there is no fourth kind.
* `Expr.Summand.value_eq` — a term is worth its variable factors times its coefficient.
* **`Expr.pieces_of_isConstant`**, **`Expr.Summand.pieces_of_variableFactors`**,
  **`Expr.Summand.pieces_of_fallsApart`** — the pieces of the terms of each kind.
-/

namespace MathExpr.Expr

/-! ## Terms -/

lemma allTerms_eq_all (es : List Expr) : allTerms es = es.all isTerm := by
  induction es with
  | nil => rfl
  | cons e es ih => rw [allTerms, ih, List.all_cons]

/-- A product is a term if all its factors are. -/
lemma isTerm_product_iff {factors : List Expr} {marks : Marks} :
    (apply .mul factors marks).isTerm = true ↔ ∀ a ∈ factors, a.isTerm = true := by
  rw [isTerm, allTerms_eq_all, List.all_eq_true]

/-! ## The classes -/

/-- Numerals under any number of negations. -/
inductive Numeric : Expr → Prop
  | numeral (numeral : String) : Numeric (.number numeral)
  | neg {e : Expr} (marks : Marks) : Numeric e → Numeric (.neg e marks)

/-- Numbers, fractions of numbers, and variable factors. -/
inductive Factor : Expr → Prop
  | numeric {e : Expr} : Numeric e → Factor e
  | fraction {a b : Expr} (marks : Marks) : Numeric a → Numeric b →
      Factor (.apply .div [a, b] marks)
  | variableFactor {e : Expr} : e.isVariableFactor = true → Factor e

/-- Factors and products of factors, under any number of negations. -/
inductive Summand : Expr → Prop
  | factor {e : Expr} : Factor e → Summand e
  | product {args : List Expr} (marks : Marks) : (∀ a ∈ args, Factor a) →
      Summand (.apply .mul args marks)
  | neg {e : Expr} (marks : Marks) : Summand e → Summand (.neg e marks)

/-- Whether a term is a negated fraction, or a product without variable factors, perhaps under
further negations.  It has no key then, and is no constant. -/
def fallsApart : Expr → Bool
  | .apply .mul factors _ => !factors.any isVariableFactor
  | .apply .neg [e] _ => e.isOp .div || e.fallsApart
  | _ => false

/-- What such a term falls into: the fraction, or the factors of the product.  The negations around
it are lost. -/
def fragments : Expr → List Expr
  | .apply .mul factors _ => factors
  | .apply .neg [e] _ => e.fragments
  | e => [e]

lemma fallsApart_neg (e : Expr) (marks : Marks) :
    (neg e marks).fallsApart = (e.isOp .div || e.fallsApart) := rfl

lemma variableFactors_neg (e : Expr) (marks : Marks) :
    (neg e marks).variableFactors = e.variableFactors := rfl

lemma fragments_neg (e : Expr) (marks : Marks) : (neg e marks).fragments = e.fragments := rfl

/-! ## Numbers and factors -/

section IsNumber

variable {e : Expr}

lemma isTerm_of_isNumber (h : e.isNumber = true) : e.isTerm = true := by
  unfold isNumber at h
  fun_induction numeral? e with
  | case1 => rfl
  | case2 e _ _ ih => rw [isTerm, ih h]
  | case3 => cases h

lemma variableFactors_of_isNumber (h : e.isNumber = true) : e.variableFactors = [] := by
  unfold isNumber at h
  fun_induction numeral? e with
  | case1 => rfl
  | case2 e _ _ ih => exact ih h
  | case3 => cases h

lemma isNumber_eq_false_of_isFraction (h : e.isFraction = true) : e.isNumber = false := by
  fun_induction isFraction e with
  | case1 => rfl
  | case2 e _ _ ih => exact ih h
  | case3 => cases h

/-- A fraction of numbers is a fraction at its root, since no negation of a fraction has a number
for its operand. -/
lemma exists_of_isConstantFraction (h : e.isConstantFraction = true) :
    ∃ args marks, e = apply .div args marks ∧ ∀ a ∈ args, a.isNumber = true := by
  rw [isConstantFraction, Bool.and_eq_true] at h
  obtain ⟨hfraction, hoperands⟩ := h
  unfold isFraction at hfraction
  split at hfraction
  · exact ⟨_, _, rfl, List.all_eq_true.mp hoperands⟩
  · next operand _ _ =>
    have hnumber : operand.isNumber = true :=
      List.all_eq_true.mp hoperands operand (List.mem_cons_self ..)
    rw [isNumber_eq_false_of_isFraction hfraction] at hnumber
    cases hnumber
  · cases hfraction

/-- A negation is a constant only if it is a number. -/
lemma isConstant_neg (e : Expr) (marks : Marks) : (neg e marks).isConstant = e.isNumber := by
  have hfraction : (neg e marks).isConstantFraction = (e.isFraction && e.isNumber) :=
    congrArg (e.isFraction && ·) (Bool.and_true e.isNumber)
  have hnumber : (neg e marks).isNumber = e.isNumber := rfl
  rw [isConstant, hnumber, hfraction]
  cases h : e.isFraction with
  | false => exact Bool.or_false _
  | true =>
      rw [isNumber_eq_false_of_isFraction h]
      rfl

end IsNumber

namespace Numeric

variable {e : Expr}

lemma isNumber (h : Numeric e) : e.isNumber = true := by
  induction h with
  | numeral => rfl
  | neg _ _ ih => exact ih

lemma isConstant (h : Numeric e) : e.isConstant = true := by
  rw [Expr.isConstant, h.isNumber, Bool.true_or]

lemma not_isOp_div (h : Numeric e) : e.isOp .div = false := by
  cases h <;> rfl

lemma not_isVariableFactor (h : Numeric e) : e.isVariableFactor = false := by
  cases h <;> rfl

lemma not_fallsApart (h : Numeric e) : e.fallsApart = false := by
  induction h with
  | numeral => rfl
  | neg _ he ih => rw [fallsApart_neg, he.not_isOp_div, ih, Bool.or_false]

end Numeric

/-- A fraction of numbers is a constant. -/
lemma isConstant_fraction {a b : Expr} (marks : Marks) (ha : Numeric a) (hb : Numeric b) :
    (apply .div [a, b] marks).isConstant = true := by
  have hoperands : [a, b].all Expr.isNumber = true := by
    rw [List.all_cons, List.all_cons, List.all_nil, ha.isNumber, hb.isNumber]
    rfl
  exact hoperands

/-- A variable factor is an identifier, or a power of one. -/
lemma exists_of_isVariableFactor {e : Expr} (h : e.isVariableFactor = true) :
    (∃ name s, e = identifier name s) ∨
      ∃ name s x marks, e = apply .pow [identifier name s, x] marks := by
  unfold isVariableFactor at h
  split at h
  · exact .inl ⟨_, _, rfl⟩
  · next b x marks =>
    rw [Bool.and_eq_true] at h
    obtain ⟨hbase, -⟩ := h
    unfold isIdentifier at hbase
    split at hbase
    · exact .inr ⟨_, _, x, marks, rfl⟩
    · cases hbase
  · cases h

lemma isTerm_of_isVariableFactor {e : Expr} (h : e.isVariableFactor = true) : e.isTerm = true := by
  fun_induction isVariableFactor e with
  | case1 => rfl
  | case2 b x marks ih =>
      rw [Bool.and_eq_true, Bool.or_eq_true] at h
      obtain ⟨hbase, hexponent⟩ := h
      have hx : x.isTerm = true := hexponent.elim isTerm_of_isNumber ih
      rw [isTerm, hbase, hx]
      rfl
  | case3 => cases h

lemma isConstant_eq_false_of_isVariableFactor {e : Expr} (h : e.isVariableFactor = true) :
    e.isConstant = false := by
  rcases exists_of_isVariableFactor h with ⟨name, s, rfl⟩ | ⟨name, s, x, marks, rfl⟩
  · rfl
  · rfl

lemma hasConstantBase_eq_false_of_isVariableFactor {e : Expr} (h : e.isVariableFactor = true) :
    e.hasConstantBase = false := by
  rcases exists_of_isVariableFactor h with ⟨name, s, rfl⟩ | ⟨name, s, x, marks, rfl⟩
  · rfl
  · rfl

/-- A variable factor is its own and only variable factor. -/
lemma variableFactors_of_isVariableFactor {e : Expr} (h : e.isVariableFactor = true) :
    e.variableFactors = [e] := by
  rcases exists_of_isVariableFactor h with ⟨name, s, rfl⟩ | ⟨name, s, x, marks, rfl⟩
  · rfl
  · exact if_pos h

/-- The coefficient of a variable factor is one. -/
lemma coefficient?_of_isVariableFactor {e : Expr} (h : e.isVariableFactor = true) :
    e.coefficient? = some (ofInt 1) := by
  rcases exists_of_isVariableFactor h with ⟨name, s, rfl⟩ | ⟨name, s, x, marks, rfl⟩
  · rfl
  · rfl

namespace Factor

variable {e : Expr}

lemma isTerm (h : Factor e) : e.isTerm = true := by
  cases h with
  | numeric h => exact isTerm_of_isNumber h.isNumber
  | fraction marks ha hb =>
      rw [Expr.isTerm, List.all_cons, List.all_cons, List.all_nil, ha.isNumber, hb.isNumber]
      rfl
  | variableFactor h => exact isTerm_of_isVariableFactor h

/-- A factor is either a variable factor or a constant. -/
lemma isConstant (h : Factor e) : e.isConstant = !e.isVariableFactor := by
  cases h with
  | numeric h => rw [h.isConstant, h.not_isVariableFactor]; rfl
  | fraction marks ha hb => exact isConstant_fraction marks ha hb
  | variableFactor h => rw [isConstant_eq_false_of_isVariableFactor h, h]; rfl

end Factor

/-! ## Terms that fall apart -/

section FallsApart

variable {e : Expr}

lemma exists_of_isOp {op : Operator} (h : e.isOp op = true) :
    ∃ args marks, e = apply op args marks := by
  unfold isOp at h
  split at h
  · next args marks =>
    rw [decide_eq_true_eq] at h
    exact ⟨args, marks, by rw [h]⟩
  · cases h

/-- They have no variable factors. -/
lemma variableFactors_of_fallsApart (h : e.fallsApart = true) : e.variableFactors = [] := by
  fun_induction fallsApart e with
  | case1 args marks =>
      rw [Bool.not_eq_true', List.any_eq_false] at h
      exact List.filter_eq_nil_iff.mpr h
  | case2 e marks ih =>
      rw [Bool.or_eq_true] at h
      rcases h with hdiv | hapart
      · obtain ⟨args, marks, rfl⟩ := exists_of_isOp hdiv
        rfl
      · exact ih hapart
  | case3 => cases h

/-- And they are no numbers. -/
lemma isNumber_eq_false_of_fallsApart (h : e.fallsApart = true) : e.isNumber = false := by
  fun_induction fallsApart e with
  | case1 => rfl
  | case2 e marks ih =>
      rw [Bool.or_eq_true] at h
      rcases h with hdiv | hapart
      · obtain ⟨args, marks, rfl⟩ := exists_of_isOp hdiv
        rfl
      · exact ih hapart
  | case3 => cases h

end FallsApart

/-! ## Keys -/

/-- A term with variable factors has a key. -/
lemma exists_key? {e : Expr} (print : Printer) (h : e.variableFactors ≠ []) :
    ∃ key, e.key? print = some key := by
  have hsorted : sortVariables e.variableFactors ≠ [] := by
    intro hnil
    have hlen := congrArg List.length hnil
    rw [sortVariables, List.length_mergeSort, List.length_nil, List.length_eq_zero_iff] at hlen
    exact h hlen
  unfold key? likeKey?
  split
  · next hnil => exact absurd hnil hsorted
  · exact ⟨_, rfl⟩
  · exact ⟨_, rfl⟩

/-- A term without variable factors has none. -/
lemma key?_eq_none {e : Expr} (print : Printer) (h : e.variableFactors = []) :
    e.key? print = none := by
  rw [key?, h, sortVariables, List.mergeSort_nil, likeKey?]

/-! ## Pieces -/

section Pieces

variable {print : Printer} {e : Expr}

/-- A constant is a piece of its own. -/
theorem pieces_of_isConstant (h : e.isConstant = true) : e.pieces print = [.constant e] := by
  apply pieces_of_piece?
  rw [piece?, if_pos h]

/-- So is a term with a key, if it has a coefficient to go with. -/
lemma pieces_of_like {key : String} {c : Expr} (hconstant : e.isConstant = false)
    (hterm : e.isTerm = true) (hbase : e.hasConstantBase = false) (hkey : e.key? print = some key)
    (hcoefficient : e.coefficient? = some c) : e.pieces print = [.like key c] := by
  apply pieces_of_piece?
  rw [piece?, hconstant, hterm, hbase, hkey, hcoefficient]
  rfl

/-- Without a key nothing but constants are pieces. -/
lemma piece?_eq_none (hconstant : e.isConstant = false) (hvars : e.variableFactors = []) :
    e.piece? print = none := by
  rw [piece?, hconstant, key?_eq_none print hvars]
  exact ite_self none

lemma pieces_product (args : List Expr) (marks : Marks)
    (hvars : (apply .mul args marks).variableFactors = []) :
    (apply .mul args marks).pieces print = .descent "mul" :: allPieces print args := by
  have hpiece : (apply .mul args marks).piece? print = none := piece?_eq_none rfl hvars
  rw [pieces, hpiece]
  rfl

lemma pieces_neg (marks : Marks) (hnumber : e.isNumber = false) (hvars : e.variableFactors = []) :
    (neg e marks).pieces print = .descent "neg" :: e.pieces print := by
  have hconstant : (neg e marks).isConstant = false := (isConstant_neg e marks).trans hnumber
  have hpiece : (neg e marks).piece? print = none := piece?_eq_none hconstant hvars
  rw [neg] at hpiece ⊢
  rw [pieces, hpiece]
  exact congrArg (Piece.descent "neg" :: ·) (List.append_nil _)

end Pieces

namespace Summand

variable {t : Expr}

lemma isTerm (h : Summand t) : t.isTerm = true := by
  induction h with
  | factor h => exact h.isTerm
  | product marks hargs => exact isTerm_product_iff.mpr fun a ha => (hargs a ha).isTerm
  | neg marks _ ih => rw [Expr.neg, Expr.isTerm, ih]

/-- Among the terms only the fractions of numbers are fractions. -/
lemma exists_of_isOp_div (h : Summand t) (hdiv : t.isOp .div = true) :
    ∃ a b marks, t = apply .div [a, b] marks ∧ Numeric a ∧ Numeric b := by
  cases h with
  | factor h =>
      cases h with
      | numeric h =>
          rw [h.not_isOp_div] at hdiv
          cases hdiv
      | fraction marks ha hb => exact ⟨_, _, marks, rfl, ha, hb⟩
      | variableFactor h =>
          rcases exists_of_isVariableFactor h with ⟨name, s, rfl⟩ | ⟨name, s, x, marks, rfl⟩
          · cases hdiv
          · cases hdiv
  | product => cases hdiv
  | neg => cases hdiv

lemma isConstant_of_isOp_div (h : Summand t) (hdiv : t.isOp .div = true) :
    t.isConstant = true := by
  obtain ⟨a, b, marks, rfl, ha, hb⟩ := h.exists_of_isOp_div hdiv
  exact isConstant_fraction marks ha hb

/-- A term that does not fall apart is a number or a fraction, or it has variable factors. -/
lemma numeric_or_isOp_div_or_ne_nil (h : Summand t) (hwhole : t.fallsApart = false) :
    Numeric t ∨ t.isOp .div = true ∨ t.variableFactors ≠ [] := by
  induction h with
  | factor h =>
      cases h with
      | numeric h => exact .inl h
      | fraction => exact .inr (.inl rfl)
      | variableFactor h =>
          rw [variableFactors_of_isVariableFactor h]
          exact .inr (.inr (List.cons_ne_nil _ _))
  | product marks hargs =>
      rw [fallsApart, Bool.not_eq_false', List.any_eq_true] at hwhole
      obtain ⟨a, ha, hvar⟩ := hwhole
      exact .inr (.inr (List.ne_nil_of_mem (List.mem_filter.mpr ⟨ha, hvar⟩)))
  | neg marks _ ih =>
      rw [fallsApart_neg, Bool.or_eq_false_iff] at hwhole
      obtain ⟨hdiv, hwhole⟩ := hwhole
      rcases ih hwhole with hnumeric | hdiv' | hvars
      · exact .inl (.neg marks hnumeric)
      · rw [hdiv] at hdiv'
        cases hdiv'
      · exact .inr (.inr hvars)

/-- **A term that does not fall apart** is a constant or has variable factors. -/
theorem kinds (h : Summand t) (hwhole : t.fallsApart = false) :
    t.isConstant = true ∨ t.variableFactors ≠ [] := by
  rcases h.numeric_or_isOp_div_or_ne_nil hwhole with hnumeric | hdiv | hvars
  · exact .inl hnumeric.isConstant
  · exact .inl (h.isConstant_of_isOp_div hdiv)
  · exact .inr hvars

/-- A term with variable factors is no constant, and no power of a number. -/
lemma not_isConstant (h : Summand t) (hvars : t.variableFactors ≠ []) :
    t.isConstant = false ∧ t.hasConstantBase = false := by
  cases h with
  | factor h =>
      have hconstant := h.isConstant
      cases h with
      | numeric h => exact absurd (variableFactors_of_isNumber h.isNumber) hvars
      | fraction => exact absurd rfl hvars
      | variableFactor h =>
          exact ⟨isConstant_eq_false_of_isVariableFactor h,
            hasConstantBase_eq_false_of_isVariableFactor h⟩
  | product => exact ⟨rfl, rfl⟩
  | @neg e marks h =>
      have hnumber : e.isNumber = false := by
        rw [← Bool.not_eq_true]
        intro hnumber
        exact hvars (variableFactors_of_isNumber hnumber)
      exact ⟨(isConstant_neg e marks).trans hnumber, rfl⟩

/-- The constants among factors, multiplied. -/
lemma value_constantProduct (I : Interpretation) (constants : List Expr) :
    I.value (constantProduct constants) = I.product constants := by
  unfold constantProduct
  split
  · exact I.value_one
  · rw [I.product_cons, I.product_nil, mul_one]
  · exact I.value_product _ _

/-- A product of factors is that of its variable factors times that of its constants. -/
lemma product_eq (I : Interpretation) {args : List Expr} (hargs : ∀ a ∈ args, Factor a) :
    I.product args =
      I.product (args.filter isVariableFactor) * I.product (args.filter isConstant) := by
  induction args with
  | nil => exact (mul_one 1).symm
  | cons a args ih =>
      obtain ⟨ha, hargs⟩ := List.forall_mem_cons.mp hargs
      have hconstant := ha.isConstant
      rw [I.product_cons, ih hargs, List.filter_cons, List.filter_cons, hconstant]
      cases a.isVariableFactor with
      | true => exact (mul_assoc _ _ _).symm
      | false => exact mul_left_comm _ _ _

/-- **A term is worth its variable factors times its coefficient.** -/
theorem value_eq (h : Summand t) (hvars : t.variableFactors ≠ []) :
    ∃ c, t.coefficient? = some c ∧
      ∀ I : Interpretation, I.value t = I.product t.variableFactors * I.value c := by
  induction h with
  | @factor e h =>
      cases h with
      | numeric h => exact absurd (variableFactors_of_isNumber h.isNumber) hvars
      | fraction => exact absurd rfl hvars
      | variableFactor h =>
          refine ⟨ofInt 1, coefficient?_of_isVariableFactor h, fun I => ?_⟩
          rw [variableFactors_of_isVariableFactor h, I.value_one, I.product_cons, I.product_nil,
            mul_one, mul_one]
  | @product args marks hargs =>
      refine ⟨_, rfl, fun I => ?_⟩
      rw [I.value_product, value_constantProduct, product_eq I hargs]
      rfl
  | @neg e marks h ih =>
      -- the coefficient of a negation is negated, and so is the value
      obtain ⟨c, hc, hvalue⟩ := ih hvars
      have hnumber : ¬ e.isNumber = true := fun hnumber =>
        hvars (variableFactors_of_isNumber hnumber)
      refine ⟨Expr.neg c { subtracted := marks.subtracted }, ?_, fun I => ?_⟩
      · rw [Expr.neg, coefficient?, if_neg hnumber, hc]
        rfl
      · rw [I.value_neg, I.value_neg, variableFactors_neg, hvalue, mul_neg]

/-- **With variable factors a term is filed under its key.** -/
theorem pieces_of_variableFactors (print : Printer) (h : Summand t)
    (hvars : t.variableFactors ≠ []) :
    ∃ key c, t.key? print = some key ∧ t.pieces print = [.like key c] ∧
      ∀ I : Interpretation, I.value t = I.product t.variableFactors * I.value c := by
  obtain ⟨key, hkey⟩ := exists_key? print hvars
  obtain ⟨c, hcoefficient, hvalue⟩ := h.value_eq hvars
  obtain ⟨hconstant, hbase⟩ := h.not_isConstant hvars
  exact ⟨key, c, hkey, pieces_of_like hconstant h.isTerm hbase hkey hcoefficient, hvalue⟩

/-- **A term that falls apart** is walked through down to its fragments, which are constants. -/
theorem pieces_of_fallsApart (print : Printer) (h : Summand t) (hapart : t.fallsApart = true) :
    ∃ names : List String,
      t.pieces print = names.map Piece.descent ++ t.fragments.map Piece.constant := by
  induction h with
  | factor h =>
      cases h with
      | numeric h =>
          rw [h.not_fallsApart] at hapart
          cases hapart
      | fraction => cases hapart
      | variableFactor h =>
          rcases exists_of_isVariableFactor h with ⟨name, s, rfl⟩ | ⟨name, s, x, marks, rfl⟩
          · cases hapart
          · cases hapart
  | @product args marks hargs =>
      have hconstants : ∀ a ∈ args, a.pieces print = [.constant a] := by
        intro a ha
        rw [fallsApart, Bool.not_eq_true', List.any_eq_false] at hapart
        refine pieces_of_isConstant ?_
        rw [(hargs a ha).isConstant, eq_false_of_ne_true (hapart a ha)]
        rfl
      refine ⟨["mul"], ?_⟩
      rw [pieces_product args marks (variableFactors_of_fallsApart hapart), allPieces_eq_flatMap,
        List.flatMap_def, List.map_congr_left hconstants, ← List.flatMap_def, ← List.map_eq_flatMap]
      rfl
  | @neg e marks h ih =>
      have hvars : e.variableFactors = [] :=
        variableFactors_of_fallsApart (e := Expr.neg e marks) hapart
      have hnumber : e.isNumber = false :=
        isNumber_eq_false_of_fallsApart (e := Expr.neg e marks) hapart
      rw [fallsApart_neg, Bool.or_eq_true] at hapart
      rw [pieces_neg marks hnumber hvars, fragments_neg]
      rcases hapart with hdiv | hapart
      · have hconstant := h.isConstant_of_isOp_div hdiv
        obtain ⟨a, b, marks, rfl, -, -⟩ := h.exists_of_isOp_div hdiv
        exact ⟨["neg"], by rw [pieces_of_isConstant hconstant]; rfl⟩
      · obtain ⟨names, hnames⟩ := ih hapart
        exact ⟨"neg" :: names, by rw [hnames]; rfl⟩

end Summand

end MathExpr.Expr
