import MathExpr.Proofs.LikeTerms.Appending
import MathExpr.Proofs.LikeTerms.Conservation
import MathExpr.Proofs.LikeTerms.Keys

/-!
# The groups of a canonical polynomial

The terms of a canonical polynomial are constants and monomials.  None of them falls apart, so its
decomposition can be read off the list of its terms: the constants are those among the terms, and
under each key there are the coefficients of the terms with that key, in the order of the terms.

* `Expr.ConstantTerm`, `Expr.Monomial` — the two kinds of terms; a monomial comes with its variable
  factors, and with whether they stand side by side.
* `Expr.SortsByName` — factors in the order of their names, those of one name as they were written;
  there is a single such order (`Expr.SortsByName.eq_sortVariables`).
* `Expr.decompose_add` — the terms of a polynomial are collected one after the other.
* `Expr.PutsDown` — what a single term puts into a decomposition.
* **`Expr.groups_of_canonical`** — the decomposition of a canonical polynomial.
-/

namespace MathExpr.Expr

variable {print : Printer} {t : Expr} {terms factors : List Expr} {juxtaposed : Bool}

/-! ## The two kinds of terms -/

/-- Numbers, and fractions of two numbers. -/
inductive ConstantTerm : Expr → Prop
  | numeric {e : Expr} : Numeric e → ConstantTerm e
  | fraction {a b : Expr} (marks : Marks) : Numeric a → Numeric b →
      ConstantTerm (.apply .div [a, b] marks)

/-- Variable factors, and products of constants and of at least one variable factor, under any
number of negations.  `Monomial factors juxtaposed t`: the variable factors of the term `t` are
`factors`, and it is a product without signs between them or not. -/
inductive Monomial : List Expr → Bool → Expr → Prop
  | factor {v : Expr} : v.isVariableFactor = true → Monomial [v] false v
  | product {args : List Expr} (marks : Marks) : (∀ a ∈ args, Factor a) →
      (∃ a ∈ args, a.isVariableFactor = true) →
      Monomial (args.filter isVariableFactor) marks.juxtaposed (.apply .mul args marks)
  | neg {factors : List Expr} {juxtaposed : Bool} {e : Expr} (marks : Marks) :
      Monomial factors juxtaposed e → Monomial factors juxtaposed (.neg e marks)

namespace ConstantTerm

lemma summand (h : ConstantTerm t) : Summand t := by
  cases h with
  | numeric h => exact .factor (.numeric h)
  | fraction marks ha hb => exact .factor (.fraction marks ha hb)

lemma isConstant (h : ConstantTerm t) : t.isConstant = true := by
  cases h with
  | numeric h => exact h.isConstant
  | fraction marks ha hb => exact isConstant_fraction marks ha hb

end ConstantTerm

namespace Monomial

lemma summand (h : Monomial factors juxtaposed t) : Summand t := by
  induction h with
  | factor h => exact .factor (.variableFactor h)
  | product marks hargs => exact .product marks hargs
  | neg marks _ ih => exact ih.neg marks

lemma variableFactors_eq (h : Monomial factors juxtaposed t) : t.variableFactors = factors := by
  induction h with
  | factor h => exact variableFactors_of_isVariableFactor h
  | product => rfl
  | neg _ _ ih => exact ih

lemma isJuxtaposed_eq (h : Monomial factors juxtaposed t) : t.isJuxtaposed = juxtaposed := by
  induction h with
  | factor h =>
      rcases exists_of_isVariableFactor h with ⟨name, s, rfl⟩ | ⟨name, s, x, marks, rfl⟩
      · rfl
      · rfl
  | product => rfl
  | neg _ _ ih => exact ih

lemma factors_ne_nil (h : Monomial factors juxtaposed t) : factors ≠ [] := by
  induction h with
  | factor => exact List.cons_ne_nil _ _
  | product _ _ hvar =>
      obtain ⟨a, ha, hvar⟩ := hvar
      exact List.ne_nil_of_mem (List.mem_filter.mpr ⟨ha, hvar⟩)
  | neg _ _ ih => exact ih

lemma variableFactors_ne_nil (h : Monomial factors juxtaposed t) : t.variableFactors ≠ [] :=
  h.variableFactors_eq ▸ h.factors_ne_nil

lemma isConstant_eq_false (h : Monomial factors juxtaposed t) : t.isConstant = false :=
  (h.summand.not_isConstant h.variableFactors_ne_nil).1

/-- A monomial is worth its coefficient times its variable factors. -/
lemma value_eq (h : Monomial factors juxtaposed t) :
    ∃ c, t.coefficient? = some c ∧
      ∀ I : Interpretation, I.value t = I.value c * I.product factors := by
  obtain ⟨c, hc, hvalue⟩ := h.summand.value_eq h.variableFactors_ne_nil
  refine ⟨c, hc, fun I => ?_⟩
  rw [hvalue I, h.variableFactors_eq, mul_comm]

end Monomial

/-! ## Keys -/

/-- Factors in the order of their names.  Those of one name stay in the order they had. -/
structure SortsByName (factors sorted : List Expr) : Prop where
  perm : sorted.Perm factors
  ordered : sorted.Pairwise fun a b => namedBefore a b = true
  stable : ∀ name, sorted.filter (hasName name) = factors.filter (hasName name)

lemma sortsByName_sortVariables (factors : List Expr) :
    SortsByName factors (sortVariables factors) where
  perm := sortVariables_perm factors
  ordered := pairwise_sortVariables factors
  stable name := filter_sortVariables name factors

/-- There is a single such order. -/
lemma SortsByName.eq_sortVariables {sorted : List Expr} (h : SortsByName factors sorted) :
    sortVariables factors = sorted :=
  eq_of_filter_eq (pairwise_sortVariables factors) h.ordered
    ((sortVariables_perm factors).trans h.perm.symm)
    fun name => (filter_sortVariables name factors).trans (h.stable name).symm

/-- The key of a monomial is the text of its factors, in the order of their names. -/
lemma Monomial.key?_eq (print : Printer) (h : Monomial factors juxtaposed t) :
    ∃ sorted, SortsByName factors sorted ∧
      t.key? print = some (print (keyed juxtaposed sorted)) := by
  refine ⟨sortVariables factors, sortsByName_sortVariables factors, ?_⟩
  rw [key?, h.isJuxtaposed_eq, h.variableFactors_eq,
    likeKey?_eq_print print juxtaposed (sortVariables_ne_nil h.factors_ne_nil)]

lemma ConstantTerm.key?_eq_none (print : Printer) (h : ConstantTerm t) : t.key? print = none :=
  Expr.key?_eq_none print (variableFactors_of_isConstant h.isConstant)

/-! ## One term after the other -/

/-- The terms of a polynomial are collected one after the other. -/
theorem decompose_add (marks : Marks) (hterms : ∀ t ∈ terms, Summand t) :
    (apply .add terms marks).decompose print = Decomposition.collectAll {} print terms := by
  rw [decompose, Decomposition.collect, pieces_polynomial marks hterms, List.foldl_flatMap]
  rfl

/-- A term puts itself down if it is a constant, and else its coefficient under its key. -/
structure PutsDown (print : Printer) (t : Expr) : Prop where
  constants : (t.decompose print).constants = [t].filter isConstant
  keys : ∀ key, key ∈ (t.decompose print).groups.keys ↔ t.key? print = some key
  coefficients : ∀ key, ((t.decompose print).groups.get key).map some =
    ([t].filter fun t => t.key? print = some key).map coefficient?

lemma ConstantTerm.putsDown (print : Printer) (h : ConstantTerm t) : PutsDown print t := by
  have hdecompose : t.decompose print = { constants := [t] } := by
    rw [decompose, Decomposition.collect, pieces_of_isConstant h.isConstant]
    rfl
  have hkey := h.key?_eq_none print
  constructor
  · rw [hdecompose, List.filter_cons_of_pos h.isConstant, List.filter_nil]
  · intro key
    rw [hdecompose, hkey]
    exact iff_of_false List.not_mem_nil (Option.some_ne_none key).symm
  · intro key
    rw [hdecompose, List.filter_cons_of_neg (by simp [hkey]), List.filter_nil]
    rfl

lemma Monomial.putsDown (print : Printer) (h : Monomial factors juxtaposed t) :
    PutsDown print t := by
  obtain ⟨key, c, hkey, hc, hdecompose⟩ :=
    decompose_of_term print h.summand.isTerm h.variableFactors_ne_nil
  constructor
  · rw [hdecompose, List.filter_cons_of_neg (by simp [h.isConstant_eq_false]), List.filter_nil]
    rfl
  · intro k
    rw [hdecompose, Decomposition.mem_keys_add, Piece.key?, hkey]
    exact or_iff_right List.not_mem_nil
  · intro k
    have hget : (t.decompose print).groups.get k = if key = k then [c] else [] := by
      rw [hdecompose]
      exact CoefficientGroups.get_add .empty key c k
    rw [hget]
    split
    · next hk => rw [List.filter_cons_of_pos (by simp [hkey, hk]), List.filter_nil,
        List.map_singleton, List.map_singleton, hc]
    · next hk =>
      rw [List.filter_cons_of_neg (by simp [hkey, hk]), List.filter_nil]
      rfl

/-! ## The decomposition -/

/-- What all terms put down is a choice of the terms if it is for each of them. -/
lemma map_view_collectAll {α β : Type} (view : Decomposition → List α) {f : α → β}
    {p : Expr → Bool} {g : Expr → β} (hempty : view {} = [])
    (hcollect : ∀ d e, view (d.collect print e) = view d ++ view (e.decompose print))
    (hterms : ∀ t ∈ terms, (view (t.decompose print)).map f = ([t].filter p).map g) :
    (view (Decomposition.collectAll {} print terms)).map f = (terms.filter p).map g := by
  rw [Decomposition.view_collectAll hcollect, hempty, List.nil_append]
  induction terms with
  | nil => rfl
  | cons t terms ih =>
      obtain ⟨ht, hterms⟩ := List.forall_mem_cons.mp hterms
      rw [List.flatMap_cons, List.map_append, ht, ih hterms, ← List.map_append,
        ← List.filter_append, List.singleton_append]

section Collected

variable (hterms : ∀ t ∈ terms, PutsDown print t)
include hterms

lemma constants_collectAll :
    (Decomposition.collectAll {} print terms).constants = terms.filter isConstant := by
  have hmap := map_view_collectAll (·.constants) (f := id) (g := id) rfl
    (fun d e => (Decomposition.extends_collect d print e).constants)
    fun t ht => congrArg (List.map id) (hterms t ht).constants
  simpa only [List.map_id] using hmap

lemma mem_keys_collectAll {key : String} :
    key ∈ (Decomposition.collectAll {} print terms).groups.keys ↔
      ∃ t ∈ terms, t.key? print = some key := by
  have hempty : key ∉ (Decomposition.groups {}).keys := List.not_mem_nil
  rw [Decomposition.mem_keys_collectAll, or_iff_right hempty]
  exact exists_congr fun t => and_congr_right fun ht => (hterms t ht).keys key

lemma coefficients_collectAll (key : String) :
    ((Decomposition.collectAll {} print terms).groups.get key).map some =
      (terms.filter fun t => t.key? print = some key).map coefficient? :=
  map_view_collectAll (fun d => d.groups.get key) rfl
    (fun d e => (Decomposition.extends_collect d print e).coefficients key)
    fun t ht => (hterms t ht).coefficients key

end Collected

/-- **The groups of a canonical polynomial.**  No other parts are left, the constants are those
among the terms, and the coefficients under a key are those of the terms with that key.  Constants
have no key.  The key of a monomial is the text of its variable factors in the order of their names,
and its coefficient is what it is worth besides them. -/
theorem groups_of_canonical (print : Printer) (marks : Marks)
    (hterms : ∀ t ∈ terms, ConstantTerm t ∨ ∃ factors juxtaposed, Monomial factors juxtaposed t) :
    ((apply .add terms marks).decompose print).others = [] ∧
      ((apply .add terms marks).decompose print).constants = terms.filter isConstant ∧
      (∀ key, key ∈ ((apply .add terms marks).decompose print).groups.keys ↔
        ∃ t ∈ terms, t.key? print = some key) ∧
      (∀ key, (((apply .add terms marks).decompose print).groups.get key).map some =
        (terms.filter fun t => t.key? print = some key).map coefficient?) ∧
      (∀ t, ConstantTerm t → t.isConstant = true ∧ t.key? print = none) ∧
      ∀ factors juxtaposed t, Monomial factors juxtaposed t → t.isConstant = false ∧
        (∃ sorted, SortsByName factors sorted ∧
          t.key? print = some (print (keyed juxtaposed sorted))) ∧
        ∃ c, t.coefficient? = some c ∧
          ∀ I : Interpretation, I.value t = I.value c * I.product factors := by
  have hsummands : ∀ t ∈ terms, Summand t := fun t ht =>
    (hterms t ht).elim ConstantTerm.summand fun ⟨_, _, h⟩ => h.summand
  have hput : ∀ t ∈ terms, PutsDown print t := fun t ht =>
    (hterms t ht).elim (ConstantTerm.putsDown print) fun ⟨_, _, h⟩ => h.putsDown print
  refine ⟨others_decompose marks hsummands, ?_, fun key => ?_, fun key => ?_, ?_, ?_⟩
  · rw [decompose_add marks hsummands, constants_collectAll hput]
  · rw [decompose_add marks hsummands, mem_keys_collectAll hput]
  · rw [decompose_add marks hsummands, coefficients_collectAll hput]
  · exact fun t h => ⟨h.isConstant, h.key?_eq_none print⟩
  · exact fun factors juxtaposed t h => ⟨h.isConstant_eq_false, h.key?_eq print, h.value_eq⟩

/-- What `2 x y + 5 - 3 y x + 2/3` is read as, term by term. -/
def likeAndUnlike : List Expr :=
  [juxtapose [number "2", var "x", var "y"], number "5",
    neg (juxtapose [number "3", var "y", var "x"]) { subtracted := true },
    div (number "2") (number "3")]

lemma canonical_likeAndUnlike : ∀ t ∈ likeAndUnlike,
    ConstantTerm t ∨ ∃ factors juxtaposed, Monomial factors juxtaposed t := by
  have hproduct : ∀ numeral : String, ∀ x y : Expr, x.isVariableFactor = true →
      y.isVariableFactor = true →
      ∃ factors juxtaposed, Monomial factors juxtaposed (juxtapose [number numeral, x, y]) := by
    intro numeral x y hx hy
    refine ⟨_, _, .product _ ?_ ⟨x, by simp, hx⟩⟩
    simp only [List.forall_mem_cons]
    exact ⟨.numeric (.numeral numeral), .variableFactor hx, .variableFactor hy, nofun⟩
  simp only [likeAndUnlike, List.forall_mem_cons]
  refine ⟨.inr (hproduct _ _ _ rfl rfl), .inl (.numeric (.numeral "5")), .inr ?_, .inl ?_, nofun⟩
  · obtain ⟨factors, juxtaposed, h⟩ := hproduct "3" (var "y") (var "x") rfl rfl
    exact ⟨factors, juxtaposed, h.neg _⟩
  · exact .fraction {} (.numeral "2") (.numeral "3")

/-- The like terms of `2 x y + 5 - 3 y x + 2/3` are grouped, and its constants are kept. -/
theorem groups_of_likeAndUnlike :
    (∀ t ∈ likeAndUnlike,
      ConstantTerm t ∨ ∃ factors juxtaposed, Monomial factors juxtaposed t) ∧
    ((add likeAndUnlike).decompose fun e => e.print {}).others = [] ∧
    ((add likeAndUnlike).decompose fun e => e.print {}).constants =
      [number "5", div (number "2") (number "3")] ∧
    (∀ key, key ∈ ((add likeAndUnlike).decompose fun e => e.print {}).groups.keys ↔
      key = "x y") ∧
    ((add likeAndUnlike).decompose fun e => e.print {}).groups.get "x y" =
      [number "2", neg (number "3") { subtracted := true }] := by
  obtain ⟨hothers, hconstants, hkeys, hcoefficients, -⟩ :=
    groups_of_canonical (fun e => e.print {}) {} canonical_likeAndUnlike
  have hordered : [var "x", var "y"].Pairwise fun a b => namedBefore a b = true := by decide
  have hxy : sortVariables [var "x", var "y"] = [var "x", var "y"] :=
    SortsByName.eq_sortVariables ⟨.refl _, hordered, fun _ => rfl⟩
  have hyx : sortVariables [var "y", var "x"] = [var "x", var "y"] := by
    refine SortsByName.eq_sortVariables ⟨.swap _ _ _, hordered, fun name => ?_⟩
    by_cases hx : name = some "x"
    · subst hx
      rfl
    · have hnot : hasName name (var "x") = false := decide_eq_false (Ne.symm hx)
      simp [List.filter_cons, hnot]
  have hprint : likeKey? (fun e => e.print {}) true [var "x", var "y"] = some "x y" := by decide
  have hfirst : (juxtapose [number "2", var "x", var "y"]).key? (fun e => e.print {}) =
      some "x y" := (congrArg (likeKey? _ true) hxy).trans hprint
  have hthird : (neg (juxtapose [number "3", var "y", var "x"]) { subtracted := true }).key?
      (fun e => e.print {}) = some "x y" := (congrArg (likeKey? _ true) hyx).trans hprint
  have hfive : (number "5").key? (fun e => e.print {}) = none := key?_eq_none _ rfl
  have hfraction : (div (number "2") (number "3")).key? (fun e => e.print {}) = none :=
    key?_eq_none _ rfl
  refine ⟨canonical_likeAndUnlike, hothers, hconstants, fun key => ?_, ?_⟩
  · rw [add, hkeys key]
    simp [likeAndUnlike, hfirst, hthird, hfive, hfraction, eq_comm]
  · have hget := hcoefficients "x y"
    simp only [likeAndUnlike, List.filter_cons, hfirst, hfive, hthird, hfraction] at hget
    exact List.map_injective_iff.mpr (Option.some_injective _) hget

end MathExpr.Expr
