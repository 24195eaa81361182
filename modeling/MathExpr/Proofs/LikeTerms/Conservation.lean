import Mathlib.Tactic.NormNum
import MathExpr.Proofs.LikeTerms.Summands

/-!
# What decompositions of polynomials are worth

Decomposing a polynomial conserves its value, as long as none of its terms falls apart.  A term that
does is replaced by the sum of its fragments: `x - 2/3` has the constant `2/3`, and `x + 2 * 3` has
the constants `2` and `3`.

* `Interpretation.share` — what a term contributes to the worth of a decomposition.
* `Expr.Summand.piecesWorth_eq` — so much its pieces are worth.
* **`Expr.worth_decompose`** — hence the decomposition of a polynomial is worth the sum of that.
* **`Expr.value_polynomial`** — the value of a polynomial, from the worth of its decomposition.
* `Expr.not_conserved` — the value is not always conserved.
-/

namespace MathExpr

/-- What a term contributes: its value, or that of the fragments it falls into. -/
def Interpretation.share (I : Interpretation) (t : Expr) : ℚ :=
  if t.fallsApart then I.sum t.fragments else I.value t

namespace Expr

variable (I : Interpretation) (V : String → ℚ) {print : Printer}

/-! ## The pieces of a term -/

lemma piecesWorth_descents (names : List String) :
    I.piecesWorth V (names.map .descent) = 0 := by
  induction names with
  | nil => rfl
  | cons name names ih => rw [List.map_cons, I.piecesWorth_cons, ih, Interpretation.pieceWorth,
      add_zero]

lemma piecesWorth_constants (es : List Expr) :
    I.piecesWorth V (es.map .constant) = I.sum es := by
  induction es with
  | nil => rfl
  | cons e es ih => rw [List.map_cons, I.piecesWorth_cons, ih, Interpretation.pieceWorth,
      I.sum_cons]

namespace Summand

variable {t : Expr}

/-- The pieces of a term are worth its share, if the values of keys are those of the variable
factors behind them. -/
theorem piecesWorth_eq (h : Summand t)
    (hV : ∀ key, t.key? print = some key → V key = I.product t.variableFactors) :
    I.piecesWorth V (t.pieces print) = I.share t := by
  unfold Interpretation.share
  split
  · next hapart =>
    obtain ⟨names, hpieces⟩ := h.pieces_of_fallsApart print hapart
    rw [hpieces, I.piecesWorth_append, piecesWorth_descents, piecesWorth_constants, zero_add]
  · next hwhole =>
    rcases h.kinds (eq_false_of_ne_true hwhole) with hconstant | hvars
    · rw [pieces_of_isConstant hconstant, I.piecesWorth_cons, I.piecesWorth_nil, add_zero]
      rfl
    · obtain ⟨key, c, hkey, hpieces, hvalue⟩ := h.pieces_of_variableFactors print hvars
      rw [hpieces, I.piecesWorth_cons, I.piecesWorth_nil, add_zero, hvalue I, ← hV key hkey]
      rfl

/-- A term has no piece that is neither a constant nor a term. -/
theorem others_eq_nil (h : Summand t) : (t.pieces print).filterMap Piece.other? = [] := by
  cases hapart : t.fallsApart with
  | true =>
      obtain ⟨names, hpieces⟩ := h.pieces_of_fallsApart print hapart
      rw [hpieces, List.filterMap_eq_nil_iff]
      intro piece hpiece
      rcases List.mem_append.mp hpiece with hpiece | hpiece
      · obtain ⟨name, -, rfl⟩ := List.mem_map.mp hpiece
        rfl
      · obtain ⟨e, -, rfl⟩ := List.mem_map.mp hpiece
        rfl
  | false =>
      rcases h.kinds hapart with hconstant | hvars
      · rw [pieces_of_isConstant hconstant]
        rfl
      · obtain ⟨key, c, -, hpieces, -⟩ := h.pieces_of_variableFactors print hvars
        rw [hpieces]
        rfl

end Summand

/-! ## The pieces of a polynomial -/

section Polynomial

variable {terms : List Expr} (marks : Marks)

/-- A polynomial is taken apart into its terms. -/
lemma pieces_polynomial (hterms : ∀ t ∈ terms, Summand t) :
    (apply .add terms marks).pieces print = terms.flatMap (pieces print) := by
  have hpolynomial : (apply .add terms marks).isPolynomial = true := by
    rw [isPolynomial, allTerms_eq_all, List.all_eq_true]
    intro t ht
    exact (hterms t ht).isTerm
  have hpiece : (apply .add terms marks).piece? print = none := rfl
  rw [pieces, hpiece, ← allPieces_eq_flatMap]
  exact if_pos hpolynomial

/-- **The decomposition of a polynomial** is worth the shares of its terms. -/
theorem worth_decompose (hterms : ∀ t ∈ terms, Summand t)
    (hV : ∀ t ∈ terms, ∀ key, t.key? print = some key → V key = I.product t.variableFactors) :
    I.worth V ((apply .add terms marks).decompose print) = (terms.map I.share).sum := by
  rw [decompose, I.worth_collect, I.worth_empty, zero_add, pieces_polynomial marks hterms]
  induction terms with
  | nil => rfl
  | cons t terms ih =>
      obtain ⟨ht, hterms⟩ := List.forall_mem_cons.mp hterms
      obtain ⟨hVt, hV⟩ := List.forall_mem_cons.mp hV
      rw [List.flatMap_cons, I.piecesWorth_append, ht.piecesWorth_eq I V hVt, ih hterms hV,
        List.map_cons, List.sum_cons]

/-- It has no other parts. -/
theorem others_decompose (hterms : ∀ t ∈ terms, Summand t) :
    ((apply .add terms marks).decompose print).others = [] := by
  rw [decompose, Decomposition.others_collect, pieces_polynomial marks hterms]
  induction terms with
  | nil => rfl
  | cons t terms ih =>
      obtain ⟨ht, hterms⟩ := List.forall_mem_cons.mp hterms
      rw [List.flatMap_cons, List.filterMap_append, ht.others_eq_nil, List.nil_append, ih hterms]

/-- The value of all terms, from their shares and from what is lost where terms fall apart. -/
lemma sum_eq_shares (terms : List Expr) :
    I.sum terms = (terms.map I.share).sum +
      ((terms.filter fallsApart).map fun t => I.value t - I.sum t.fragments).sum := by
  induction terms with
  | nil => exact (add_zero 0).symm
  | cons t terms ih =>
      rw [I.sum_cons, ih, List.map_cons, List.sum_cons, Interpretation.share, List.filter_cons]
      split
      · rw [List.map_cons, List.sum_cons]
        ring
      · ring

/-- **The value of a polynomial** is what its decomposition is worth, and for every term that falls
apart the difference between its value and the sum of its fragments. -/
theorem value_polynomial (hterms : ∀ t ∈ terms, Summand t)
    (hV : ∀ t ∈ terms, ∀ key, t.key? print = some key → V key = I.product t.variableFactors) :
    ((apply .add terms marks).decompose print).others = [] ∧
      I.value (apply .add terms marks) =
        I.worth V ((apply .add terms marks).decompose print) +
          ((terms.filter fallsApart).map fun t => I.value t - I.sum t.fragments).sum := by
  refine ⟨others_decompose marks hterms, ?_⟩
  rw [worth_decompose I V marks hterms hV, I.value_sum, sum_eq_shares]

end Polynomial

/-! ## A fraction that loses its sign -/

/-- The numerals `2` and `3` for what they say, and variables for zero. -/
def smallNumerals : Interpretation where
  numeral s := if s = "2" then 2 else if s = "3" then 3 else 1
  numeral_one := rfl
  atom _ := 0

/-- The terms of `x - 2/3`. -/
def variableLessFraction : List Expr :=
  [var "x", neg (div (number "2") (number "3")) { subtracted := true }]

lemma summand_variableLessFraction : ∀ t ∈ variableLessFraction, Summand t := by
  have hvar : Summand (var "x") := .factor (.variableFactor rfl)
  have hfraction : Summand (div (number "2") (number "3")) :=
    .factor (.fraction {} (.numeral "2") (.numeral "3"))
  exact List.forall_mem_cons.mpr ⟨hvar, List.forall_mem_singleton.mpr (hfraction.neg _)⟩

lemma key_variableLessFraction (print : Printer) : ∀ t ∈ variableLessFraction, ∀ key,
    t.key? print = some key → 0 = smallNumerals.product t.variableFactors := by
  refine List.forall_mem_cons.mpr ⟨fun _ _ => (zero_mul 1).symm, ?_⟩
  refine List.forall_mem_singleton.mpr fun key hkey => ?_
  rw [key?_eq_none print rfl] at hkey
  cases hkey

/-- The fraction in `x - 2/3` is counted with the wrong sign. -/
theorem value_variableLessFraction :
    (∀ t ∈ variableLessFraction, Summand t) ∧
      ((add variableLessFraction).decompose fun e => e.print {}).others = [] ∧
      smallNumerals.value (add variableLessFraction) =
        smallNumerals.worth (fun _ => 0)
          ((add variableLessFraction).decompose fun e => e.print {}) - 4 / 3 := by
  obtain ⟨hothers, hvalue⟩ := value_polynomial smallNumerals (fun _ => 0) {}
    summand_variableLessFraction (key_variableLessFraction fun e => e.print {})
  refine ⟨summand_variableLessFraction, hothers, hvalue.trans ?_⟩
  have hlost : ((variableLessFraction.filter fallsApart).map fun t =>
      smallNumerals.value t - smallNumerals.sum t.fragments).sum = -(2 / 3) - (2 / 3 + 0) + 0 := rfl
  have hdifference : (-(2 / 3) - (2 / 3 + 0) + 0 : ℚ) = -(4 / 3) := by norm_num
  rw [hlost, hdifference, sub_eq_add_neg]
  rfl

/-- **The value is not conserved** by the decomposition of every polynomial. -/
theorem not_conserved :
    (∀ t ∈ variableLessFraction, Summand t) ∧ smallNumerals.value (number "3") ≠ 0 ∧
      (∀ t ∈ variableLessFraction, ∀ key, t.key? (fun e => e.print {}) = some key →
        0 = smallNumerals.product t.variableFactors) ∧
      smallNumerals.value (add variableLessFraction) ≠
        smallNumerals.worth (fun _ => 0)
          ((add variableLessFraction).decompose fun e => e.print {}) := by
  have hkey := key_variableLessFraction fun e => e.print {}
  refine ⟨summand_variableLessFraction, show (3 : ℚ) ≠ 0 by norm_num, hkey, fun hvalue => ?_⟩
  have hworth := worth_decompose smallNumerals (fun _ => 0) {} summand_variableLessFraction hkey
  have hsides : (0 + (-(2 / 3) + 0) : ℚ) = 0 + (2 / 3 + 0 + 0) := hvalue.trans hworth
  norm_num at hsides

end Expr

end MathExpr
