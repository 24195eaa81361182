import MathExpr.Expr.Negation
import MathExpr.Proofs.Printing.Nesting
import MathExpr.Proofs.Terms.Accounting

/-!
# Turning a sign twice

Negating an expression turns its sign in the way a person would write it, and whatever gets a minus
sign loses it again.  Other ways of turning a sign are not undone, even where the expression is
negated again: `--x` becomes `-x` and then `x`, and `(-3)x` becomes `3x` and then `-3x`.

* `Expr.hasNegativeCoefficient`, `Expr.takesSign` — the products with a negative coefficient, and
  the expressions that get a minus sign.
* `Expr.Negates`, **`Expr.negate?_eq_some_iff`** — the four ways of turning a sign.
* `Expr.isReversible`, **`Expr.negate?_negate?_iff`** — where negating twice changes nothing.
* `Expr.not_negate?_negate?` — this is not so everywhere.
-/

namespace MathExpr.Expr

variable {e m p c : Expr} {es factors args : List Expr} {marks cmarks : Marks}

/-! ## Four ways of turning a sign -/

/-- Whether an expression is a product with one constant factor, which has a minus sign. -/
def hasNegativeCoefficient : Expr → Bool
  | .apply .mul factors _ =>
    match factors.filter isConstant with
    | [.apply .neg _ _] => true
    | _ => false
  | _ => false

/-- Whether an expression gets a minus sign when it is negated: sums do, and terms whose sign cannot
be turned within. -/
def takesSign : Expr → Bool
  | .apply .add _ _ => true
  | .apply .neg _ _ => false
  | .apply .div _ _ => false
  | e => e.isTerm && !e.hasNegativeCoefficient

/-- How signs are turned. -/
inductive Negates : Expr → Expr → Prop
  | signed {e : Expr} {es : List Expr} {marks : Marks} : Negates (.apply .neg (e :: es) marks) e
  | fraction {a a' b : Expr} {rest : List Expr} {marks : Marks} : Negates a a' →
      Negates (.apply .div (a :: b :: rest) marks) (div a' b)
  | coefficient {p : Expr} {es factors : List Expr} {cmarks marks : Marks} :
      (apply .mul factors marks).isTerm = true →
      factors.filter isConstant = [.apply .neg (p :: es) cmarks] →
      Negates (.apply .mul factors marks)
        (.apply .mul (p :: factors.erase (.apply .neg (p :: es) cmarks))
          { juxtaposed := marks.juxtaposed })
  | unsigned {e : Expr} : e.takesSign = true → Negates e (neg e)

/-- A constant with a minus sign is a number. -/
lemma isNumber_of_isConstant_neg (h : (apply .neg args cmarks).isConstant = true) :
    ∃ p es, args = p :: es ∧ p.isNumber = true := by
  cases args with
  | nil => cases h
  | cons p es =>
      refine ⟨p, es, rfl, ?_⟩
      rw [isConstant, Bool.or_eq_true] at h
      rcases h with hnumber | hfraction
      · exact hnumber
      · obtain ⟨args, marks, heq, -⟩ := exists_of_isConstantFraction hfraction
        cases heq

lemma exists_of_hasNegativeCoefficient (h : e.hasNegativeCoefficient = true) :
    ∃ factors marks p es cmarks, e = .apply .mul factors marks ∧
      factors.filter isConstant = [.apply .neg (p :: es) cmarks] := by
  unfold hasNegativeCoefficient at h
  split at h
  · next factors marks =>
    split at h
    · next args cmarks hfilter =>
      have hconstant : (apply .neg args cmarks).isConstant = true :=
        (List.mem_filter.mp (hfilter ▸ List.mem_singleton_self _)).2
      obtain ⟨p, es, rfl, -⟩ := isNumber_of_isConstant_neg hconstant
      exact ⟨factors, marks, p, es, cmarks, rfl, hfilter⟩
    · cases h
  · cases h

lemma hasNegativeCoefficient_of_filter
    (h : factors.filter isConstant = [.apply .neg (p :: es) cmarks]) (marks : Marks) :
    (apply .mul factors marks).hasNegativeCoefficient = true := by
  rw [hasNegativeCoefficient, h]

/-- A negative coefficient is exchanged for its positive. -/
lemma negateTerm?_of_filter (h : factors.filter isConstant = [.apply .neg (p :: es) cmarks]) :
    (apply .mul factors marks).negateTerm? =
      some (.apply .mul (p :: factors.erase (.apply .neg (p :: es) cmarks))
        { juxtaposed := marks.juxtaposed }) := by
  have hmem : apply .neg (p :: es) cmarks ∈ factors :=
    (List.mem_filter.mp (h ▸ List.mem_singleton_self _)).1
  have hcoefficient : (apply .mul factors marks).coefficient? =
      some (apply .neg (p :: es) cmarks) := by
    rw [coefficient?, h, constantProduct]
  rw [negateTerm?, hcoefficient]
  exact if_pos hmem

/-- Without one the coefficient of a product has no minus sign. -/
lemma constantProduct_ne_neg (h : (apply .mul factors marks).hasNegativeCoefficient = false) :
    constantProduct (factors.filter isConstant) ≠ .apply .neg args cmarks := by
  intro heq
  rw [hasNegativeCoefficient] at h
  unfold constantProduct at heq
  split at heq
  · cases heq
  · next c hfilter =>
    rw [hfilter, heq] at h
    cases h
  · cases heq

/-- Other terms get a minus sign. -/
lemma negateTerm?_of_takesSign (hterm : e.isTerm = true) (h : e.takesSign = true) :
    e.negateTerm? = some (neg e) := by
  cases e with
  | number | identifier => rfl
  | parens | call => cases hterm
  | apply op args marks =>
      cases op with
      | mul =>
          have hnegative : (apply .mul args marks).hasNegativeCoefficient = false := by
            have hsign : ((apply .mul args marks).isTerm &&
              !(apply .mul args marks).hasNegativeCoefficient) = true := h
            simpa [hterm] using hsign
          rw [negateTerm?, coefficient?]
          simp only [Option.bind_eq_bind, Option.bind_some]
          split
          · next hcoefficient _ => exact absurd hcoefficient (constantProduct_ne_neg hnegative)
          · rfl
      | pow => rfl
      | neg | div => cases h
      | _ => cases hterm

lemma negate?_of_takesSign (h : e.takesSign = true) : e.negate? = some (neg e) := by
  have hterm : ∀ {e : Expr}, (e.isTerm && !e.hasNegativeCoefficient) = true → e.takesSign = true →
      (if e.isTerm then e.negateTerm? else none) = some (neg e) := by
    intro e hplain hsign
    rw [Bool.and_eq_true] at hplain
    rw [if_pos hplain.1, negateTerm?_of_takesSign hplain.1 hsign]
  cases e with
  | number | identifier => rfl
  | parens | call => cases h
  | apply op args marks =>
      cases op with
      | add => rfl
      | neg | div => cases h
      | _ => exact hterm h h

/-- **Negation is turning a sign** in one of the four ways. -/
theorem negate?_eq_some_iff : e.negate? = some m ↔ Negates e m := by
  constructor
  · intro h
    fun_induction negate? e generalizing m with
    | case1 args marks =>
        obtain ⟨es, rfl⟩ : ∃ es, args = m :: es := ⟨args.tail, (List.cons_head?_tail h).symm⟩
        exact .signed
    | case2 terms marks =>
        cases h
        exact .unsigned rfl
    | case3 a b rest marks ih =>
        obtain ⟨a', ha, rfl⟩ := Option.map_eq_some_iff.mp h
        exact .fraction (ih ha)
    | case4 => cases h
    | case5 e hneg hadd _ hdiv hterm =>
        cases hnegative : e.hasNegativeCoefficient with
        | true =>
            obtain ⟨factors, marks, p, es, cmarks, rfl, hfilter⟩ :=
              exists_of_hasNegativeCoefficient hnegative
            rw [negateTerm?_of_filter hfilter] at h
            cases h
            exact .coefficient hterm hfilter
        | false =>
            have hsign : e.takesSign = true := by
              rw [takesSign, hterm, hnegative]
              · rfl
              · exact hadd
              · exact hneg
              · exact hdiv
            rw [negateTerm?_of_takesSign hterm hsign] at h
            cases h
            exact .unsigned hsign
    | case6 => cases h
  · intro h
    induction h with
    | signed => rfl
    | fraction _ ih =>
        rw [negate?, ih]
        rfl
    | @coefficient p es factors cmarks marks hterm hfilter =>
        have hnegate : (apply .mul factors marks).negate? =
            if (apply .mul factors marks).isTerm then (apply .mul factors marks).negateTerm?
            else none := rfl
        rw [hnegate, if_pos hterm, negateTerm?_of_filter hfilter]
    | unsigned h => exact negate?_of_takesSign h

/-! ## Turning a sign back -/

/-- Whether turning the sign of an expression twice leads back to it.  It does where the expression
gets a minus sign, or has a plain one that it would get, be it in front or in a numerator. -/
def isReversible : Expr → Bool
  | .apply .neg [e] marks => marks = {} && e.takesSign
  | .apply .neg _ _ => false
  | .apply .div [a, _] marks => marks = {} && a.isReversible
  | .apply .div _ _ => false
  | e => e.takesSign

lemma isReversible_of_takesSign (h : e.takesSign = true) : e.isReversible = true := by
  cases e with
  | apply op args marks =>
      cases op with
      | neg | div => cases h
      | _ => exact h
  | _ => exact h

/-- What becomes a negation either was the negation of it, or gets a minus sign. -/
lemma Negates.neg_iff : Negates e (.apply .neg args marks) ↔
    (∃ es nmarks, e = .apply .neg (.apply .neg args marks :: es) nmarks) ∨
      args = [e] ∧ marks = {} ∧ e.takesSign = true := by
  constructor
  · intro h
    cases h with
    | signed => exact .inl ⟨_, _, rfl⟩
    | unsigned h => exact .inr ⟨rfl, rfl, h⟩
  · rintro (⟨es, nmarks, rfl⟩ | ⟨rfl, rfl, h⟩)
    · exact .signed
    · exact .unsigned h

/-- An expression is not found inside of itself. -/
lemma ne_neg_neg (e : Expr) (es es' : List Expr) (marks marks' : Marks) :
    e ≠ .apply .neg (.apply .neg (e :: es) marks :: es') marks' := by
  intro h
  have hsize := congrArg sizeOf h
  simp only [apply.sizeOf_spec, List.cons.sizeOf_spec] at hsize
  omega

/-- A negative coefficient does not come back.  Behind its operand `p` no constants are left, so the
product could get the sign of `p` only, and would have an operand of `p` in front. -/
lemma not_negates_of_filter (h : factors.filter isConstant = [.apply .neg (p :: es) cmarks])
    (marks marks' : Marks) :
    ¬ Negates (.apply .mul (p :: factors.erase (.apply .neg (p :: es) cmarks)) marks')
      (.apply .mul factors marks) := by
  have hconstant : (apply .neg (p :: es) cmarks).isConstant = true :=
    (List.mem_filter.mp (h ▸ List.mem_singleton_self _)).2
  obtain ⟨_, _, hargs, hnumber⟩ := isNumber_of_isConstant_neg hconstant
  obtain ⟨rfl, rfl⟩ := List.cons.inj hargs
  generalize factors.erase (.apply .neg (p :: es) cmarks) = rest
  intro hneg
  cases hneg with
  | @coefficient q es' _ qmarks _ hterm hfilter =>
      rw [List.filter_cons_of_pos (by rw [isConstant, hnumber, Bool.true_or])] at hfilter
      obtain ⟨rfl, -⟩ := List.cons.inj hfilter
      have hq : q.isConstant = true := by
        have hqnumber : q.isNumber = true := hnumber
        rw [isConstant, hqnumber, Bool.true_or]
      rw [List.filter_cons_of_pos hq] at h
      exact ne_neg_neg q _ _ _ _ (List.cons.inj h).1

/-- **Negating twice** leads back to an expression just where it is reversible. -/
theorem negate?_negate?_iff (h : e.negate? = some m) :
    m.negate? = some e ↔ e.isReversible = true := by
  rw [negate?_eq_some_iff] at h
  induction h with
  | @signed e es marks =>
      rw [negate?_eq_some_iff, Negates.neg_iff]
      have hfirst : ¬ ∃ es' marks', e = .apply .neg (.apply .neg (e :: es) marks :: es') marks' :=
        fun ⟨es', marks', h⟩ => ne_neg_neg e es es' marks marks' h
      rw [or_iff_right hfirst]
      cases es with
      | nil => simp [isReversible]
      | cons => simp [isReversible]
  | @fraction a a' b rest marks ha ih =>
      have hnegate : (div a' b).negate? = a'.negate?.map fun a => div a b := rfl
      rw [hnegate, Option.map_eq_some_iff]
      cases rest with
      | nil =>
          rw [isReversible, Bool.and_eq_true, decide_eq_true_eq, ← ih]
          constructor
          · rintro ⟨x, hx, hdiv⟩
            cases hdiv
            exact ⟨rfl, hx⟩
          · rintro ⟨rfl, ha⟩
            exact ⟨a, ha, rfl⟩
      | cons => simp [isReversible, div]
  | @coefficient p es factors cmarks marks hterm hfilter =>
      have hnegative := hasNegativeCoefficient_of_filter hfilter marks
      have hirreversible : (apply .mul factors marks).isReversible =
        ((apply .mul factors marks).isTerm && !(apply .mul factors marks).hasNegativeCoefficient) :=
        rfl
      rw [negate?_eq_some_iff, hirreversible, hnegative]
      exact iff_of_false (not_negates_of_filter hfilter marks _) (by simp)
  | @unsigned e h => exact iff_of_true rfl (isReversible_of_takesSign h)

/-- The sign that a product lost with its coefficient is not the one it gets. -/
theorem negate?_negate?_negativeCoefficient :
    (juxtapose [neg (ofInt 3), var "x"]).negate? = some (juxtapose [ofInt 3, var "x"]) ∧
    (juxtapose [ofInt 3, var "x"]).negate? ≠ some (juxtapose [neg (ofInt 3), var "x"]) ∧
    (add [var "x", ofInt 1]).negate? = some (neg (add [var "x", ofInt 1])) ∧
    (neg (add [var "x", ofInt 1])).negate? = some (add [var "x", ofInt 1]) := by
  have hproduct : (juxtapose [neg (ofInt 3), var "x"]).negate? =
      some (juxtapose [ofInt 3, var "x"]) := by decide
  have hsum : (add [var "x", ofInt 1]).negate? = some (neg (add [var "x", ofInt 1])) := rfl
  refine ⟨hproduct, ?_, hsum, (negate?_negate?_iff hsum).mpr rfl⟩
  rw [Ne, negate?_negate?_iff hproduct]
  decide

/-- Negating twice does not lead back to every expression: not to `--x`, although its operators have
the operands that belong to them and nothing in it is subtracted. -/
theorem not_negate?_negate? :
    ¬ ∀ e m : Expr, e.Everywhere HasArity → (e.Everywhere fun d => d.isSubtracted = false) →
      e.negate? = some m → m.negate? = some e := by
  intro h
  have hback := h (neg (neg (var "x"))) (neg (var "x")) (by decide) (by decide) rfl
  exact absurd hback (by decide)

end MathExpr.Expr
