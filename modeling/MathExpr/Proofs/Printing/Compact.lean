import MathExpr.Proofs.Printing.Styles

/-!
# Factors side by side without spaces

Letters, numerals and parentheses can stand side by side without spaces between them.  The printer
sets apart two numerals, and the last letter of a run from a parenthesis; what else could run
together is a numeral that ends with a point, and the name of a function, and these are excluded
here.  So the text is read as the very product that it was printed from.

* `Expr.PlainFactor` — the factors: letters, numerals without a point at their end, and these and
  products of these in parentheses.
* `Expr.PlainFactor.parsed`, `Expr.PlainFactor.normal_eq` — they are read from texts, and are in
  normal form.
* `Expr.PlainFactor.collide_eq_false` — no two of them run together.
* **`Expr.parse_print_juxtapose`** — so products of them are read back exactly.
-/

namespace MathExpr

open Token

/-- Lists of tokens of which no two collide can stand side by side in any order. -/
lemma Token.collideAny_eq_false : ∀ {tss : List (List Token)},
    (∀ ts ∈ tss, ∀ us ∈ tss, collide ts us = false) → collideAny tss = false
  | [], _ => rfl
  | [_], _ => rfl
  | ts :: us :: tss, h => by
      have hrest := collideAny_eq_false fun vs hvs ws hws =>
        h vs (List.mem_cons_of_mem _ hvs) ws (List.mem_cons_of_mem _ hws)
      rw [collideAny, h ts (by simp) us (by simp), hrest, Bool.or_false]

namespace Expr

variable {f g : Expr} {factors : List Expr}

/-- Letters, numerals that do not end with a point, and, in parentheses, such a factor or a product
of two or more of them. -/
inductive PlainFactor : Expr → Prop
  | number {numeral : String} : Token.IsNumeral numeral.toList →
      numeral.toList.getLast? ≠ some '.' → PlainFactor (.number numeral)
  | letter {c : Char} : Text.isAlphabetic c = true → PlainFactor (.var (String.singleton c))
  | parens {f : Expr} : PlainFactor f → PlainFactor (.parens f)
  | product {factors : List Expr} : 2 ≤ factors.length → (∀ f ∈ factors, PlainFactor f) →
      PlainFactor (.parens (.juxtapose factors))

/-- A product of factors in normal form is in normal form. -/
lemma normal_juxtapose_eq_self (h : ∀ f ∈ factors, f.normal false = f) :
    (juxtapose factors).normal false = juxtapose factors := by
  rw [normal_juxtapose, List.map_congr_left h, List.map_id']

namespace PlainFactor

/-! ## One factor -/

lemma opensWithBar_eq_false (h : PlainFactor f) : f.opensWithBar = false := by
  cases h <;> rfl

lemma parsed (h : PlainFactor f) : Parsed .operand f := by
  induction h with
  | number hnumeral => exact .number hnumeral
  | letter hc => exact .letter hc
  | parens _ ih => exact .parens (ih.toRelation (by decide))
  | product hlen hfactors ih =>
      have hproduct := Parsed.juxtapose hlen (fun f hf => .base (.operand (ih f hf)))
        fun f hf => (hfactors f hf).opensWithBar_eq_false
      exact .parens (hproduct.toRelation (by decide))

/-- Nothing is in parentheses that could do without, and nothing needs more of them. -/
lemma normal_eq (h : PlainFactor f) : f.normal false = f := by
  induction h with
  | number | letter => rfl
  | parens _ ih => exact congrArg Expr.parens ih
  | product _ _ ih => exact congrArg Expr.parens (normal_juxtapose_eq_self ih)

/-- As a factor it gets no parentheses. -/
lemma tokensIn_power (h : PlainFactor f) : tokensIn .power f = f.tokens := by
  have hplace : ¬ f.binding < .power := fun hlt =>
    h.parsed.not_binding_lt (Nat.lt_trans hlt (by decide))
  rw [tokensIn, enclose, if_neg hplace]

/-! ## Two factors beside each other -/

/-- A numeral at its end has no point at the end. -/
lemma getLast?_ne_point {numeral : String} (h : PlainFactor f)
    (hlast : f.tokens.getLast? = some (.number numeral)) :
    numeral.toList.getLast? ≠ some '.' := by
  cases h with
  | number _ hpoint =>
      obtain rfl : _ = numeral := by simpa [tokens] using hlast
      exact hpoint
  | letter => simp [tokens_var] at hlast
  | parens | product =>
      rw [tokens, List.getLast?_concat] at hlast
      cases hlast

/-- A word at its beginning is a single letter. -/
lemma length_lt_two {letters : List Char} {ts : List Token} (h : PlainFactor f)
    (htokens : f.tokens = .word letters :: ts) : letters.length < 2 := by
  cases h with
  | letter =>
      obtain ⟨hletters, -⟩ := List.cons.inj htokens
      obtain rfl := Token.word.inj hletters
      rw [String.toList_singleton, List.length_singleton]
      exact Nat.one_lt_two
  | number | parens | product => simp [tokens] at htokens

/-- **No two of the factors run together.**  The one in front ends with no point, and the one behind
begins with no name. -/
lemma collide_eq_false (hf : PlainFactor f) (hg : PlainFactor g) :
    collide f.tokens g.tokens = false := by
  rw [← Bool.not_eq_true, collide_iff]
  rintro (⟨numeral, _, hlast, -, hpoint⟩ | ⟨-, letters, ts, htokens, hlen⟩)
  · exact hf.getLast?_ne_point hlast hpoint
  · exact absurd hlen (Nat.not_le.mpr (hg.length_lt_two htokens))

/-! ## Many factors -/

lemma keptApart_juxtapose (h : ∀ f ∈ factors, PlainFactor f) (style : Style) :
    KeptApart style (juxtapose factors) := by
  refine keptApart_of_not_fuses ?_ rfl
  have hcollide : collideAny (factors.map (tokensIn .power)) = false := by
    refine collideAny_eq_false (List.forall_mem_map.mpr fun f hf => ?_)
    refine List.forall_mem_map.mpr fun g hg => ?_
    rw [(h f hf).tokensIn_power, (h g hg).tokensIn_power]
    exact (h f hf).collide_eq_false (h g hg)
  rw [juxtapose, fusesFactors, hcollide, Bool.and_false]

/-- Any style keeps the tokens of these factors apart, also within their parentheses. -/
lemma everywhere_keptApart (h : PlainFactor f) (style : Style) :
    f.Everywhere (KeptApart style) := by
  induction h with
  | number | letter => exact List.forall_mem_singleton.mpr (keptApart_of_not_fuses rfl rfl)
  | parens _ ih => exact everywhere_parens.mpr ⟨keptApart_of_not_fuses rfl rfl, ih⟩
  | product _ hfactors ih =>
      refine everywhere_parens.mpr ⟨keptApart_of_not_fuses rfl rfl, ?_⟩
      exact everywhere_apply.mpr ⟨keptApart_juxtapose hfactors style, ih⟩

end PlainFactor

/-- **Factors side by side are read back exactly**, in any style and so also without spaces: as many
as there were, each with its own digits, letters and parentheses.  No letters in front of a
parenthesis become the name of a function, and no two numerals become one. -/
theorem parse_print_juxtapose (hlen : 2 ≤ factors.length) (h : ∀ f ∈ factors, PlainFactor f)
    (style : Style) : parse ((juxtapose factors).print style) = .ok (juxtapose factors) := by
  have hparsed : Parsed .relation (juxtapose factors) :=
    (Parsed.juxtapose hlen (fun f hf => .base (.operand (h f hf).parsed))
      fun f hf => (h f hf).opensWithBar_eq_false).toRelation (by decide)
  have hapart : (juxtapose factors).Everywhere (KeptApart style) :=
    everywhere_apply.mpr ⟨PlainFactor.keptApart_juxtapose h style,
      fun f hf => (h f hf).everywhere_keptApart style⟩
  rw [hparsed.parse_print_style hapart,
    normal_juxtapose_eq_self fun f hf => (h f hf).normal_eq]

/-- In `x y(2.5z)3 .5((a))` the printer has put a space in front of the last letter before a
parenthesis, and between two numerals. -/
theorem parse_print_juxtapose_compact :
    2 ≤ [var "x", var "y", parens (juxtapose [number "2.5", var "z"]), number "3", number ".5",
        parens (parens (var "a"))].length ∧
      (∀ f ∈ [var "x", var "y", parens (juxtapose [number "2.5", var "z"]), number "3",
        number ".5", parens (parens (var "a"))], PlainFactor f) ∧
      (juxtapose [var "x", var "y", parens (juxtapose [number "2.5", var "z"]), number "3",
        number ".5", parens (parens (var "a"))]).print { spacedFactors := false } =
          "x y(2.5z)3 .5((a))" ∧
      parse "x y(2.5z)3 .5((a))" = .ok (juxtapose [var "x", var "y",
        parens (juxtapose [number "2.5", var "z"]), number "3", number ".5",
        parens (parens (var "a"))]) := by
  have hx : PlainFactor (var "x") := .letter (c := 'x') (by decide)
  have hy : PlainFactor (var "y") := .letter (c := 'y') (by decide)
  have hz : PlainFactor (var "z") := .letter (c := 'z') (by decide)
  have ha : PlainFactor (var "a") := .letter (c := 'a') (by decide)
  have hlen : 2 ≤ [var "x", var "y", parens (juxtapose [number "2.5", var "z"]), number "3",
    number ".5", parens (parens (var "a"))].length := by decide
  have hplain : ∀ f ∈ [var "x", var "y", parens (juxtapose [number "2.5", var "z"]), number "3",
      number ".5", parens (parens (var "a"))], PlainFactor f := by
    have hinner : ∀ f ∈ [number "2.5", var "z"], PlainFactor f := by
      simp only [List.forall_mem_cons]
      exact ⟨.number (by decide) (by decide), hz, nofun⟩
    simp only [List.forall_mem_cons]
    exact ⟨hx, hy, .product (by decide) hinner, .number (by decide) (by decide),
      .number (by decide) (by decide), .parens (.parens ha), nofun⟩
  have hprint : (juxtapose [var "x", var "y", parens (juxtapose [number "2.5", var "z"]),
      number "3", number ".5", parens (parens (var "a"))]).print { spacedFactors := false } =
        "x y(2.5z)3 .5((a))" := by decide
  have hparse := parse_print_juxtapose hlen hplain { spacedFactors := false }
  rw [hprint] at hparse
  exact ⟨hlen, hplain, hprint, hparse⟩

end Expr

end MathExpr
