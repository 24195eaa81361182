import MathExpr.Proofs.Printing.Bars
import MathExpr.Proofs.Printing.Exponents

/-!
# Which expressions survive printing

A well-formed expression is printed for the sake of being read again.  Two kinds of nesting defeat
this, and no other does: a factor behind another one that begins with a bar, which makes the text
unreadable, and a sign at the beginning of an exponent that stands over factors side by side, of
which all but the first are read as factors of the power.

* `Expr.Survives` — what has to be known of an expression to see that it survives.
* **`Expr.WellFormed.survives`** — without signs over factors in exponents, an expression does.
* **`Expr.WellFormed.survives_printing_iff`** — exactly the expressions without either nesting are
  read from their text as they were, up to parentheses.
-/

namespace MathExpr.Expr

/-- An expression survives if it is read as it was, up to parentheses.  If it is not made of factors
side by side it is also read as a single factor, and if there are none under its signs either then
as a single factor of an exponent. -/
structure Survives (e : Expr) : Prop where
  reread : e.reread.bare = e.bare
  single : e.binding ≠ .juxtaposition → ∃ r, e.factors false = [r]
  exponent : e.unsigned.binding ≠ .juxtaposition → ∃ r, e.factors true = [r] ∧ r.bare = e.bare

namespace Survives

variable {e : Expr}

/-- What is read as one factor at any place. -/
lemma of_single {e' : Expr} (hfactors : ∀ inExponent, e.factors inExponent = [e'])
    (hbare : e'.bare = e.bare) : Survives e where
  reread := by rwa [Expr.reread, hfactors, joined, gather_single]
  single _ := ⟨e', hfactors false⟩
  exponent _ := ⟨e', hfactors true, hbare⟩

/-- A factor at a place that needs at least a power is a single one. -/
lemma factorsIn_power (h : Survives e) :
    ∃ r, factorsIn .power e = [r] ∧ r.bare = e.bare := by
  unfold factorsIn placed
  split
  · exact ⟨_, rfl, (bare_parens _).trans h.reread⟩
  · next hplace =>
    have hbinding : e.binding ≠ .juxtaposition := by
      intro hbinding
      rw [hbinding] at hplace
      exact hplace (by decide)
    obtain ⟨r, hr⟩ := h.single hbinding
    have hreread := h.reread
    rw [Expr.reread, hr, joined, gather_single] at hreread
    exact ⟨r, hr, hreread⟩

/-- An exponent is a single factor if there are none side by side under its signs, or if they are in
parentheses. -/
lemma factorsInExponent (h : Survives e) (least : Binding)
    (hunsigned : ¬ e.binding < least → e.unsigned.binding ≠ .juxtaposition) :
    ∃ r, factorsInExponent least e = [r] ∧ r.bare = e.bare := by
  unfold Expr.factorsInExponent placed
  split
  · exact ⟨_, rfl, (bare_parens _).trans h.reread⟩
  · next hplace => exact h.exponent (hunsigned hplace)

end Survives

/-- What has no sign at its root is not under signs. -/
lemma unsigned_of_binding_ne_sign {e : Expr} (h : e.binding ≠ .sign) : e.unsigned = e := by
  unfold unsigned
  split
  · exact absurd rfl h
  · exact absurd rfl h
  · rfl

/-- Factors that are read as one factor each. -/
lemma map_bare_flatMap {g : Expr → List Expr} : ∀ (args : List Expr),
    (∀ a ∈ args, ∃ r, g a = [r] ∧ r.bare = a.bare) → (args.flatMap g).map bare = args.map bare
  | [], _ => rfl
  | a :: args, h => by
      obtain ⟨⟨r, hr, hbare⟩, hargs⟩ := List.forall_mem_cons.mp h
      rw [List.flatMap_cons, List.map_append, map_bare_flatMap args hargs, hr, List.map_singleton,
        hbare]
      rfl

/-- An exponent without parentheses has no factors under its signs, unless its power is one of those
that lose them. -/
lemma unsigned_binding_ne {b x : Expr} (hroot : (pow b x).signsFactors = false)
    (hplace : ¬ x.binding < x.leastAsExponent) : x.unsigned.binding ≠ .juxtaposition := by
  intro hbinding
  by_cases hsign : x.binding = .sign
  · simp [pow, signsFactors, hsign, hbinding] at hroot
  · rw [unsigned_of_binding_ne_sign hsign] at hbinding
    refine hplace ?_
    rw [hbinding]
    unfold leastAsExponent
    split
    · exact absurd rfl hsign
    · exact absurd rfl hsign
    · decide

/-- A sign, in an exponent and anywhere else. -/
lemma Survives.of_sign {op : Operator} {e : Expr}
    (hunsigned : (apply op [e] {}).unsigned = e.unsigned)
    (hfactors : (apply op [e] {}).factors false =
      [apply op [(rereadIn .sign e).unparenthesized] {}])
    (hexponent : (apply op [e] {}).factors true =
      onFirst (fun a => apply op [a] {}) (Expr.factorsInExponent .sign e))
    (h : Survives e) : Survives (apply op [e] {}) := by
  refine ⟨?_, fun _ => ⟨_, hfactors⟩, fun hbinding => ?_⟩
  · rw [Expr.reread, hfactors, joined, gather_single, bare_apply, bare_apply, List.map_singleton,
      List.map_singleton, bare_unparenthesized, bare_rereadIn h.reread]
  · rw [hunsigned] at hbinding
    obtain ⟨r, hr, hbare⟩ := h.factorsInExponent .sign fun _ => hbinding
    refine ⟨apply op [r] {}, by rw [hexponent, hr, onFirst], ?_⟩
    rw [bare_apply, bare_apply, List.map_singleton, List.map_singleton, hbare]

namespace WellFormed

variable {e : Expr}

/-- Without signs over factors in exponents an expression survives. -/
theorem survives (h : WellFormed e) (hexponents : e.Everywhere fun d => d.signsFactors = false) :
    Survives e := by
  induction h with
  | number => exact .of_single (fun _ => rfl) rfl
  | letter => exact .of_single (fun i => factors_var i _) rfl
  | @subscript c s _ _ ih =>
      have hs := (ih (everywhere_subscript.mp hexponents).2).reread
      refine .of_single (fun i => factors_subscript i _ s) ?_
      rw [bare_subscript, bare_subscript, bare_rereadIn hs]
  | @parens body _ ih =>
      have hbody := (ih (everywhere_parens.mp hexponents).2).reread
      refine .of_single (fun i => factors_parens i body) ?_
      rw [bare_parens, bare_parens, hbody]
  | @call c d letters args _ _ _ ih =>
      have hargs := fun a ha => (ih a ha ((everywhere_function.mp hexponents).2 a ha)).reread
      refine .of_single (fun i => factors_function i _ args) ?_
      rw [bare_function, bare_function, map_bare_rereadIn hargs]
  | @root args _ ih =>
      have hargs := fun a ha => (ih a ha ((everywhere_apply.mp hexponents).2 a ha)).reread
      refine .of_single (fun i => factors_root i args) ?_
      rw [bare_apply, bare_apply, map_bare_rereadIn hargs]
  | @sum first links _ _ hlinks ih ihs =>
      obtain ⟨hfirst, hterms⟩ := List.forall_mem_cons.mp (everywhere_apply.mp hexponents).2
      have hlinks' : ∀ l ∈ links, l.2.reread.bare = l.2.bare := fun l hl =>
        (ihs l hl (everywhere_term (hterms _ (List.mem_map_of_mem hl)))).reread
      refine .of_single (fun i => factors_add i first _) ?_
      rw [rereadTerms_links hlinks, add, add, bare_apply, bare_apply, List.map_cons, List.map_cons,
        List.map_map, List.map_map, bare_rereadIn (ih hfirst).reread]
      refine congrArg (fun terms => apply .add (first.bare :: terms) {}) ?_
      refine List.map_congr_left fun l hl => ?_
      rw [Function.comp_apply, Function.comp_apply, bare_term, bare_term,
        bare_rereadIn (hlinks' l hl)]
  | @product args _ _ ih =>
      have hargs := fun a ha => (ih a ha ((everywhere_apply.mp hexponents).2 a ha)).reread
      refine .of_single (fun i => factors_mul i args) ?_
      rw [mul, mul, bare_apply, bare_apply, map_bare_rereadIn hargs]
  | @juxtaposition args hlen _ ih =>
      have hargs := fun a ha =>
        (ih a ha ((everywhere_apply.mp hexponents).2 a ha)).factorsIn_power
      refine ⟨?_, fun hbinding => absurd rfl hbinding, fun hbinding => absurd rfl hbinding⟩
      have hbare := map_bare_flatMap args hargs
      have hlen' : 2 ≤ (args.flatMap (factorsIn .power)).length := by
        have := congrArg List.length hbare
        simp only [List.length_map] at this
        omega
      rw [Expr.reread, factors_juxtapose, joined, gather_of_two_le hlen', juxtapose, juxtapose,
        bare_apply, bare_apply, hbare]
  | @quotient a b _ _ iha ihb =>
      obtain ⟨ha, hb⟩ := List.forall_mem_cons.mp (everywhere_apply.mp hexponents).2
      have hnumerator := bare_rereadIn (iha ha).reread .product
      have hdenominator := bare_rereadIn (ihb (hb b (by simp))).reread .sign
      exact .of_single (fun i => factors_div i a b) (congrArg₂ Expr.div hnumerator hdenominator)
  | @power b x _ _ ihb ihx =>
      obtain ⟨hroot, hargs⟩ := everywhere_apply.mp hexponents
      obtain ⟨hb, hx⟩ := List.forall_mem_cons.mp hargs
      obtain ⟨r, hr, hbare⟩ :=
        (ihx (hx x (by simp))).factorsInExponent _ (unsigned_binding_ne hroot)
      have hfactors : ∀ i, (Expr.pow b x).factors i = [Expr.pow (rereadIn .factorial b) r] := by
        intro i
        rw [factors_pow, hr, onFirst]
      have hbase := bare_rereadIn (ihb hb).reread .factorial
      exact .of_single hfactors (congrArg₂ Expr.pow hbase hbare)
  | @neg e _ ih =>
      have he := ih ((everywhere_apply.mp hexponents).2 e (by simp))
      exact he.of_sign rfl (factors_neg e) (factors_neg_exponent e)
  | @pos e _ ih =>
      have he := ih ((everywhere_apply.mp hexponents).2 e (by simp))
      exact he.of_sign rfl (factors_pos e) (factors_pos_exponent e)
  | @abs e _ ih =>
      have he := (ih ((everywhere_apply.mp hexponents).2 e (by simp))).reread
      refine .of_single (fun i => factors_abs i e) ?_
      exact congrArg Expr.abs (bare_rereadIn he .relation)
  | @fact e _ ih =>
      have he := (ih ((everywhere_apply.mp hexponents).2 e (by simp))).reread
      refine .of_single (fun i => factors_fact i e) ?_
      exact congrArg Expr.fact (bare_rereadIn he .factorial)
  | @relation op symbol args hop _ _ ih =>
      have hargs := fun a ha => (ih a ha ((everywhere_apply.mp hexponents).2 a ha)).reread
      refine .of_single (fun i => factors_relate i hop args) ?_
      rw [relate, relate, bare_apply, bare_apply, map_bare_rereadIn hargs]

/-- **The expressions that survive printing.**  The text of a well-formed expression is read as an
expression that differs in parentheses only if and only if no factor behind another one begins with
a bar, and no exponent is a sign over factors side by side. -/
theorem survives_printing_iff (h : WellFormed e) :
    (∃ u, parse (e.print {}) = .ok u ∧ u.bare = e.bare) ↔
      (e.Everywhere fun d => d.juxtaposesBar = false) ∧
        e.Everywhere fun d => d.signsFactors = false := by
  constructor
  · rintro ⟨u, hu, hbare⟩
    have hbars := h.everywhere_bars_of_parse hu
    refine ⟨hbars, ?_⟩
    rw [h.parse_print hbars, Except.ok.injEq] at hu
    by_contra hloses
    exact h.bare_reread_ne (not_everywhere_iff.mp hloses) (hu ▸ hbare)
  · rintro ⟨hbars, hexponents⟩
    exact ⟨e.reread, h.parse_print hbars, (h.survives hexponents).reread⟩

end WellFormed

/-- The text `2 |x|` of two factors side by side is not read, and the text `x^-a b` of a power with
two factors in its exponent is read as something else. -/
theorem lost_in_printing :
    WellFormed (juxtapose [number "2", abs (var "x")]) ∧
      (¬ ∃ u, parse ((juxtapose [number "2", abs (var "x")]).print {}) = .ok u ∧
        u.bare = (juxtapose [number "2", abs (var "x")]).bare) ∧
      WellFormed (pow (var "x") (neg (juxtapose [var "a", var "b"]))) ∧
      ¬ ∃ u, parse ((pow (var "x") (neg (juxtapose [var "a", var "b"]))).print {}) = .ok u ∧
        u.bare = (pow (var "x") (neg (juxtapose [var "a", var "b"]))).bare := by
  have ha : WellFormed (var "a") := .letter (c := 'a') (by decide)
  have hb : WellFormed (var "b") := .letter (c := 'b') (by decide)
  have hx : WellFormed (var "x") := .letter (c := 'x') (by decide)
  have htwo : WellFormed (number "2") := .number (by decide)
  have hbars : WellFormed (juxtapose [number "2", abs (var "x")]) :=
    .juxtaposition (by decide) (by simp [htwo, hx.abs])
  have hexponent : WellFormed (pow (var "x") (neg (juxtapose [var "a", var "b"]))) :=
    .power hx (.neg (.juxtaposition (by decide) (by simp [ha, hb])))
  refine ⟨hbars, fun hu => ?_, hexponent, fun hu => ?_⟩
  · exact absurd (hbars.survives_printing_iff.mp hu).1 (by decide)
  · exact absurd (hexponent.survives_printing_iff.mp hu).2 (by decide)

end MathExpr.Expr
