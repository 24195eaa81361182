import MathExpr.Proofs.Printing.Parentheses
import MathExpr.Proofs.Printing.Parsed

/-!
# The normal form of what was read

An expression that was read from text, printed and read again is the same expression, except for
parentheses.  Where they are added and where they are dropped is said by a recursion of its own,
which knows of no token and no binding.

* `Expr.normal` — the normal form.
* `Expr.bare_normal` — it is the same expression, except for parentheses.
* `Expr.Stable` — the factors of an expression's text are those of its normal form.
* **`Expr.Parsed.stable`** — so it is for all expressions that are read.
* **`Expr.parse_print_of_parse`** — what was read, printed and read again is in normal form.
-/

namespace MathExpr.Expr

/-! ## The normal form -/

mutual

/-- The normal form of an expression, in an exponent if a sign at its root is one of those right
behind the `^`.  A fraction that is a factor of an explicit product, and a relation that is a side
of a relation, gets parentheses.  An operand of a sign loses them, but not behind the minus sign of
a subtraction, nor behind the signs of an exponent. -/
def normal (inExponent : Bool) : Expr → Expr
  | .number numeral => .number numeral
  | .identifier name subscript => .identifier name (normalSubscript subscript)
  | .parens body => .parens (body.normal false)
  | .call name subscript args marks =>
    .call name (normalSubscript subscript) (normalList args) marks
  | .apply op args marks =>
    let normalArgs := match op, args with
      | .add, first :: terms => first.normal false :: normalTerms terms
      | .mul, args =>
        if marks.juxtaposed then normalList args else normalBracketed (isOp .div) args
      | .pow, [base, exponent] => [base.normal false, exponent.normal true]
      | .neg, [e] => [if inExponent then e.normal true else (e.normal false).unparenthesized]
      | .pos, [e] => [if inExponent then e.normal true else (e.normal false).unparenthesized]
      | op, args => if op.isRelation then normalBracketed isRelation args else normalList args
    .apply op normalArgs marks

/-- The normal form of a subscript. -/
def normalSubscript : Option Expr → Option Expr
  | none => none
  | some e => some (e.normal false)

/-- The normal forms of the expressions of a list. -/
def normalList : List Expr → List Expr
  | [] => []
  | e :: es => e.normal false :: normalList es

/-- The normal forms of the expressions of a list, those that `p` picks in parentheses. -/
def normalBracketed (p : Expr → Bool) : List Expr → List Expr
  | [] => []
  | e :: es =>
    (if p e then .parens (e.normal false) else e.normal false) :: normalBracketed p es

/-- The normal forms of the terms after the first of a sum. -/
def normalTerms : List Expr → List Expr
  | [] => []
  | .apply .neg args ⟨juxtaposed, true⟩ :: terms =>
    .apply .neg (normalList args) ⟨juxtaposed, true⟩ :: normalTerms terms
  | term :: terms => term.normal false :: normalTerms terms

end

/-- The normal form of an operand, in parentheses if `p` picks it. -/
def bracketed (p : Expr → Bool) (e : Expr) : Expr :=
  if p e then .parens (e.normal false) else e.normal false

lemma normalList_eq_map (es : List Expr) : normalList es = es.map (normal false) := by
  induction es with
  | nil => rfl
  | cons e es ih => rw [normalList, ih, List.map_cons]

lemma normalBracketed_eq_map (p : Expr → Bool) (es : List Expr) :
    normalBracketed p es = es.map (bracketed p) := by
  induction es with
  | nil => rfl
  | cons e es ih => rw [normalBracketed, ih, List.map_cons, bracketed]

/-- The operator of an application stays. -/
lemma normal_apply (inExponent : Bool) (op : Operator) (args : List Expr) (marks : Marks) :
    ∃ args', (apply op args marks).normal inExponent = apply op args' marks := by
  rw [normal.eq_def]
  exact ⟨_, rfl⟩

/-! What does not depend on operands stays, too. -/

lemma binding_normal (inExponent : Bool) (e : Expr) :
    (e.normal inExponent).binding = e.binding := by
  cases e with
  | apply op args marks =>
      obtain ⟨args', hnormal⟩ := normal_apply inExponent op args marks
      rw [hnormal]
      rfl
  | _ => rfl

lemma leastAsExponent_normal (inExponent : Bool) (e : Expr) :
    (e.normal inExponent).leastAsExponent = e.leastAsExponent := by
  cases e with
  | apply op args marks =>
      obtain ⟨args', hnormal⟩ := normal_apply inExponent op args marks
      rw [hnormal]
      cases op <;> rfl
  | _ => rfl

lemma isParens_normal (inExponent : Bool) (e : Expr) :
    (e.normal inExponent).isParens = e.isParens := by
  cases e with
  | apply op args marks =>
      obtain ⟨args', hnormal⟩ := normal_apply inExponent op args marks
      rw [hnormal]
      rfl
  | _ => rfl

lemma unparenthesized_eq_self {e : Expr} (h : e.isParens = false) : e.unparenthesized = e := by
  cases e with
  | parens body => cases h
  | _ => rfl

/-- The operand of a sign that has no parentheses has none to lose. -/
lemma unparenthesized_normal {e : Expr} (h : e.isParens = false) :
    (e.normal false).unparenthesized = e.normal false :=
  unparenthesized_eq_self ((isParens_normal false e).trans h)

section Equations

variable (inExponent : Bool)

lemma normal_function (name : String) (args : List Expr) :
    (function name args).normal inExponent = function name (args.map (normal false)) := by
  rw [← normalList_eq_map]
  rfl

lemma normal_root (args : List Expr) :
    (apply .nthRoot args {}).normal inExponent = apply .nthRoot (args.map (normal false)) {} := by
  rw [← normalList_eq_map]
  rfl

lemma normal_add (first : Expr) (terms : List Expr) :
    (add (first :: terms)).normal inExponent = add (first.normal false :: normalTerms terms) := rfl

lemma normal_mul (args : List Expr) :
    (mul args).normal inExponent = mul (args.map (bracketed (isOp .div))) := by
  rw [← normalBracketed_eq_map]
  rfl

lemma normal_juxtapose (args : List Expr) :
    (juxtapose args).normal inExponent = juxtapose (args.map (normal false)) := by
  rw [← normalList_eq_map]
  rfl

lemma normal_div (a b : Expr) :
    (div a b).normal inExponent = div (a.normal false) (b.normal false) := rfl

lemma normal_pow (b x : Expr) :
    (pow b x).normal inExponent = pow (b.normal false) (x.normal true) := rfl

lemma normal_neg (e : Expr) :
    (neg e).normal false = neg (e.normal false).unparenthesized := rfl

lemma normal_neg_exponent (e : Expr) : (neg e).normal true = neg (e.normal true) := rfl

lemma normal_pos (e : Expr) :
    (pos e).normal false = pos (e.normal false).unparenthesized := rfl

lemma normal_pos_exponent (e : Expr) : (pos e).normal true = pos (e.normal true) := rfl

lemma normal_abs (e : Expr) : (abs e).normal inExponent = abs (e.normal false) := rfl

lemma normal_fact (e : Expr) : (fact e).normal inExponent = fact (e.normal false) := rfl

lemma normal_relate {op : Operator} {symbol : String} (hop : op.relationSymbol? = some symbol)
    (args : List Expr) :
    (relate op args).normal inExponent = relate op (args.map (bracketed isRelation)) := by
  rw [← normalBracketed_eq_map]
  cases op <;> cases hop <;> rfl

end Equations

lemma normalTerms_links : ∀ {links : List (TermSign × Expr)}, (∀ l ∈ links, WellFormed l.2) →
    normalTerms (links.map fun l => l.1.term l.2) =
      links.map fun l => l.1.term (l.2.normal false)
  | [], _ => rfl
  | (.minus, e) :: links, h => by
      have ih := normalTerms_links (List.forall_mem_cons.mp h).2
      simp only [List.map_cons, ← ih]
      rfl
  | (.plus, e) :: links, h => by
      obtain ⟨he, hlinks⟩ := List.forall_mem_cons.mp h
      have ih := normalTerms_links hlinks
      simp only [List.map_cons, ← ih]
      rw [TermSign.term, normalTerms]
      · rfl
      · intro args j
        exact he.ne_subtracted args j

/-! ## The parentheses of normal forms

Nothing but parentheses tells an expression from its normal form.
-/

/-- The operand of a sign keeps everything but its parentheses. -/
lemma bare_normal_operand {e : Expr} (inExponent : Bool)
    (h : ∀ inExponent, (e.normal inExponent).bare = e.bare) :
    (if inExponent then e.normal true else (e.normal false).unparenthesized).bare = e.bare := by
  split
  · exact h true
  · exact (bare_unparenthesized _).trans (h false)

mutual

/-- Operators, marks, names, numerals and the order of operands are those of the expression. -/
lemma bare_normal : ∀ (inExponent : Bool) (e : Expr), (e.normal inExponent).bare = e.bare
  | _, .number _ => rfl
  | _, .identifier name s => congrArg (identifier name) (bareSubscript_normalSubscript s)
  | _, .parens body => by rw [normal, bare_parens, bare_parens, bare_normal false body]
  | _, .call name s args marks => by
      rw [normal, bare, bare, bareSubscript_normalSubscript s, bareList_normalList args]
  | inExponent, .apply op args marks => by
      rw [normal.eq_def, bare, bare]
      refine congrArg (fun args => apply op args marks) ?_
      split
      · next first terms =>
        rw [bareList, bareList, bare_normal false first, bareList_normalTerms terms]
      · split
        · exact bareList_normalList args
        · exact bareList_normalBracketed _ args
      · next b x =>
        have hb := bare_normal false b
        have hx := bare_normal true x
        exact congrArg₂ (fun b x => [b, x]) hb hx
      · next e =>
        have he := bare_normal_operand inExponent fun i => bare_normal i e
        exact congrArg (fun e => [e]) he
      · next e =>
        have he := bare_normal_operand inExponent fun i => bare_normal i e
        exact congrArg (fun e => [e]) he
      · split
        · exact bareList_normalBracketed _ args
        · exact bareList_normalList args

lemma bareSubscript_normalSubscript : ∀ (s : Option Expr),
    bareSubscript (normalSubscript s) = bareSubscript s
  | none => rfl
  | some e => congrArg some (bare_normal false e)

lemma bareList_normalList : ∀ (es : List Expr), bareList (normalList es) = bareList es
  | [] => rfl
  | e :: es => by
      rw [normalList, bareList, bareList, bare_normal false e, bareList_normalList es]

lemma bareList_normalBracketed (p : Expr → Bool) : ∀ (es : List Expr),
    bareList (normalBracketed p es) = bareList es
  | [] => rfl
  | e :: es => by
      have hfirst : (if p e then parens (e.normal false) else e.normal false).bare = e.bare := by
        split
        · rw [bare_parens, bare_normal false e]
        · exact bare_normal false e
      rw [normalBracketed, bareList, bareList, hfirst, bareList_normalBracketed p es]

lemma bareList_normalTerms : ∀ (terms : List Expr), bareList (normalTerms terms) = bareList terms
  | [] => rfl
  | term :: terms => by
      rw [normalTerms.eq_def]
      split
      · next h => cases h
      · next args juxtaposed terms' h =>
        -- a term under the minus sign of a subtraction
        cases h
        rw [bareList, bareList, bare, bare, bareList_normalList args, bareList_normalTerms terms]
      · next h =>
        cases h
        rw [bareList, bareList, bare_normal false term, bareList_normalTerms terms]

end

/-! ## Reading normal forms -/

/-- The factors of an expression's text are those of its normal form.  Up to powers there is a
single one, in an exponent and anywhere else; an exponent has no other place. -/
def Stable : Category → Expr → Prop
  | .operand, e | .factorial, e | .power, e =>
    ∀ inExponent, e.factors inExponent = [e.normal inExponent]
  | .exponent, e => e.factors true = [e.normal true]
  | .juxtaposition, e | .signed, e | .product, e | .sum, e | .relation, e =>
    e.reread = e.normal false

namespace Parsed

variable {n : Category} {e : Expr} {least : Binding}

/-- At a place that an expression is tight enough for it gets no parentheses. -/
lemma rereadIn_eq (h : ¬ e.binding < least) : rereadIn least e = e.reread := by
  rw [rereadIn, factorsIn, placed, if_neg h, reread]

/-- At a looser place it does. -/
lemma rereadIn_eq_parens (h : e.binding < least) : rereadIn least e = .parens e.reread := by
  rw [rereadIn, factorsIn, placed, if_pos h, joined, gather_single, reread]

lemma reread_of_factors {f : Expr} (h : e.factors false = [f]) : e.reread = f := by
  rw [reread, h, joined, gather_single]

/-- The expressions of a category are read again at its own places. -/
lemma rereadIn_least (h : Parsed n e) (hreread : e.reread = e.normal false) :
    rereadIn n.least e = e.normal false :=
  (rereadIn_eq h.not_binding_lt).trans hreread

lemma map_rereadIn_least {args : List Expr} (h : ∀ a ∈ args, Parsed n a)
    (hreread : ∀ a ∈ args, a.reread = a.normal false) :
    args.map (rereadIn n.least) = args.map (normal false) :=
  List.map_congr_left fun a ha => (h a ha).rereadIn_least (hreread a ha)

/-- Parentheses that an operand of a sign needs are dropped when it is read. -/
lemma unparenthesized_rereadIn (hreread : e.reread = e.normal false) :
    (rereadIn .sign e).unparenthesized = (e.normal false).unparenthesized := by
  by_cases hbinding : e.binding < .sign
  · rw [rereadIn_eq_parens hbinding, hreread]
    -- what is in parentheses needs no others
    have hparens : e.isParens = false := by
      cases e with
      | parens body => exact absurd hbinding (show ¬ Binding.whole < .sign by decide)
      | _ => rfl
    rw [unparenthesized_normal hparens]
    rfl
  · rw [rereadIn_eq hbinding, hreread]

/-- A factor of an explicit product, where fractions are the loosest factors there are. -/
lemma rereadIn_sign (hreread : e.reread = e.normal false)
    (hloose : e.binding < .sign → e.isOp .div = true) :
    rereadIn .sign e = bracketed (isOp .div) e := by
  by_cases hbinding : e.binding < .sign
  · rw [rereadIn_eq_parens hbinding, hreread, bracketed, if_pos (hloose hbinding)]
  · have hdiv : e.isOp .div = false := by
      rw [← Bool.not_eq_true]
      intro hdiv
      rw [binding_of_isOp_div hdiv] at hbinding
      exact hbinding (by decide)
    rw [rereadIn_eq hbinding, hreread, bracketed, hdiv]
    rfl

lemma binding_lt_sum_iff : e.binding < .sum ↔ e.isRelation = true := by
  cases e with
  | apply op args marks =>
      have hop : op.binding marks < .sum ↔ op.isRelation = true := by
        obtain ⟨juxtaposed, subtracted⟩ := marks
        cases op <;> cases juxtaposed <;> cases subtracted <;> decide
      exact hop
  | _ => exact iff_of_false (show ¬ Binding.whole < .sum by decide) Bool.false_ne_true

/-- A side of a relation, where relations are the only sides in parentheses. -/
lemma rereadIn_sum (hreread : e.reread = e.normal false) :
    rereadIn .sum e = bracketed isRelation e := by
  by_cases hbinding : e.binding < .sum
  · rw [rereadIn_eq_parens hbinding, hreread, bracketed, if_pos (binding_lt_sum_iff.mp hbinding)]
  · rw [rereadIn_eq hbinding, hreread, bracketed, if_neg (mt binding_lt_sum_iff.mpr hbinding)]

/-- A sign in an exponent stands over a single power, or over further signs of one. -/
lemma onFirst_factorsInExponent (h : Parsed .exponent e)
    (hfactors : e.factors true = [e.normal true])
    (f : Expr → Expr) : onFirst f (factorsInExponent .sign e) = [f (e.normal true)] := by
  have hplace : ¬ e.binding < .sign := h.not_binding_lt
  rw [factorsInExponent, placed, if_neg hplace, hfactors, onFirst]

/-- A signed exponent needs no parentheses, and neither does a power. -/
lemma factorsInExponent_eq (h : Parsed .exponent e) :
    factorsInExponent e.leastAsExponent e = e.factors true := by
  have hleast : ¬ e.binding < e.leastAsExponent := by
    cases h with
    | exponent h =>
        intro hlt
        refine h.not_binding_lt (Nat.lt_of_lt_of_le hlt ?_)
        unfold leastAsExponent
        split <;> decide
    | negExponent | posExponent => exact Nat.lt_irrefl 3
  rw [factorsInExponent, placed, if_neg hleast]

/-- **The factors of what was read are those of its normal form.** -/
theorem stable (h : Parsed n e) : Stable n e := by
  induction h with
  | number | letter => exact fun _ => rfl
  | subscript _ hs ih =>
      intro inExponent
      rw [factors_subscript]
      have hsubscript := hs.rereadIn_least (reread_of_factors (ih false))
      exact congrArg (fun s => [identifier _ (some s)]) hsubscript
  | call _ _ hargs ih =>
      intro inExponent
      rw [factors_function, normal_function]
      exact congrArg (fun args => [function _ args]) (map_rereadIn_least hargs ih)
  | root hargs ih =>
      intro inExponent
      rw [factors_root, normal_root]
      exact congrArg (fun args => [apply .nthRoot args {}]) (map_rereadIn_least hargs ih)
  | @parens e _ ih =>
      intro inExponent
      have hreread : e.reread = e.normal false := ih
      rw [factors_parens, hreread, normal]
  | bars h ih =>
      intro inExponent
      rw [factors_abs, normal_abs]
      exact congrArg (fun e => [abs e]) (h.rereadIn_least ih)
  | operand _ ih | base _ ih => exact ih
  | factorial h ih =>
      intro inExponent
      rw [factors_fact, normal_fact]
      exact congrArg (fun e => [fact e]) (h.rereadIn_least (reread_of_factors (ih false)))
  | @power b x hb hx ihb ihx =>
      intro inExponent
      have hbase : rereadIn .factorial b = b.normal false :=
        hb.rereadIn_least (reread_of_factors (ihb false))
      have hexponent : x.factors true = [x.normal true] := ihx
      rw [factors_pow, normal_pow, hbase, hx.factorsInExponent_eq, hexponent, onFirst]
  | exponent _ ih => exact ih true
  | negExponent h ih =>
      rw [Stable, factors_neg_exponent, h.onFirst_factorsInExponent ih, normal_neg_exponent]
  | posExponent h ih =>
      rw [Stable, factors_pos_exponent, h.onFirst_factorsInExponent ih, normal_pos_exponent]
  | factor _ ih => exact reread_of_factors (ih false)
  | @juxtaposition e others hne he hothers _ ih ihs =>
      have hfactor : ∀ a ∈ e :: others, factorsIn .power a = [a.normal false] := by
        intro a ha
        obtain ⟨hpower, hfactors⟩ : Parsed .power a ∧ Stable .power a := by
          rcases List.mem_cons.mp ha with rfl | ha
          · exact ⟨he, ih⟩
          · exact ⟨hothers a ha, ihs a ha⟩
        have hplace : ¬ a.binding < .power := hpower.not_binding_lt
        rw [factorsIn, placed, if_neg hplace, hfactors false]
      rw [Stable, reread, factors_juxtapose, normal_juxtapose, List.flatMap_def,
        List.map_congr_left hfactor, ← List.flatMap_def, ← List.map_eq_flatMap, joined,
        gather_of_two_le]
      have := List.length_pos_iff.mpr hne
      rw [List.length_map, List.length_cons]
      omega
  | unsigned _ ih | signed _ ih | term _ ih | side _ ih => exact ih
  | @neg e _ ih =>
      have hoperand := unparenthesized_rereadIn ih
      rw [Stable, reread_of_factors (factors_neg e), normal_neg, hoperand]
  | @pos e _ ih =>
      have hoperand := unparenthesized_rereadIn ih
      rw [Stable, reread_of_factors (factors_pos e), normal_pos, hoperand]
  | @product args _ _ hloose ih =>
      have hargs : args.map (rereadIn .sign) = args.map (bracketed (isOp .div)) :=
        List.map_congr_left fun a ha => rereadIn_sign (ih a ha) (hloose a ha)
      rw [Stable, reread_of_factors (factors_mul false args), normal_mul, hargs]
  | @quotient a b ha hb iha ihb =>
      have hnumerator : rereadIn .product a = a.normal false := ha.rereadIn_least iha
      have hdenominator : rereadIn .sign b = b.normal false := hb.rereadIn_least ihb
      rw [Stable, reread_of_factors (factors_div false a b), normal_div, hnumerator, hdenominator]
  | @sum first links _ hfirst hlinks ih ihs =>
      have hwell := fun l hl => (hlinks l hl).wellFormed
      have hterm : rereadIn .product first = first.normal false := hfirst.rereadIn_least ih
      have hterms : (links.map fun l => l.1.term (rereadIn .product l.2)) =
          links.map fun l => l.1.term (l.2.normal false) :=
        List.map_congr_left fun l hl =>
          congrArg l.1.term ((hlinks l hl).rereadIn_least (ihs l hl))
      rw [Stable, reread_of_factors (factors_add false first _), normal_add,
        rereadTerms_links hwell, normalTerms_links hwell, hterm, hterms]
  | @relation op _ args hop _ _ ih =>
      have hsides : args.map (rereadIn .sum) = args.map (bracketed isRelation) :=
        List.map_congr_left fun a ha => rereadIn_sum (ih a ha)
      rw [Stable, reread_of_factors (factors_relate false hop args), normal_relate false hop,
        hsides]

/-- What could be read is printed so that it is read in normal form. -/
lemma parse_print (h : Parsed .relation e) : parse (e.print {}) = .ok (e.normal false) := by
  rw [h.wellFormed.parse_print h.everywhere_bars]
  exact congrArg Except.ok h.stable

end Parsed

/-- **Printing and reading again normalizes.**  The text of an expression that was read from a text
is read, too, and as the normal form of the expression.  It differs from the expression in
parentheses only. -/
theorem parse_print_of_parse {text : String} {e : Expr} (h : parse text = .ok e) :
    parse (e.print {}) = .ok (e.normal false) ∧ (e.normal false).bare = e.bare := by
  exact ⟨(parsed_of_parse h).parse_print, bare_normal false e⟩

/-- Reading drops one pair of parentheses behind a sign, and reading the printed form another. -/
theorem parse_print_negation :
    parse "-((x))" = .ok (neg (parens (var "x"))) ∧
      parse ((neg (parens (var "x"))).print {}) = .ok (neg (var "x")) ∧
      (neg (var "x")).bare = (neg (parens (var "x"))).bare := by
  have hx : WellFormed (var "x") := .letter (c := 'x') (by decide)
  have h : parse ((neg (parens (parens (var "x")))).print {}) = .ok (neg (parens (var "x"))) :=
    hx.parens.parens.neg.parse_print (by decide)
  exact ⟨h, parse_print_of_parse h⟩

/-- A fraction in front of a multiplication sign gets parentheses. -/
example : (mul [div (var "x") (number "3"), var "y"]).normal false =
    mul [parens (div (var "x") (number "3")), var "y"] := rfl

end MathExpr.Expr
