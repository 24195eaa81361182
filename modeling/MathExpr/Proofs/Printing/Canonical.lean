import Mathlib.Algebra.Ring.Nat
import MathExpr.Proofs.Printing.NormalForm

/-!
# When printed text is canonical

Printed text should stay as it is when it is read and printed again.  It does, except for
parentheses right behind a sign that are there for no reason: reading drops one pair of them behind
each sign, and printing puts them back only where the operand needs them.  What was written with two
pairs, such as `-((x))`, therefore loses one of them on each of its ways through text.

* `Style.Omits` — a text is another one with some pairs of parentheses left out.
* `Expr.idlePairs` — the number of pairs that an expression has for no reason.
* `Expr.PrintsShorter` — its normal form is printed without just these pairs.
* **`Expr.WellFormed.printsShorter`** — this is so for all expressions with a notation.
* **`Expr.print_eq_of_parse_iff`** — so printed text is canonical exactly if there are none.
* **`Expr.exists_canonical`** — after finitely many ways through text there are none left.
-/

namespace MathExpr

/-! ## Leaving out parentheses -/

namespace Style

/-- `Omits n cs ds`: the text `ds` is `cs` with `n` pairs of parentheses left out. -/
inductive Omits : ℕ → List Char → List Char → Prop
  | same (cs : List Char) : Omits 0 cs cs
  | append {m n : ℕ} {cs cs' ds ds' : List Char} : Omits m cs cs' → Omits n ds ds' →
      Omits (m + n) (cs ++ ds) (cs' ++ ds')
  | pair {n : ℕ} {cs cs' : List Char} : cs ≠ [] → Omits n cs cs' →
      Omits (n + 1) (parenthesize cs) cs'

namespace Omits

variable {m n : ℕ} {cs cs' ds ds' : List Char}

/-- Every pair that is left out shortens the text by two characters. -/
lemma length_eq (h : Omits n cs cs') : cs.length = cs'.length + 2 * n := by
  induction h with
  | same => rfl
  | append _ _ ih ih' =>
      rw [List.length_append, List.length_append, ih, ih']
      omega
  | pair _ _ ih =>
      rw [parenthesize, List.length_append, List.length_cons, ih, List.length_singleton]
      omega

/-- If none is left out then the text stays. -/
lemma eq_of_eq_zero (h : Omits n cs cs') (hn : n = 0) : cs = cs' := by
  induction h with
  | same => rfl
  | append _ _ ih ih' => rw [ih (by omega), ih' (by omega)]
  | pair => omega

/-- The text stays only if none is left out. -/
lemma eq_iff (h : Omits n cs cs') : cs' = cs ↔ n = 0 := by
  constructor
  · rintro rfl
    have := h.length_eq
    omega
  · exact fun hn => (h.eq_of_eq_zero hn).symm

/-- There is something between parentheses. -/
lemma ne_nil (h : Omits n cs cs') (hcs : cs ≠ []) : cs' ≠ [] := by
  induction h with
  | same => exact hcs
  | append _ _ ih ih' =>
      rw [Ne, List.append_eq_nil_iff, not_and_or] at hcs ⊢
      exact hcs.imp ih ih'
  | pair hne _ ih => exact ih hne

lemma prepend (cs : List Char) (h : Omits n ds ds') : Omits n (cs ++ ds) (cs ++ ds') := by
  simpa using (same cs).append h

lemma cons (c : Char) (h : Omits n cs cs') : Omits n (c :: cs) (c :: cs') :=
  h.prepend [c]

lemma concat (h : Omits n cs cs') (ds : List Char) : Omits n (cs ++ ds) (cs' ++ ds) :=
  h.append (same ds)

lemma parenthesize (h : Omits n cs cs') :
    Omits n (Style.parenthesize cs) (Style.parenthesize cs') :=
  (h.cons '(').concat [')']

/-- Texts with a separator between them. -/
lemma join {α : Type} {k : α → ℕ} {f g : α → List Char} (separator : List Char) :
    ∀ as : List α, (∀ a ∈ as, Omits (k a) (f a) (g a)) →
      Omits (as.map k).sum (Style.join separator (as.map f)) (Style.join separator (as.map g))
  | [], _ => same []
  | [a], h => by simpa [Style.join] using h a
  | a :: b :: as, h => by
      obtain ⟨ha, has⟩ := List.forall_mem_cons.mp h
      have := (ha.concat separator).append (join separator (b :: as) has)
      simpa [Style.join] using this

lemma arguments {α : Type} {k : α → ℕ} {f g : α → List Char} (as : List α)
    (h : ∀ a ∈ as, Omits (k a) (f a) (g a)) :
    Omits (as.map k).sum (Style.arguments (as.map f)) (Style.arguments (as.map g)) :=
  (join _ as h).parenthesize

/-- Factors side by side, none of which is empty. -/
lemma juxtapose {α : Type} {k : α → ℕ} {f g : α → List Char} (as : List α)
    (h : ∀ a ∈ as, Omits (k a) (f a) (g a)) (hne : ∀ a ∈ as, f a ≠ []) :
    Omits (as.map k).sum (Style.juxtapose {} (as.map f)) (Style.juxtapose {} (as.map g)) := by
  cases as with
  | nil => exact same _
  | cons a as =>
      have hf : f a ≠ [] := hne a (by simp)
      have hg : g a ≠ [] := (h a (by simp)).ne_nil hf
      rw [List.map_cons (f := f), List.map_cons (f := g), juxtapose_eq_join hf,
        juxtapose_eq_join hg]
      exact join [' '] (a :: as) h

end Omits

end Style

open Style

namespace Expr

/-! ## Idle parentheses -/

/-- Whether an expression is in parentheses that it does not need under a sign. -/
def isIdlyEnclosed : Expr → Bool
  | .parens body => !(body.binding < .sign)
  | _ => false

mutual

/-- The number of pairs of parentheses that stand under a sign for no reason.  Those behind the
minus sign of a subtraction are kept, and so are those behind the signs of an exponent. -/
def idlePairs (inExponent : Bool) : Expr → ℕ
  | .number _ => 0
  | .identifier _ subscript => subscriptIdlePairs subscript
  | .parens body => body.idlePairs false
  | .call _ subscript args _ => subscriptIdlePairs subscript + listIdlePairs args
  | .apply op args _ =>
    match op, args with
    | .add, first :: terms => first.idlePairs false + termsIdlePairs terms
    | .pow, [base, exponent] => base.idlePairs false + exponent.idlePairs true
    | .neg, [e] => e.idlePairs inExponent + if !inExponent && e.isIdlyEnclosed then 1 else 0
    | .pos, [e] => e.idlePairs inExponent + if !inExponent && e.isIdlyEnclosed then 1 else 0
    | _, args => listIdlePairs args

/-- The number of idle pairs in a subscript. -/
def subscriptIdlePairs : Option Expr → ℕ
  | none => 0
  | some e => e.idlePairs false

/-- The number of idle pairs in the expressions of a list. -/
def listIdlePairs : List Expr → ℕ
  | [] => 0
  | e :: es => e.idlePairs false + listIdlePairs es

/-- The number of idle pairs in the terms after the first of a sum. -/
def termsIdlePairs : List Expr → ℕ
  | [] => 0
  | .apply .neg args ⟨_, true⟩ :: terms => listIdlePairs args + termsIdlePairs terms
  | term :: terms => term.idlePairs false + termsIdlePairs terms

end

lemma not_whole_lt (b : Binding) : ¬ Binding.whole < b := by
  cases b <;> decide

lemma listIdlePairs_eq_sum (es : List Expr) :
    listIdlePairs es = (es.map (idlePairs false)).sum := by
  induction es with
  | nil => rfl
  | cons e es ih => rw [listIdlePairs, ih, List.map_cons, List.sum_cons]

lemma idlePairs_function (inExponent : Bool) (name : String) (args : List Expr) :
    (function name args).idlePairs inExponent = (args.map (idlePairs false)).sum := by
  rw [← listIdlePairs_eq_sum]
  exact Nat.zero_add _

/-- Most operators take no part in this. -/
lemma idlePairs_apply {op : Operator} (hop : op ∉ [Operator.add, .pow, .neg, .pos])
    (inExponent : Bool) (args : List Expr) (marks : Marks) :
    (apply op args marks).idlePairs inExponent = (args.map (idlePairs false)).sum := by
  rw [← listIdlePairs_eq_sum]
  cases op <;> first | rfl | simp at hop

/-! ## The text of normal forms -/

/-- What is printed of a normal form: the text of the expression without the idle pairs, and the
same for the operand that a sign leaves of it. -/
structure PrintsShorter (e : Expr) : Prop where
  text : ∀ inExponent,
    Omits (e.idlePairs inExponent) (e.chars {}) ((e.normal inExponent).chars {})
  operand : Omits (e.idlePairs false) (e.unparenthesized.chars {})
    ((e.normal false).unparenthesized.chars {})

namespace PrintsShorter

variable {e : Expr}

/-- Only parentheses make a difference under a sign. -/
lemma of_text (he : e.isParens = false) (h : ∀ inExponent,
    Omits (e.idlePairs inExponent) (e.chars {}) ((e.normal inExponent).chars {})) :
    PrintsShorter e := by
  refine ⟨h, ?_⟩
  rw [unparenthesized_eq_self he, unparenthesized_normal he]
  exact h false

/-- At any place, since the normal form needs parentheses where the expression does. -/
lemma atPlace (h : PrintsShorter e) (least : Binding) (inExponent : Bool) :
    Omits (e.idlePairs inExponent) (charsIn least e) (charsIn least (e.normal inExponent)) := by
  unfold charsIn bracket
  rw [binding_normal]
  split
  · exact (h.text inExponent).parenthesize
  · exact h.text inExponent

/-- An operand that gets parentheses in normal form has them in text already. -/
lemma bracketed (h : PrintsShorter e) {least : Binding} {p : Expr → Bool}
    (hp : p e = true → e.binding < least) :
    Omits (e.idlePairs false) (charsIn least e) (charsIn least (bracketed p e)) := by
  unfold Expr.bracketed
  split
  · next hpicked =>
    have hwhole : ¬ (parens (e.normal false)).binding < least := not_whole_lt least
    rw [charsIn, charsIn, bracket, bracket, if_pos (hp hpicked), if_neg hwhole]
    exact (h.text false).parenthesize
  · exact h.atPlace least false

/-- An operand of a sign, in text and in normal form. -/
lemma underSign (h : PrintsShorter e) (hbody : e.unparenthesized.chars {} ≠ []) :
    Omits (e.idlePairs false + if e.isIdlyEnclosed then 1 else 0) (charsIn .sign e)
      (charsIn .sign (e.normal false).unparenthesized) := by
  cases e with
  | parens body =>
      have hplace : charsIn .sign (body.normal false) =
          bracket body.binding .sign ((body.normal false).chars {}) := by
        rw [charsIn, binding_normal]
      have hunder : ((parens body).normal false).unparenthesized = body.normal false := rfl
      rw [hunder, hplace, bracket, isIdlyEnclosed]
      by_cases hbinding : body.binding < .sign
      · rw [if_pos hbinding, decide_eq_true hbinding]
        exact h.operand.parenthesize
      · rw [if_neg hbinding, decide_eq_false hbinding]
        exact h.operand.pair hbody
  | number | identifier | apply | call =>
      rw [unparenthesized_normal rfl]
      exact h.atPlace .sign false

end PrintsShorter

/-- The terms of a sum behind the first, each with its sign. -/
lemma omits_terms : ∀ {links : List (TermSign × Expr)}, (∀ l ∈ links, WellFormed l.2) →
    (∀ l ∈ links, PrintsShorter l.2) →
    Omits (termsIdlePairs (links.map fun l => l.1.term l.2))
      (termsChars {} (links.map fun l => l.1.term l.2))
      (termsChars {} (normalTerms (links.map fun l => l.1.term l.2)))
  | [], _, _ => .same []
  | (.minus, e) :: links, hwell, h => by
      have hterms := omits_terms (List.forall_mem_cons.mp hwell).2 (List.forall_mem_cons.mp h).2
      have he := ((h _ (List.mem_cons_self ..)).atPlace .product false).prepend [' ', '-', ' ']
      exact he.append hterms
  | (.plus, e) :: links, hwell, h => by
      have hterms := omits_terms (List.forall_mem_cons.mp hwell).2 (List.forall_mem_cons.mp h).2
      have he := ((h _ (List.mem_cons_self ..)).atPlace .product false).prepend [' ', '+', ' ']
      have hunmarked := (hwell _ (List.mem_cons_self ..)).ne_subtracted
      have hnormal : ∀ args juxtaposed, e.normal false ≠ apply .neg args ⟨juxtaposed, true⟩ := by
        intro args juxtaposed heq
        cases e with
        | apply op args' marks =>
            obtain ⟨args'', hroot⟩ := normal_apply false op args' marks
            rw [hroot] at heq
            cases heq
            exact hunmarked args' juxtaposed rfl
        | _ => cases heq
      rw [List.map_cons, TermSign.term, termsIdlePairs, normalTerms, termsChars, termsChars]
      · exact he.append hterms
      · exact hnormal
      · exact hunmarked
      · exact hunmarked
      · exact hunmarked

namespace WellFormed

variable {e : Expr}

/-- No place is empty. -/
lemma charsIn_ne_nil (h : WellFormed e) (least : Binding) : charsIn least e ≠ [] :=
  (scans_charsIn h.scans least).ne_nil (tokensIn_ne_nil h.tokens_ne_nil least)

lemma unparenthesized_chars_ne_nil (h : WellFormed e) : e.unparenthesized.chars {} ≠ [] := by
  have hne : ∀ {e : Expr}, WellFormed e → e.chars {} ≠ [] := fun h =>
    h.scans.ne_nil h.tokens_ne_nil
  cases e with
  | parens body =>
      cases h with
      | parens hbody => exact hne hbody
  | _ => exact hne h

/-- **The text of the normal form** is that of the expression without the idle pairs. -/
theorem printsShorter (h : WellFormed e) : PrintsShorter e := by
  induction h with
  | number | letter => exact .of_text rfl fun _ => .same _
  | subscript _ _ ih =>
      exact .of_text rfl fun _ => ((ih.atPlace .whole false).cons '_').prepend _
  | parens _ ih => exact ⟨fun _ => (ih.text false).parenthesize, ih.text false⟩
  | @call c d letters args _ _ _ ih =>
      refine .of_text rfl fun i => ?_
      rw [idlePairs_function, normal_function, chars_function, chars_function, List.map_map,
        textIn_default]
      exact .prepend _ (.arguments args fun a ha => (ih a ha).atPlace .relation false)
  | @root args _ ih =>
      refine .of_text rfl fun i => ?_
      rw [idlePairs_apply (by simp), normal_root, chars_root, chars_root, List.map_map,
        textIn_default]
      exact .prepend _ (.arguments args fun a ha => (ih a ha).atPlace .relation false)
  | sum _ _ hlinks ih ihs =>
      exact .of_text rfl fun _ => (ih.atPlace .product false).append (omits_terms hlinks ihs)
  | @product args _ _ ih =>
      have hdiv : ∀ {a : Expr}, a.isOp .div = true → a.binding < .sign := fun h => by
        rw [binding_of_isOp_div h]
        decide
      refine .of_text rfl fun i => ?_
      rw [mul, idlePairs_apply (by simp), ← mul, normal_mul, chars_mul, chars_mul, List.map_map,
        textIn_default]
      exact .join _ args fun a ha => (ih a ha).bracketed hdiv
  | @juxtaposition args _ hargs ih =>
      refine .of_text rfl fun i => ?_
      rw [juxtapose, idlePairs_apply (by simp), ← juxtapose, normal_juxtapose, chars_juxtapose,
        chars_juxtapose, List.map_map, textIn_default]
      exact .juxtapose args (fun a ha => (ih a ha).atPlace .power false)
        fun a ha => (hargs a ha).charsIn_ne_nil .power
  | quotient _ _ iha ihb =>
      refine .of_text rfl fun i => ?_
      rw [div, idlePairs_apply (by simp), ← div, normal_div, chars_div, chars_div, textIn_default]
      exact ((iha.atPlace .product false).concat _).append (ihb.atPlace .sign false)
  | @power b x _ _ ihb ihx =>
      refine .of_text rfl fun i => ?_
      rw [normal_pow, chars_pow, chars_pow, textIn_default, leastAsExponent_normal]
      exact (ihb.atPlace .factorial false).append ((ihx.atPlace _ true).cons '^')
  | neg h ih =>
      refine .of_text rfl fun i => ?_
      cases i with
      | false => exact (ih.underSign h.unparenthesized_chars_ne_nil).cons '-'
      | true => exact (ih.atPlace .sign true).cons '-'
  | pos h ih =>
      refine .of_text rfl fun i => ?_
      cases i with
      | false => exact (ih.underSign h.unparenthesized_chars_ne_nil).cons '+'
      | true => exact (ih.atPlace .sign true).cons '+'
  | abs _ ih => exact .of_text rfl fun _ => ((ih.atPlace .relation false).cons '|').concat ['|']
  | fact _ ih => exact .of_text rfl fun _ => (ih.atPlace .factorial false).concat ['!']
  | @relation op symbol args hop _ _ ih =>
      refine .of_text rfl fun i => ?_
      rw [relate, idlePairs_apply (by cases op <;> cases hop <;> simp), ← relate,
        normal_relate i hop, chars_relate {} hop, chars_relate {} hop, List.map_map,
        textIn_default]
      exact .join _ args fun a ha => (ih a ha).bracketed Parsed.binding_lt_sum_iff.mpr

end WellFormed

/-! ## Printing what was read from printed text -/

variable {text : String} {t : Expr}

/-- **When printed text is canonical.**  The text of an expression that was read from a text is read
and printed again without the idle pairs of parentheses, and so it stays as it is if and only if
there are none. -/
theorem print_eq_of_parse_iff (h : parse text = .ok t) :
    ∃ u, parse (t.print {}) = .ok u ∧
      Omits (t.idlePairs false) (t.print {}).toList (u.print {}).toList ∧
      (u.print {} = t.print {} ↔ t.idlePairs false = 0) := by
  have hparsed := parsed_of_parse h
  have homits := hparsed.wellFormed.printsShorter.text false
  refine ⟨t.normal false, hparsed.parse_print, ?_, ?_⟩
  · simpa [print] using homits
  · rw [← homits.eq_iff, print, print, String.ofList_inj]

/-- What `-((x))` is read as is printed as `-(x)`, which is then printed as `-x`. -/
theorem print_ne_of_parse_negation :
    parse "-((x))" = .ok (neg (parens (var "x"))) ∧
      (neg (parens (var "x"))).print {} = "-(x)" ∧
      ∃ u, parse ((neg (parens (var "x"))).print {}) = .ok u ∧
        u.print {} ≠ (neg (parens (var "x"))).print {} := by
  have h : parse "-((x))" = .ok (neg (parens (var "x"))) := by decide +kernel
  obtain ⟨u, hu, -, hcanonical⟩ := print_eq_of_parse_iff h
  exact ⟨h, by decide, u, hu, fun hprint => absurd (hcanonical.mp hprint) (by decide)⟩

/-- A normal form whose text is the expression's is its own normal form. -/
lemma Parsed.normal_normal (h : Parsed .relation t) (hpairs : t.idlePairs false = 0) :
    (t.normal false).normal false = t.normal false := by
  have hprint : (t.normal false).print {} = t.print {} :=
    congrArg String.ofList ((h.wellFormed.printsShorter.text false).eq_iff.mpr hpairs)
  have hnormal := (parsed_of_parse h.parse_print).parse_print
  rw [hprint, h.parse_print, Except.ok.injEq] at hnormal
  exact hnormal.symm

/-- **Printing and reading again ends.**  After finitely many ways through text an expression is
read from its own text as it is. -/
theorem exists_canonical {t : Expr} (h : Parsed .relation t) :
    ∃ n : ℕ, parse (((normal false)^[n] t).print {}) = .ok ((normal false)^[n] t) := by
  have hnormal := parsed_of_parse h.parse_print
  by_cases hpairs : t.idlePairs false = 0
  · refine ⟨1, ?_⟩
    have := hnormal.parse_print
    rwa [h.normal_normal hpairs] at this
  · -- otherwise the text is shorter by the idle pairs
    have hshorter := (h.wellFormed.printsShorter.text false).length_eq
    obtain ⟨n, hn⟩ := exists_canonical hnormal
    exact ⟨n + 1, by rwa [Function.iterate_succ_apply]⟩
termination_by (t.chars {}).length
decreasing_by omega

end Expr

end MathExpr
