import MathExpr.Proofs.LikeTerms.Exposed
import MathExpr.Proofs.Printing.NormalForm

/-!
# What keys say about terms

A key is nothing but text.  It is the text of the variable factors of a term, though, and text of
expressions that were read can be read again.  So terms with different variable factors, or with
several that are put side by side in one term and multiplied by signs in the other, have different
keys.

* `Expr.pieces_of_term` — a term with variable factors is filed under its key.
* `Expr.Parsed.everywhere_parsed` — everything inside of what was read could be read on its own, but
  for the signs of the terms of a sum.
* `Expr.Parsed.of_mem_variableFactors` — in particular the variable factors.
* `Expr.Parsed.bare_eq_of_print_eq` — two expressions that are read from one text are equal, up to
  parentheses.
* **`Expr.factors_eq_of_key_eq`** — hence terms with one key have the same variable factors.
-/

namespace MathExpr.Expr

/-! ## Terms with variable factors -/

section Terms

variable {e : Expr}

lemma variableFactors_of_isConstant (h : e.isConstant = true) : e.variableFactors = [] := by
  rcases Bool.or_eq_true_iff.mp h with hnumber | hfraction
  · exact variableFactors_of_isNumber hnumber
  · obtain ⟨args, marks, rfl, -⟩ := exists_of_isConstantFraction hfraction
    rfl

lemma hasConstantBase_eq_false (h : e.variableFactors ≠ []) : e.hasConstantBase = false := by
  unfold hasConstantBase
  split
  · next base others marks =>
    -- such a power is a variable factor, so its base is no number
    have hfactor : (apply .pow (base :: others) marks).isVariableFactor = true := by
      by_contra hfactor
      exact h (if_neg hfactor)
    rcases exists_of_isVariableFactor hfactor with ⟨name, s, h⟩ | ⟨name, s, x, marks, h⟩
    · cases h
    · cases h
      rfl
  · rfl

/-- A term with variable factors has a coefficient. -/
lemma exists_coefficient? (h : e.variableFactors ≠ []) : ∃ c, e.coefficient? = some c := by
  fun_induction variableFactors e with
  | case1 => exact ⟨_, rfl⟩
  | case2 e es marks ih =>
      obtain ⟨c, hc⟩ := ih h
      rw [coefficient?]
      split
      · exact ⟨_, rfl⟩
      · exact ⟨_, by rw [hc]; rfl⟩
  | case3 e _ _ hfactor => exact ⟨_, coefficient?_of_isVariableFactor hfactor⟩
  | case4 => exact absurd rfl h

/-- **A term with variable factors** is filed under its key. -/
theorem pieces_of_term (print : Printer) (hterm : e.isTerm = true) (h : e.variableFactors ≠ []) :
    ∃ key c, e.key? print = some key ∧ e.coefficient? = some c ∧
      e.pieces print = [.like key c] := by
  obtain ⟨key, hkey⟩ := exists_key? print h
  obtain ⟨c, hc⟩ := exists_coefficient? h
  have hconstant : e.isConstant = false := by
    rw [← Bool.not_eq_true]
    exact fun hconstant => h (variableFactors_of_isConstant hconstant)
  exact ⟨key, c, hkey, hc, pieces_of_like hconstant hterm (hasConstantBase_eq_false h) hkey hc⟩

/-- So its coefficient under its key is all that its decomposition has. -/
lemma decompose_of_term (print : Printer) (hterm : e.isTerm = true) (h : e.variableFactors ≠ []) :
    ∃ key c, e.key? print = some key ∧ e.coefficient? = some c ∧
      e.decompose print = Decomposition.add {} (.like key c) := by
  obtain ⟨key, c, hkey, hc, hpieces⟩ := pieces_of_term print hterm h
  refine ⟨key, c, hkey, hc, ?_⟩
  rw [decompose, Decomposition.collect, hpieces]
  rfl

lemma keys_of_term (print : Printer) (hterm : e.isTerm = true) (h : e.variableFactors ≠ []) :
    ∃ key, e.key? print = some key ∧ (e.decompose print).groups.keys = [key] := by
  obtain ⟨key, c, hkey, -, hpieces⟩ := pieces_of_term print hterm h
  refine ⟨key, hkey, ?_⟩
  rw [decompose, Decomposition.collect, hpieces]
  rfl

end Terms

/-! ## Inside of what was read -/

namespace Parsed

variable {n : Category} {e : Expr}

/-- Everything inside of what was read could be read on its own, but for the minus signs of
subtractions. -/
lemma everywhere_parsed (h : Parsed n e) :
    e.Everywhere fun d => ∃ (sign : TermSign) (a : Expr), d = sign.term a ∧ ∃ m, Parsed m a := by
  have hself {m : Category} {a : Expr} (h : Parsed m a) :
      ∃ (sign : TermSign) (b : Expr), a = sign.term b ∧ ∃ m, Parsed m b :=
    ⟨.plus, a, rfl, m, h⟩
  induction h with
  | number h => exact List.forall_mem_singleton.mpr (hself (.number h))
  | letter h => exact List.forall_mem_singleton.mpr (hself (.letter h))
  | subscript hc h ih => exact everywhere_subscript.mpr ⟨hself (.subscript hc h), ih⟩
  | call hword hname h ih => exact everywhere_function.mpr ⟨hself (.call hword hname h), ih⟩
  | root h ih => exact everywhere_apply.mpr ⟨hself (.root h), ih⟩
  | parens h ih => exact everywhere_parens.mpr ⟨hself (.parens h), ih⟩
  | bars h ih =>
      exact everywhere_apply.mpr ⟨hself (.bars h), List.forall_mem_singleton.mpr ih⟩
  | factorial h ih =>
      exact everywhere_apply.mpr ⟨hself (.factorial h), List.forall_mem_singleton.mpr ih⟩
  | negExponent h ih =>
      exact everywhere_apply.mpr ⟨hself (.negExponent h), List.forall_mem_singleton.mpr ih⟩
  | posExponent h ih =>
      exact everywhere_apply.mpr ⟨hself (.posExponent h), List.forall_mem_singleton.mpr ih⟩
  | neg h ih => exact everywhere_apply.mpr ⟨hself (.neg h), List.forall_mem_singleton.mpr ih⟩
  | pos h ih => exact everywhere_apply.mpr ⟨hself (.pos h), List.forall_mem_singleton.mpr ih⟩
  | power hb hx ihb ihx =>
      refine everywhere_apply.mpr ⟨hself (.power hb hx), List.forall_mem_cons.mpr ⟨ihb, ?_⟩⟩
      exact List.forall_mem_singleton.mpr ihx
  | quotient ha hb iha ihb =>
      refine everywhere_apply.mpr ⟨hself (.quotient ha hb), List.forall_mem_cons.mpr ⟨iha, ?_⟩⟩
      exact List.forall_mem_singleton.mpr ihb
  | juxtaposition hne h hothers hbars ih ihs =>
      exact everywhere_apply.mpr ⟨hself (.juxtaposition hne h hothers hbars),
        List.forall_mem_cons.mpr ⟨ih, ihs⟩⟩
  | product hlen hargs hloose ih =>
      exact everywhere_apply.mpr ⟨hself (.product hlen hargs hloose), ih⟩
  | sum hne h hlinks ih ihs =>
      refine everywhere_apply.mpr ⟨hself (.sum hne h hlinks), ?_⟩
      refine List.forall_mem_cons.mpr ⟨ih, List.forall_mem_map.mpr ?_⟩
      rintro ⟨sign, a⟩ hl
      cases sign with
      | plus => exact ihs _ hl
      | minus =>
          refine everywhere_apply.mpr ⟨⟨.minus, a, rfl, _, hlinks _ hl⟩, ?_⟩
          exact List.forall_mem_singleton.mpr (ihs _ hl)
  | relation hop hlen hargs ih =>
      exact everywhere_apply.mpr ⟨hself (.relation hop hlen hargs), ih⟩
  | operand _ ih | base _ ih | exponent _ ih | factor _ ih | unsigned _ ih | signed _ ih
  | term _ ih | side _ ih => exact ih

/-- What is read has no signs without an operand, and none with several. -/
lemma singleSigned (h : Parsed n e) : e.SingleSigned := by
  intro d hd hneg
  obtain ⟨sign, a, rfl, m, ha⟩ := h.everywhere_parsed d hd
  cases sign with
  | minus => rfl
  | plus =>
      cases ha.wellFormed with
      | neg => rfl
      | relation hop => cases ‹Operator› <;> cases hop <;> cases hneg
      | _ => cases hneg

/-- The variable factors of what was read could be read as factors. -/
lemma of_mem_variableFactors (h : Parsed n e) : ∀ v ∈ e.variableFactors, Parsed .power v := by
  induction h with
  | letter hc => exact List.forall_mem_singleton.mpr (.base (.operand (.letter hc)))
  | subscript hc hs =>
      exact List.forall_mem_singleton.mpr (.base (.operand (.subscript hc hs)))
  | @power b x hb hx =>
      intro v hv
      have hfactors : (Expr.pow b x).variableFactors =
          if (Expr.pow b x).isVariableFactor then [Expr.pow b x] else [] := rfl
      rw [hfactors] at hv
      split at hv
      · rw [List.mem_singleton.mp hv]
        exact .power hb hx
      · cases hv
  | juxtaposition _ h hothers =>
      intro v hv
      exact List.forall_mem_cons.mpr ⟨h, hothers⟩ v (List.mem_of_mem_filter hv)
  | product _ _ _ ih =>
      intro v hv
      obtain ⟨hmem, hfactor⟩ := List.mem_filter.mp hv
      refine ih v hmem v ?_
      rw [variableFactors_of_isVariableFactor hfactor]
      exact List.mem_singleton_self v
  | negExponent _ ih | neg _ ih => exact ih
  | operand _ ih | base _ ih | exponent _ ih | factor _ ih | unsigned _ ih | signed _ ih
  | term _ ih | side _ ih => exact ih
  | relation hop => cases ‹Operator› <;> cases hop <;> exact fun v hv => absurd hv List.not_mem_nil
  | _ => exact fun v hv => absurd hv List.not_mem_nil

/-- Two expressions that are read from one text are equal, up to parentheses. -/
lemma bare_eq_of_print_eq {e' : Expr} (h : Parsed .relation e) (h' : Parsed .relation e')
    (hprint : e.print {} = e'.print {}) : e.bare = e'.bare := by
  have hparse := h.parse_print
  rw [hprint, h'.parse_print, Except.ok.injEq] at hparse
  rw [← bare_normal false e, ← bare_normal false e', hparse]

end Parsed

/-! ## What keys are printed from -/

section Keys

variable {factors factors' : List Expr}

/-- The expression that is printed as the key of factors: a product of several, one by itself. -/
def keyed (juxtaposed : Bool) (factors : List Expr) : Expr :=
  gather (fun factors => .apply .mul factors { juxtaposed }) factors

lemma likeKey?_eq_print (print : Printer) (juxtaposed : Bool) (hne : factors ≠ []) :
    likeKey? print juxtaposed factors = some (print (keyed juxtaposed factors)) := by
  match factors, hne with
  | [_], _ => rfl
  | _ :: _ :: _, _ => rfl

lemma opensWithBar_eq_false {v : Expr} (h : v.isVariableFactor = true) :
    v.opensWithBar = false := by
  rcases exists_of_isVariableFactor h with ⟨name, s, rfl⟩ | ⟨name, s, x, marks, rfl⟩
  · rfl
  · rfl

/-- Variable factors that could be read could be read as the product that makes their key. -/
lemma parsed_keyed (juxtaposed : Bool) (hne : factors ≠ [])
    (hfactors : ∀ v ∈ factors, v.isVariableFactor = true)
    (hparsed : ∀ v ∈ factors, Parsed .power v) : Parsed .relation (keyed juxtaposed factors) := by
  cases juxtaposed with
  | true =>
      have hjoin : 2 ≤ factors.length → Parsed .juxtaposition (juxtapose factors) := fun hlen =>
        .juxtapose hlen hparsed fun v hv => opensWithBar_eq_false (hfactors v hv)
      have := Parsed.gather hjoin hne fun v hv => .factor (hparsed v hv)
      exact this.toRelation (by decide)
  | false =>
      have hproduct : ∀ v ∈ factors, Parsed .product v := fun v hv =>
        .signed (.unsigned (.factor (hparsed v hv)))
      have hjoin : 2 ≤ factors.length → Parsed .product (mul factors) := by
        intro hlen
        refine .product hlen hproduct fun v hv hloose => ?_
        have htight : ¬ v.binding < .power := (hparsed v hv).not_binding_lt
        exact absurd (Nat.lt_of_lt_of_le hloose (by decide)) htight
      have := Parsed.gather hjoin hne hproduct
      exact this.toRelation (by decide)

/-- A variable factor is no product, also without the parentheses in its subscripts. -/
lemma bare_ne_mul {v : Expr} (h : v.isVariableFactor = true) (args : List Expr) (marks : Marks) :
    v.bare ≠ apply .mul args marks := by
  rcases exists_of_isVariableFactor h with ⟨name, s, rfl⟩ | ⟨name, s, x, marks', rfl⟩
  · simp [bare]
  · simp [bare]

/-- The product that makes a key shows its factors, and how they are put together. -/
lemma eq_of_bare_keyed_eq {juxtaposed juxtaposed' : Bool} (hne : factors ≠ [])
    (hne' : factors' ≠ []) (hfactors : ∀ v ∈ factors, v.isVariableFactor = true)
    (hfactors' : ∀ v ∈ factors', v.isVariableFactor = true)
    (h : (keyed juxtaposed factors).bare = (keyed juxtaposed' factors').bare) :
    factors.map bare = factors'.map bare ∧ (1 < factors.length → juxtaposed = juxtaposed') := by
  match factors, factors', hne, hne' with
  | [v], [v'], _, _ => exact ⟨congrArg (fun v => [v]) h, fun hlen => absurd hlen (by simp)⟩
  | [v], v' :: w' :: others', _, _ =>
      rw [keyed, keyed, gather_single, gather, bare_apply] at h
      · exact absurd h (bare_ne_mul (hfactors v (List.mem_singleton_self v)) _ _)
      · simp
  | v :: w :: others, [v'], _, _ =>
      rw [keyed, keyed, gather_single, gather, bare_apply] at h
      · exact absurd h.symm (bare_ne_mul (hfactors' v' (List.mem_singleton_self v')) _ _)
      · simp
  | v :: w :: others, v' :: w' :: others', _, _ =>
      have hproducts : apply .mul ((v :: w :: others).map bare) { juxtaposed } =
          apply .mul ((v' :: w' :: others').map bare) { juxtaposed := juxtaposed' } := by
        rw [← bare_apply, ← bare_apply]
        exact h
      obtain ⟨-, hargs, hmarks⟩ := Expr.apply.inj hproducts
      exact ⟨hargs, fun _ => congrArg Marks.juxtaposed hmarks⟩

/-! ## Terms with one key -/

lemma isVariableFactor_of_mem {e v : Expr} (h : v ∈ e.variableFactors) :
    v.isVariableFactor = true := by
  fun_induction variableFactors e with
  | case1 => exact List.of_mem_filter h
  | case2 _ _ _ ih => exact ih h
  | case3 e _ _ hfactor => rw [List.mem_singleton.mp h, hfactor]
  | case4 => cases h

/-- The variable factors of a term from inside of what was read. -/
lemma parsed_of_mem_variableFactors {text : String} {d e : Expr} (hparse : parse text = .ok d)
    (he : e ∈ d.subterms) : ∀ v ∈ e.variableFactors, Parsed .power v := by
  obtain ⟨sign, a, rfl, m, ha⟩ := (parsed_of_parse hparse).everywhere_parsed e he
  cases sign with
  | plus => exact ha.of_mem_variableFactors
  | minus => exact ha.of_mem_variableFactors

/-- There are no parentheses in them, other than inside of their subscripts. -/
lemma exposesParens_of_mem_variableFactors {text : String} {d e : Expr}
    (hparse : parse text = .ok d) (he : e ∈ d.subterms) :
    ∀ v ∈ e.variableFactors, v.exposesParens = false := by
  intro v hv
  have hsingle := (parsed_of_mem_variableFactors hparse he v hv).singleSigned
  have hterm := isTerm_of_isVariableFactor (isVariableFactor_of_mem hv)
  exact exposesParens_of_isTerm hsingle (.inl hterm)

lemma sortVariables_ne_nil (h : factors ≠ []) : sortVariables factors ≠ [] := fun hnil =>
  h (hnil ▸ sortVariables_perm factors).nil_eq.symm

/-- The key of such a term is the text of an expression that could be read, too. -/
lemma key?_eq_print {text : String} {d e : Expr} (hparse : parse text = .ok d)
    (he : e ∈ d.subterms) (hvars : e.variableFactors ≠ []) :
    e.key? (fun e => e.print {}) =
        some ((keyed e.isJuxtaposed (sortVariables e.variableFactors)).print {}) ∧
      Parsed .relation (keyed e.isJuxtaposed (sortVariables e.variableFactors)) := by
  have hne := sortVariables_ne_nil hvars
  refine ⟨likeKey?_eq_print _ _ hne, parsed_keyed _ hne (fun v hv => ?_) fun v hv => ?_⟩
  · exact isVariableFactor_of_mem (mem_sortVariables.mp hv)
  · exact parsed_of_mem_variableFactors hparse he v (mem_sortVariables.mp hv)

/-- **Terms with one key have the same variable factors**, up to parentheses, which are in their
subscripts, and several factors are put together in the same way.  Each term has exactly one key. -/
theorem factors_eq_of_key_eq {text text' : String} {d d' e e' : Expr}
    (hparse : parse text = .ok d) (hparse' : parse text' = .ok d') (he : e ∈ d.subterms)
    (he' : e' ∈ d'.subterms) (hterm : e.isTerm = true) (hterm' : e'.isTerm = true)
    (hvars : e.variableFactors ≠ []) (hvars' : e'.variableFactors ≠ []) :
    ∃ key key', (e.decompose fun e => e.print {}).groups.keys = [key] ∧
      (e'.decompose fun e => e.print {}).groups.keys = [key'] ∧
      (∀ v ∈ e.variableFactors ++ e'.variableFactors, v.exposesParens = false) ∧
      (key = key' →
        (sortVariables e.variableFactors).map bare = (sortVariables e'.variableFactors).map bare ∧
        (1 < (sortVariables e.variableFactors).length → e.isJuxtaposed = e'.isJuxtaposed)) := by
  obtain ⟨key, hkey, hkeys⟩ := keys_of_term (fun e => e.print {}) hterm hvars
  obtain ⟨key', hkey', hkeys'⟩ := keys_of_term (fun e => e.print {}) hterm' hvars'
  refine ⟨key, key', hkeys, hkeys', List.forall_mem_append.mpr ⟨?_, ?_⟩, ?_⟩
  · exact exposesParens_of_mem_variableFactors hparse he
  · exact exposesParens_of_mem_variableFactors hparse' he'
  rintro rfl
  obtain ⟨hprint, hparsed⟩ := key?_eq_print hparse he hvars
  obtain ⟨hprint', hparsed'⟩ := key?_eq_print hparse' he' hvars'
  have htext := Option.some.inj (hprint.symm.trans (hkey.trans (hkey'.symm.trans hprint')))
  have hfactor : ∀ {e : Expr}, ∀ v ∈ sortVariables e.variableFactors, v.isVariableFactor = true :=
    fun v hv => isVariableFactor_of_mem (mem_sortVariables.mp hv)
  exact eq_of_bare_keyed_eq (sortVariables_ne_nil hvars) (sortVariables_ne_nil hvars') hfactor
    hfactor (hparsed.bare_eq_of_print_eq hparsed' htext)

/-- What `4 x_(2/3*y) z` is read as. -/
def scaledTerm : Expr :=
  juxtapose [number "4",
    identifier "x" (some (parens (mul [div (number "2") (number "3"), var "y"]))), var "z"]

/-- What `z x_((2/3)*y)` is read as. -/
def turnedTerm : Expr :=
  juxtapose [var "z",
    identifier "x" (some (parens (mul [parens (div (number "2") (number "3")), var "y"])))]

/-- Another pair of parentheses in a subscript makes no other key. -/
theorem factors_eq_subscripted :
    parse "4 x_(2/3*y) z" = .ok scaledTerm ∧ parse "z x_((2/3)*y)" = .ok turnedTerm ∧
      ∃ key key', (scaledTerm.decompose fun e => e.print {}).groups.keys = [key] ∧
        (turnedTerm.decompose fun e => e.print {}).groups.keys = [key'] ∧
        (∀ v ∈ scaledTerm.variableFactors ++ turnedTerm.variableFactors,
          v.exposesParens = false) ∧
        (key = key' → (sortVariables scaledTerm.variableFactors).map bare =
            (sortVariables turnedTerm.variableFactors).map bare ∧
          (1 < (sortVariables scaledTerm.variableFactors).length →
            scaledTerm.isJuxtaposed = turnedTerm.isJuxtaposed)) := by
  have hscaled : parse "4 x_(2/3*y) z" = .ok scaledTerm := by decide +kernel
  have hturned : parse "z x_((2/3)*y)" = .ok turnedTerm := by decide +kernel
  exact ⟨hscaled, hturned, factors_eq_of_key_eq hscaled hturned (mem_subterms_self _)
    (mem_subterms_self _) rfl rfl (by decide) (by decide)⟩

end Keys

end MathExpr.Expr
