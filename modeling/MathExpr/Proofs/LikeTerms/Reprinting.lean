import MathExpr.Proofs.LikeTerms.Keys

/-!
# Like terms after printing and reading again

An expression that is printed and read again comes back in normal form, which has parentheses where
the expression had none, or none where it had some.  There are no parentheses in terms, so both
changes matter to them, unless they happen inside of other parentheses or of a subscript.

* `Expr.addsParens`, `Expr.dropsParens` — whether exposed operands get or lose their parentheses.
* `Expr.normal_eq_withParens` — the normal form where none are lost.
* `Expr.dropsParens_eq_false` — only those that are exposed can be lost.
* `Expr.normal_keyed` — none come or go in what keys are printed from.
* `Expr.decompose_normal` — so the normal form has the decomposition of the expression.
* **`Expr.survives_reprinting`** — what is left of an expression after printing and reading it.
-/

namespace MathExpr

/-- Whether an operand of an application gets parentheses.  These are fractions that are factors of
an explicit product, and relations that are sides of a relation. -/
def Operator.brackets (op : Operator) (marks : Marks) (operand : Expr) : Bool :=
  match op with
  | .mul => !marks.juxtaposed && operand.isOp .div
  | op => op.isRelation && operand.isRelation

namespace Expr

/-! ## Parentheses that come and go -/

/-- Whether an expression applies an operator to an operand that gets parentheses. -/
def bracketsOperand : Expr → Bool
  | .apply op args marks => args.any (op.brackets marks)
  | _ => false

/-- Whether the normal form of an expression has parentheses around an exposed operand that has
none. -/
def addsParens (e : Expr) : Bool :=
  e.exposed.any bracketsOperand

mutual

/-- Whether an exposed operand loses its parentheses in the normal form of an expression.  This is
so behind any sign but the minus sign of a subtraction and those right behind a `^`. -/
def dropsParens (inExponent : Bool) : Expr → Bool
  | .number _ => false
  | .identifier _ _ => false
  | .parens _ => false
  | .call _ _ args _ => dropsParensList args
  | .apply op args _ =>
    match op, args with
    | .add, first :: terms => first.dropsParens false || dropsParensTerms terms
    | .pow, [base, exponent] => base.dropsParens false || exponent.dropsParens true
    | .neg, [e] => !inExponent && e.isParens || e.dropsParens inExponent
    | .pos, [e] => !inExponent && e.isParens || e.dropsParens inExponent
    | _, args => dropsParensList args

/-- Whether an operand in one of the expressions of a list loses its parentheses. -/
def dropsParensList : List Expr → Bool
  | [] => false
  | e :: es => e.dropsParens false || dropsParensList es

/-- Whether an operand in one of the terms after the first of a sum loses its parentheses. -/
def dropsParensTerms : List Expr → Bool
  | [] => false
  | .apply .neg args ⟨_, true⟩ :: terms => dropsParensList args || dropsParensTerms terms
  | term :: terms => term.dropsParens false || dropsParensTerms terms

end

/-! ## The normal form if no parentheses are lost -/

mutual

/-- An expression with parentheses around all exposed operands that get some, and with everything
that is enclosed changed by `f`. -/
def withParens (f : Expr → Expr) : Expr → Expr
  | .number numeral => .number numeral
  | .identifier name subscript => .identifier name (subscript.map f)
  | .parens body => .parens (f body)
  | .call name subscript args marks =>
    .call name (subscript.map f) (withParensList f (fun _ => false) args) marks
  | .apply op args marks => .apply op (withParensList f (op.brackets marks) args) marks

/-- The operands of a list, those that `p` picks in parentheses. -/
def withParensList (f : Expr → Expr) (p : Expr → Bool) : List Expr → List Expr
  | [] => []
  | e :: es => (if p e then .parens (f e) else e.withParens f) :: withParensList f p es

end

section WithParens

variable {f : Expr → Expr}

lemma withParensList_eq_map (p : Expr → Bool) (es : List Expr) :
    withParensList f p es = es.map fun e => if p e then .parens (f e) else e.withParens f := by
  induction es with
  | nil => rfl
  | cons e es ih => rw [withParensList, ih, List.map_cons]

lemma addsParens_apply (op : Operator) (args : List Expr) (marks : Marks) :
    (apply op args marks).addsParens =
      (args.any (op.brackets marks) || args.any addsParens) := by
  rw [addsParens, exposed, List.any_cons, exposedList_eq_flatMap, List.any_flatMap]
  rfl

lemma addsParens_call (name : String) (s : Option Expr) (args : List Expr) (marks : Marks) :
    (call name s args marks).addsParens = args.any addsParens := by
  rw [addsParens, exposed, List.any_cons, exposedList_eq_flatMap, List.any_flatMap]
  rfl

/-- If no parentheses are put anywhere, only what is enclosed changes. -/
lemma withParens_eq_mapEnclosed {e : Expr} (h : e.addsParens = false) :
    e.withParens f = e.mapEnclosed f := by
  induction e using Expr.induction with
  | number | identifier | parens => rfl
  | apply op args marks ih =>
      rw [addsParens_apply, Bool.or_eq_false_iff, List.any_eq_false, List.any_eq_false] at h
      obtain ⟨hbrackets, hargs⟩ := h
      rw [withParens, mapEnclosed_apply, withParensList_eq_map]
      refine congrArg (fun args => apply op args marks) (List.map_congr_left fun a ha => ?_)
      rw [if_neg (hbrackets a ha), ih a ha (Bool.eq_false_iff.mpr (hargs a ha))]
  | call name s args marks _ ih =>
      rw [addsParens_call, List.any_eq_false] at h
      rw [withParens, mapEnclosed_call, withParensList_eq_map]
      refine congrArg (fun args => call name (s.map f) args marks)
        (List.map_congr_left fun a ha => ?_)
      rw [if_neg Bool.false_ne_true, ih a ha (Bool.eq_false_iff.mpr (h a ha))]

lemma any_withParensList {p : Expr → Bool} {es : List Expr}
    (h : ∀ e ∈ es, (e.withParens f).exposesParens = (e.exposesParens || e.addsParens)) :
    (withParensList f p es).any exposesParens =
      (es.any p || (es.any exposesParens || es.any addsParens)) := by
  induction es with
  | nil => rfl
  | cons e es ih =>
      obtain ⟨he, hes⟩ := List.forall_mem_cons.mp h
      rw [withParensList, List.any_cons, ih hes, List.any_cons, List.any_cons, List.any_cons]
      cases p e with
      | true => rfl
      | false =>
          rw [if_neg Bool.false_ne_true, he]
          ac_rfl

/-- The exposed parentheses are those that were there and those that were put. -/
lemma exposesParens_withParens (e : Expr) :
    (e.withParens f).exposesParens = (e.exposesParens || e.addsParens) := by
  induction e using Expr.induction with
  | number | identifier | parens => rfl
  | apply op args marks ih =>
      rw [withParens, exposesParens_apply, exposesParens_apply, addsParens_apply,
        any_withParensList ih]
      exact Bool.or_left_comm _ _ _
  | call name s args marks _ ih =>
      rw [withParens, exposesParens_call, exposesParens_call, addsParens_call,
        any_withParensList ih]
      simp

end WithParens

mutual

/-- **If no parentheses are lost**, the normal form has some around the operands that get them, and
whatever is enclosed is in normal form. -/
theorem normal_eq_withParens : ∀ (inExponent : Bool) (e : Expr), e.dropsParens inExponent = false →
    e.normal inExponent = e.withParens (normal false)
  | _, .number _, _ | _, .identifier _ none, _ | _, .identifier _ (some _), _ => rfl
  | _, .parens _, _ => rfl
  | _, .call name none args marks, h =>
      congrArg (fun args => call name none args marks) (normalList_eq_withParensList args h)
  | _, .call name (some s) args marks, h =>
      congrArg (fun args => call name (some (s.normal false)) args marks)
        (normalList_eq_withParensList args h)
  | _, .apply .add [] _, _ => rfl
  | _, .apply .add (first :: terms) marks, h => by
      obtain ⟨hfirst, hterms⟩ := Bool.or_eq_false_iff.mp h
      have hnormal := normal_eq_withParens false first hfirst
      have hothers := normalTerms_eq_withParensList terms hterms
      exact congrArg₂ (fun first terms => apply .add (first :: terms) marks) hnormal hothers
  | _, .apply .mul args ⟨true, _⟩, h =>
      congrArg (fun args => apply _ args _) (normalList_eq_withParensList args h)
  | _, .apply .mul args ⟨false, _⟩, h =>
      congrArg (fun args => apply _ args _) (normalBracketed_eq_withParensList (isOp .div) args h)
  | _, .apply .pow [b, x] marks, h => by
      obtain ⟨hb, hx⟩ := Bool.or_eq_false_iff.mp h
      have hbase := normal_eq_withParens false b hb
      have hexponent := normal_eq_withParens true x hx
      exact congrArg₂ (fun b x => apply .pow [b, x] marks) hbase hexponent
  | false, .apply .neg [e] _, h | false, .apply .pos [e] _, h => by
      obtain ⟨hparens, he⟩ := Bool.or_eq_false_iff.mp h
      have hoperand := (unparenthesized_normal hparens).trans (normal_eq_withParens false e he)
      exact congrArg (fun e => apply _ [e] _) hoperand
  -- right behind a `^` a sign leaves its operand as it is
  | true, .apply .neg [e] _, h | true, .apply .pos [e] _, h =>
      congrArg (fun e => apply _ [e] _) (normal_eq_withParens true e h)
  -- over another number of operands these three are operators like any other
  | _, .apply .pow [] _, _ | _, .apply .neg [] _, _ | _, .apply .pos [] _, _ => rfl
  | _, .apply .pow [x] _, h =>
      congrArg (fun args => apply _ args _) (normalList_eq_withParensList [x] h)
  | _, .apply .pow (x :: y :: z :: args) _, h =>
      congrArg (fun args => apply _ args _) (normalList_eq_withParensList (x :: y :: z :: args) h)
  | _, .apply .neg (x :: y :: args) _, h | _, .apply .pos (x :: y :: args) _, h =>
      congrArg (fun args => apply _ args _) (normalList_eq_withParensList (x :: y :: args) h)
  | _, .apply .div args _, h | _, .apply .abs args _, h | _, .apply .fact args _, h
  | _, .apply .nthRoot args _, h =>
      congrArg (fun args => apply _ args _) (normalList_eq_withParensList args h)
  | _, .apply .eq args _, h | _, .apply .ne args _, h | _, .apply .lt args _, h
  | _, .apply .le args _, h | _, .apply .gt args _, h | _, .apply .ge args _, h =>
      congrArg (fun args => apply _ args _) (normalBracketed_eq_withParensList isRelation args h)

lemma normalList_eq_withParensList : ∀ (es : List Expr), dropsParensList es = false →
    normalList es = withParensList (normal false) (fun _ => false) es
  | [], _ => rfl
  | e :: es, h => by
      obtain ⟨he, hes⟩ := Bool.or_eq_false_iff.mp h
      rw [normalList, withParensList, if_neg Bool.false_ne_true, normal_eq_withParens false e he,
        normalList_eq_withParensList es hes]

lemma normalBracketed_eq_withParensList (p : Expr → Bool) : ∀ (es : List Expr),
    dropsParensList es = false → normalBracketed p es = withParensList (normal false) p es
  | [], _ => rfl
  | e :: es, h => by
      obtain ⟨he, hes⟩ := Bool.or_eq_false_iff.mp h
      rw [normalBracketed, withParensList, normal_eq_withParens false e he,
        normalBracketed_eq_withParensList p es hes]

lemma normalTerms_eq_withParensList : ∀ (terms : List Expr), dropsParensTerms terms = false →
    normalTerms terms = withParensList (normal false) (fun _ => false) terms
  | [], _ => rfl
  | term :: terms, h => by
      rw [normalTerms.eq_def]
      split
      · next heq => cases heq
      · next args juxtaposed terms' heq =>
        -- a term under the minus sign of a subtraction
        cases heq
        obtain ⟨hargs, hterms⟩ := Bool.or_eq_false_iff.mp h
        have hoperand := normalList_eq_withParensList args hargs
        have hothers := normalTerms_eq_withParensList terms hterms
        exact congrArg₂ (fun args terms => apply .neg args _ :: terms) hoperand hothers
      · next hplain heq =>
        cases heq
        rw [dropsParensTerms] at h
        · obtain ⟨hterm, hterms⟩ := Bool.or_eq_false_iff.mp h
          rw [normal_eq_withParens false term hterm, normalTerms_eq_withParensList terms hterms]
          rfl
        · exact hplain

end

/-! ## Terms lose no parentheses -/

lemma isParens_of_exposesParens {e : Expr} (h : e.exposesParens = false) : e.isParens = false :=
  Bool.eq_false_iff.mpr (List.any_eq_false.mp h e (mem_exposed_self e))

lemma dropsParensList_eq_false {es : List Expr} (h : ∀ e ∈ es, e.dropsParens false = false) :
    dropsParensList es = false := by
  induction es with
  | nil => rfl
  | cons e es ih =>
      obtain ⟨he, hes⟩ := List.forall_mem_cons.mp h
      rw [dropsParensList, he, ih hes]
      rfl

/-- The minus sign of a subtraction loses no more than any other sign. -/
lemma dropsParensTerms_eq_false {terms : List Expr} (h : ∀ e ∈ terms, e.dropsParens false = false) :
    dropsParensTerms terms = false := by
  induction terms with
  | nil => rfl
  | cons term terms ih =>
      obtain ⟨hterm, hterms⟩ := List.forall_mem_cons.mp h
      rw [dropsParensTerms.eq_def]
      split
      · rfl
      · next args juxtaposed terms' heq =>
        cases heq
        have hargs : dropsParensList args = false := by
          match args, hterm with
          | [], _ => rfl
          | [e], hterm =>
              have he : e.dropsParens false = false := (Bool.or_eq_false_iff.mp hterm).2
              exact dropsParensList_eq_false (List.forall_mem_singleton.mpr he)
          | _ :: _ :: _, hterm => exact hterm
        rw [hargs, ih hterms]
        rfl
      · next heq =>
        cases heq
        rw [hterm, ih hterms]
        rfl

/-- Without exposed parentheses there are none to lose. -/
lemma dropsParens_eq_false (inExponent : Bool) {e : Expr} (h : e.exposesParens = false) :
    e.dropsParens inExponent = false := by
  induction e using Expr.induction generalizing inExponent with
  | number | identifier | parens => rfl
  | apply op args marks ih =>
      rw [exposesParens_apply, List.any_eq_false] at h
      have hargs (inExponent : Bool) : ∀ a ∈ args, a.dropsParens inExponent = false :=
        fun a ha => ih a ha inExponent (Bool.eq_false_iff.mpr (h a ha))
      have hsign : ∀ a ∈ args, (!inExponent && a.isParens || a.dropsParens inExponent) = false := by
        intro a ha
        have hparens := isParens_of_exposesParens (Bool.eq_false_iff.mpr (h a ha))
        rw [hparens, Bool.and_false, Bool.false_or, hargs inExponent a ha]
      rw [dropsParens.eq_def]
      simp only
      split
      · next first terms =>
        obtain ⟨hfirst, hterms⟩ := List.forall_mem_cons.mp (hargs false)
        rw [hfirst, dropsParensTerms_eq_false hterms]
        rfl
      · next b x =>
        have hb := hargs false b (List.mem_cons_self ..)
        have hx := hargs true x (List.mem_cons_of_mem _ (List.mem_cons_self ..))
        rw [hb, hx]
        rfl
      · next e => exact hsign e (List.mem_cons_self ..)
      · next e => exact hsign e (List.mem_cons_self ..)
      · exact dropsParensList_eq_false (hargs false)
  | call name s args marks _ ih =>
      rw [exposesParens_call, List.any_eq_false] at h
      exact dropsParensList_eq_false fun a ha => ih a ha false (Bool.eq_false_iff.mpr (h a ha))

/-! ## Keys -/

section Keys

variable {e : Expr} {factors : List Expr} {f : Expr → Expr} {style : Style}

lemma addsParens_eq_false {op : Operator} {args : List Expr} {marks : Marks}
    (hbrackets : ∀ a ∈ args, op.brackets marks a = false)
    (hargs : ∀ a ∈ args, a.addsParens = false) : (apply op args marks).addsParens = false := by
  rw [addsParens_apply, Bool.or_eq_false_iff, List.any_eq_false, List.any_eq_false]
  exact ⟨fun a ha => Bool.eq_false_iff.mp (hbrackets a ha),
    fun a ha => Bool.eq_false_iff.mp (hargs a ha)⟩

lemma addsParens_of_isNumber (h : e.SingleSigned) (hnumber : e.isNumber = true) :
    e.addsParens = false := by
  unfold isNumber at hnumber
  fun_induction numeral? e with
  | case1 => rfl
  | case2 e es marks ih =>
      obtain rfl := h.eq_nil
      exact addsParens_eq_false (fun _ _ => rfl)
        (List.forall_mem_singleton.mpr (ih h.of_neg hnumber))
  | case3 => cases hnumber

/-- No operand of a variable factor gets parentheses, -/
lemma addsParens_of_isVariableFactor (h : e.SingleSigned) (hfactor : e.isVariableFactor = true) :
    e.addsParens = false := by
  fun_induction isVariableFactor e with
  | case1 => rfl
  | case2 b x marks ih =>
      obtain ⟨hbase, hexponent⟩ := Bool.and_eq_true_iff.mp hfactor
      have hb : b.addsParens = false := by
        cases b with
        | identifier => rfl
        | _ => cases hbase
      have hx : x.addsParens = false := by
        have hsingle : x.SingleSigned := h.operand (List.mem_cons_of_mem _ (List.mem_cons_self ..))
        rcases Bool.or_eq_true_iff.mp hexponent with hnumber | hfactor
        · exact addsParens_of_isNumber hsingle hnumber
        · exact ih hsingle hfactor
      exact addsParens_eq_false (fun _ _ => rfl)
        (List.forall_mem_cons.mpr ⟨hb, List.forall_mem_singleton.mpr hx⟩)
  | case3 => cases hfactor

/-- and none is bracketed in the product that makes a key. -/
lemma normal_keyed (juxtaposed : Bool) (hfactors : ∀ v ∈ factors, v.isVariableFactor = true)
    (hsingle : ∀ v ∈ factors, v.SingleSigned) : (keyed juxtaposed factors).normal false =
      (keyed juxtaposed factors).mapEnclosed (normal false) := by
  have hadds : ∀ v ∈ factors, v.addsParens = false := fun v hv =>
    addsParens_of_isVariableFactor (hsingle v hv) (hfactors v hv)
  have hexposes : ∀ v ∈ factors, v.exposesParens = false := fun v hv =>
    exposesParens_of_isTerm (hsingle v hv) (.inl (isTerm_of_isVariableFactor (hfactors v hv)))
  have hsuffices {e : Expr} (hexposes : e.exposesParens = false) (hadds : e.addsParens = false) :
      e.normal false = e.mapEnclosed (normal false) :=
    (normal_eq_withParens false e (dropsParens_eq_false false hexposes)).trans
      (withParens_eq_mapEnclosed hadds)
  have hproduct : (apply .mul factors { juxtaposed }).normal false =
      (apply .mul factors { juxtaposed }).mapEnclosed (normal false) := by
    refine hsuffices ?_ (addsParens_eq_false (fun v hv => ?_) hadds)
    · rw [exposesParens_apply, List.any_eq_false]
      exact fun v hv => Bool.eq_false_iff.mp (hexposes v hv)
    · have hdiv : v.isOp .div = false := by
        rcases exists_of_isVariableFactor (hfactors v hv) with ⟨_, _, rfl⟩ | ⟨_, _, _, _, rfl⟩
        · rfl
        · rfl
      rw [Operator.brackets, hdiv, Bool.and_false]
  match factors with
  | [v] =>
      have hv : v ∈ [v] := List.mem_singleton_self v
      exact hsuffices (hexposes v hv) (hadds v hv)
  | [] | _ :: _ :: _ => exact hproduct

/-- The text of a variable factor changes only where that of an identifier does. -/
lemma chars_mapEnclosed_of_isVariableFactor (h : e.SingleSigned)
    (hfactor : e.isVariableFactor = true) (hidentifiers : ∀ d ∈ e.exposed, d.isIdentifier = true →
      (d.mapEnclosed f).chars style = d.chars style) :
    (e.mapEnclosed f).chars style = e.chars style := by
  fun_induction isVariableFactor e with
  | case1 name s => exact hidentifiers _ (mem_exposed_self _) rfl
  | case2 b x marks ih =>
      obtain ⟨hbase, hexponent⟩ := Bool.and_eq_true_iff.mp hfactor
      have hmem : x ∈ [b, x] := List.mem_cons_of_mem _ (List.mem_cons_self ..)
      have hsingle : x.SingleSigned := h.operand hmem
      have hb : (b.mapEnclosed f).chars style = b.chars style := by
        refine hidentifiers b ?_ hbase
        exact mem_exposed_of_mem_operands (List.mem_cons_self ..) (mem_exposed_self b)
      have hx : (x.mapEnclosed f).chars style = x.chars style := by
        rcases Bool.or_eq_true_iff.mp hexponent with hnumber | hfactor
        · rw [hsingle.mapEnclosed_of_isNumber hnumber]
        · exact ih hsingle hfactor fun d hd =>
            hidentifiers d (mem_exposed_of_mem_operands hmem hd)
      have hchars (b x : Expr) : (apply .pow [b, x] marks).chars style =
        bracket b.binding .factorial (b.chars style) ++ '^' ::
          bracket x.binding x.leastAsExponent (x.chars style) := rfl
      rw [mapEnclosed_apply, List.map_cons, List.map_singleton, hchars, hchars, hb, hx,
        binding_mapEnclosed, binding_mapEnclosed, leastAsExponent_mapEnclosed]
  | case3 => cases hfactor

/-- So does the text of a product of them. -/
lemma chars_mapEnclosed_keyed (juxtaposed : Bool)
    (hfactors : ∀ v ∈ factors, (v.mapEnclosed f).chars style = v.chars style) :
    ((keyed juxtaposed factors).mapEnclosed f).chars style =
      (keyed juxtaposed factors).chars style := by
  have hplaces (least : Binding) : charsAt style least (factors.map (mapEnclosed f)) =
      charsAt style least factors := by
    rw [charsAt_eq_map, charsAt_eq_map, List.map_map]
    refine List.map_congr_left fun v hv => ?_
    rw [Function.comp_apply, hfactors v hv, binding_mapEnclosed]
  have hproduct : ((apply .mul factors { juxtaposed }).mapEnclosed f).chars style =
      (apply .mul factors { juxtaposed }).chars style := by
    have hchars (args : List Expr) : (apply .mul args { juxtaposed }).chars style =
      if juxtaposed then style.juxtapose (charsAt style .power args)
      else Style.join (style.sign "*") (charsAt style .sign args) := rfl
    rw [mapEnclosed_apply, hchars, hchars, hplaces, hplaces]
  match factors with
  | [v] => exact hfactors v (List.mem_singleton_self v)
  | [] | _ :: _ :: _ => exact hproduct

/-- A key is the text of a product of variable factors, or of a single one. -/
lemma key?_congr {print print' : Printer} (h : e.variableFactors ≠ [] →
    print (keyed e.isJuxtaposed (sortVariables e.variableFactors)) =
      print' (keyed e.isJuxtaposed (sortVariables e.variableFactors))) :
    e.key? print = e.key? print' := by
  by_cases hvars : e.variableFactors = []
  · rw [key?_eq_none print hvars, key?_eq_none print' hvars]
  · have hsorted := sortVariables_ne_nil hvars
    rw [key?, key?, likeKey?_eq_print print _ hsorted, likeKey?_eq_print print' _ hsorted, h hvars]

/-- A key is printed from variable factors, and in these nothing comes or goes. -/
lemma key?_normal (print : Printer) (h : e.SingleSigned) :
    (e.key? fun d => print (d.mapEnclosed (normal false))) =
      e.key? fun d => print (d.normal false) := by
  refine key?_congr fun _ => congrArg print (normal_keyed _ (fun v hv => ?_) fun v hv => ?_).symm
  · exact isVariableFactor_of_mem (mem_sortVariables.mp hv)
  · have hv' := mem_sortVariables.mp hv
    exact h.of_mem_exposed (mem_exposed_of_mem_variableFactors hv' (mem_exposed_self v))

/-- The text of a key stays as it is if that of every identifier does. -/
lemma key?_normal_of_identifiers (h : e.SingleSigned)
    (hidentifiers : ∀ d ∈ e.exposed, d.isIdentifier = true →
      (d.normal false).print {} = d.print {}) :
    (e.key? fun d => (d.normal false).print {}) = e.key? fun d => d.print {} := by
  rw [← key?_normal (fun d => d.print {}) h]
  refine key?_congr fun _ => congrArg String.ofList (chars_mapEnclosed_keyed _ fun v hv => ?_)
  have hv' := mem_sortVariables.mp hv
  have hexposed {d : Expr} (hd : d ∈ v.exposed) : d ∈ e.exposed :=
    mem_exposed_of_mem_variableFactors hv' hd
  refine chars_mapEnclosed_of_isVariableFactor (h.of_mem_exposed (hexposed (mem_exposed_self v)))
    (isVariableFactor_of_mem hv') fun d hd hidentifier => ?_
  have hprint := hidentifiers d (hexposed hd) hidentifier
  cases d with
  | identifier name s =>
      cases s with
      | none => rfl
      | some s => exact String.ofList_injective hprint
  | _ => cases hidentifier

end Keys

/-! ## What survives -/

section Survival

variable {t : Expr}

/-- If no parentheses come or go, only what is enclosed changes. -/
lemma normal_eq_mapEnclosed (hdrops : t.dropsParens false = false) (hadds : t.addsParens = false) :
    t.normal false = t.mapEnclosed (normal false) :=
  (normal_eq_withParens false t hdrops).trans (withParens_eq_mapEnclosed hadds)

/-- If some come and none go, the normal form exposes some. -/
lemma exposesParens_normal (hdrops : t.dropsParens false = false) :
    (t.normal false).exposesParens = (t.exposesParens || t.addsParens) := by
  rw [normal_eq_withParens false t hdrops, exposesParens_withParens]

/-- **The decomposition of the normal form** has the keys that are printed from normal forms, and
the other expressions in normal form. -/
theorem decompose_normal (print : Printer) (h : t.SingleSigned)
    (hdrops : t.dropsParens false = false) (hadds : t.addsParens = false) :
    (t.normal false).decompose print =
      (t.decompose fun d => print (d.normal false)).mapOthers (normal false) := by
  rw [normal_eq_mapEnclosed hdrops hadds, decompose_mapEnclosed print h,
    decompose_congr fun d hd => key?_normal print (h.of_mem_exposed hd)]
  refine Decomposition.mapOthers_congr fun o ho => ?_
  rw [others_eq_exposed _ h] at ho
  have hparens := List.of_mem_filter ho
  cases o with
  | parens => rfl
  | _ => cases hparens

/-- What is left of an expression `t` when it is printed and read again as `u`. -/
structure SurvivesAs (t u : Expr) : Prop where
  /-- As long as no parentheses are lost, the terms are those that were terms and get none, -/
  isTerm : t.dropsParens false = false → u.isTerm = (t.isTerm && !t.addsParens)
  /-- and the polynomials, too. -/
  isPolynomial : t.dropsParens false = false → u.isPolynomial = (t.isPolynomial && !t.addsParens)
  /-- If none come either, the keys and the other expressions are printed and read again like the
  whole expression, and constants and coefficients stay. -/
  decompose : t.dropsParens false = false → t.addsParens = false →
    u.decompose (fun e => e.print {}) =
      (t.decompose fun e => (e.normal false).print {}).mapOthers (normal false)
  /-- So the decomposition stays if subscripts keep their texts and parentheses what is in them. -/
  decompose_iff : t.dropsParens false = false → t.addsParens = false →
    (∀ d ∈ t.exposed, d.isIdentifier = true → (d.normal false).print {} = d.print {}) →
    (u.decompose (fun e => e.print {}) = t.decompose (fun e => e.print {}) ↔
      ∀ o ∈ (t.decompose fun e => e.print {}).others, o.normal false = o)
  /-- Terms and polynomials lose no parentheses, and where there are no other expressions none are
  lost either. -/
  dropsParens : t.isTerm = true ∨ t.isPolynomial = true ∨
    (t.decompose fun e => e.print {}).others = [] → t.dropsParens false = false
  /-- There are still no other expressions if and only if no parentheses come. -/
  others : (t.decompose fun e => e.print {}).others = [] →
    ((u.decompose fun e => e.print {}).others = [] ↔ t.addsParens = false)

/-- What has parentheses is no term, and no polynomial. -/
lemma normal_of_addsParens (h : (t.normal false).SingleSigned)
    (hdrops : t.dropsParens false = false) (hadds : t.addsParens = true) :
    (t.normal false).isTerm = false ∧ (t.normal false).isPolynomial = false := by
  have hexposes : (t.normal false).exposesParens = true := by
    rw [exposesParens_normal hdrops, hadds, Bool.or_true]
  rw [← Bool.not_eq_true, ← Bool.not_eq_true, ← not_or]
  intro hterm
  rw [exposesParens_of_isTerm h hterm] at hexposes
  cases hexposes

lemma survivesAs_normal (h : t.SingleSigned) (hnormal : (t.normal false).SingleSigned) :
    t.SurvivesAs (t.normal false) where
  isTerm hdrops := by
    cases hadds : t.addsParens with
    | true => rw [(normal_of_addsParens hnormal hdrops hadds).1, Bool.not_true, Bool.and_false]
    | false =>
        rw [normal_eq_mapEnclosed hdrops hadds, isTerm_mapEnclosed, Bool.not_false, Bool.and_true]
  isPolynomial hdrops := by
    cases hadds : t.addsParens with
    | true => rw [(normal_of_addsParens hnormal hdrops hadds).2, Bool.not_true, Bool.and_false]
    | false =>
        rw [normal_eq_mapEnclosed hdrops hadds, isPolynomial_mapEnclosed, Bool.not_false,
          Bool.and_true]
  decompose hdrops hadds := decompose_normal _ h hdrops hadds
  decompose_iff hdrops hadds hidentifiers := by
    have hkeys : ∀ d ∈ t.exposed,
        (d.key? fun d => (d.normal false).print {}) = d.key? fun d => d.print {} := fun d hd =>
      key?_normal_of_identifiers (h.of_mem_exposed hd) fun c hc =>
        hidentifiers c (mem_exposed_trans hd hc)
    rw [decompose_normal _ h hdrops hadds, decompose_congr hkeys,
      Decomposition.mapOthers_eq_self_iff]
  dropsParens hplain := by
    refine dropsParens_eq_false false ?_
    rcases hplain with hterm | hpolynomial | hothers
    · exact exposesParens_of_isTerm h (.inl hterm)
    · exact exposesParens_of_isTerm h (.inr hpolynomial)
    · exact (others_eq_nil_iff h).mp hothers
  others hothers := by
    have hexposes := (others_eq_nil_iff h).mp hothers
    have hdrops := dropsParens_eq_false false hexposes
    rw [others_eq_nil_iff hnormal, exposesParens_normal hdrops, hexposes, Bool.false_or]

/-- **What an expression is to the collection of like terms** survives printing and reading, if no
exposed parentheses come or go. -/
theorem survives_reprinting {text : String} (hparse : parse text = .ok t) :
    ∃ u, parse (t.print {}) = .ok u ∧ t.SurvivesAs u := by
  have hreparse := (parsed_of_parse hparse).parse_print
  refine ⟨t.normal false, hreparse, survivesAs_normal ?_ ?_⟩
  · exact (parsed_of_parse hparse).singleSigned
  · exact (parsed_of_parse hreparse).singleSigned

/-- What `2 x_(2/3*y) + 5` is read as. -/
def subscriptedSum : Expr :=
  add [juxtapose [number "2",
    identifier "x" (some (parens (mul [div (number "2") (number "3"), var "y"])))], number "5"]

/-- In a subscript parentheses come without making the polynomial another one. -/
theorem survives_subscriptedSum : parse "2 x_(2/3*y) + 5" = .ok subscriptedSum ∧
    subscriptedSum.dropsParens false = false ∧ subscriptedSum.addsParens = false ∧
    ∃ u, parse (subscriptedSum.print {}) = .ok u ∧ subscriptedSum.SurvivesAs u := by
  have hparse : parse "2 x_(2/3*y) + 5" = .ok subscriptedSum := by decide +kernel
  exact ⟨hparse, rfl, rfl, survives_reprinting hparse⟩

/-- What `2/3 * x + 1` is read as. -/
def scaledSum : Expr :=
  add [mul [div (number "2") (number "3"), var "x"], number "1"]

/-- What `(2 / 3) * x + 1` is read as. -/
def bracketedSum : Expr :=
  add [mul [parens (div (number "2") (number "3")), var "x"], number "1"]

/-- Where exposed parentheses come, a polynomial is none any more, and a fraction counts as
something else.  Where they go, something becomes a term. -/
theorem terms_changed_by_reprinting :
    (parse "2/3 * x + 1" = .ok scaledSum ∧ parse (scaledSum.print {}) = .ok bracketedSum ∧
      scaledSum.isPolynomial = true ∧ bracketedSum.isPolynomial = false ∧
      (scaledSum.decompose fun e => e.print {}).others = [] ∧
      (bracketedSum.decompose fun e => e.print {}).others =
        [parens (div (number "2") (number "3"))]) ∧
    (parse "-((x))" = .ok (neg (parens (var "x"))) ∧
      parse ((neg (parens (var "x"))).print {}) = .ok (neg (var "x")) ∧
      (neg (parens (var "x"))).isTerm = false ∧ (neg (var "x")).isTerm = true) := by
  refine ⟨⟨?_, ?_, rfl, rfl, ?_, ?_⟩, ?_, ?_, rfl, rfl⟩
  all_goals decide +kernel

end Survival

end Expr

end MathExpr
