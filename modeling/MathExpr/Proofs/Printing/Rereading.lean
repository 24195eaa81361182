import MathExpr.Proofs.Printing.Tokens

/-!
# The expression that printed text stands for

Printed text does not always stand for the expression it was printed from.  Parentheses that were
added for the sake of reading become nodes of the tree, a sign drops the parentheses around its
operand, factors of a factor become factors themselves.  One change goes deeper: a sign at the
beginning of an exponent reaches over a single power, so if it was printed over factors side by side
then all of them but the first end up outside of the exponent.

* `Expr.factors` — the factors that an expression's text is read as, one in most cases.
* `Expr.reread`, `Expr.rereadIn` — the expression that these factors make.
* `Expr.subterms`, `Expr.Everywhere`, `Expr.Somewhere` — an expression and all expressions inside
  of it, with a property that all of them have, or one of them.
* `Expr.juxtaposesBar` — a factor behind another one begins with a bar, which cannot be read.
* `Expr.signsFactors` — a sign at the beginning of an exponent stands over factors side by side.
-/

namespace MathExpr.Expr

/-! ## Reading again -/

/-- Factors side by side, where a single one stands for itself. -/
def joined (factors : List Expr) : Expr :=
  gather juxtapose factors

/-- The factors of an expression with the binding `b` at a place that needs at least `least`.  In
parentheses it is one factor, and it is read as it is anywhere else. -/
def placed (b least : Binding) (plain factors : List Expr) : List Expr :=
  if b < least then [.parens (joined plain)] else factors

/-- Changes the first factor. -/
def onFirst (f : Expr → Expr) : List Expr → List Expr
  | [] => []
  | e :: es => f e :: es

mutual

/-- The factors that the text of an expression is read as.  At the beginning of an exponent a sign
belongs to the first of them only. -/
def factors (inExponent : Bool) : Expr → List Expr
  | .number numeral => [.number numeral]
  | .identifier name subscript => [.identifier name (rereadSubscript subscript)]
  | .parens body => [.parens (joined (body.factors false))]
  | .call name subscript args marks =>
    [.call name subscript ((factorsAt .relation args).map joined) marks]
  | .apply op args marks =>
    match op, args with
    | .add, [] => [.apply .add [] marks]
    | .add, term :: terms =>
      [.apply .add (joined (placed term.binding .product (term.factors false) (term.factors false))
        :: rereadTerms terms) marks]
    | .mul, args =>
      if marks.juxtaposed then (factorsAt .power args).flatten
      else [.apply .mul ((factorsAt .sign args).map joined) marks]
    | .div, [a, b] =>
      [.apply .div [joined (placed a.binding .product (a.factors false) (a.factors false)),
        joined (placed b.binding .sign (b.factors false) (b.factors false))] marks]
    | .pow, [b, x] =>
      onFirst (fun x => .apply .pow
          [joined (placed b.binding .factorial (b.factors false) (b.factors false)), x] marks)
        (placed x.binding x.leastAsExponent (x.factors false) (x.factors true))
    | .neg, [e] =>
      if inExponent then
        onFirst (fun e => .apply .neg [e] marks)
          (placed e.binding .sign (e.factors false) (e.factors true))
      else
        let operand := joined (placed e.binding .sign (e.factors false) (e.factors false))
        [.apply .neg [operand.unparenthesized] marks]
    | .pos, [e] =>
      if inExponent then
        onFirst (fun e => .apply .pos [e] marks)
          (placed e.binding .sign (e.factors false) (e.factors true))
      else
        let operand := joined (placed e.binding .sign (e.factors false) (e.factors false))
        [.apply .pos [operand.unparenthesized] marks]
    | .fact, args => [.apply .fact ((factorsAt .factorial args).map joined) marks]
    | .abs, args => [.apply .abs ((factorsAt .relation args).map joined) marks]
    | .nthRoot, args => [.apply .nthRoot ((factorsAt .relation args).map joined) marks]
    | relation, args => [.apply relation ((factorsAt .sum args).map joined) marks]

/-- A subscript as it is read again. -/
def rereadSubscript : Option Expr → Option Expr
  | none => none
  | some e => some (joined (placed e.binding .whole (e.factors false) (e.factors false)))

/-- The factors of each expression of a list, at a place that needs at least `least`. -/
def factorsAt (least : Binding) : List Expr → List (List Expr)
  | [] => []
  | e :: es =>
    placed e.binding least (e.factors false) (e.factors false) :: factorsAt least es

/-- The terms after the first of a sum, as they are read again. -/
def rereadTerms : List Expr → List Expr
  | [] => []
  | .apply .neg args ⟨juxtaposed, true⟩ :: terms =>
    .apply .neg ((factorsAt .product args).map joined) ⟨juxtaposed, true⟩ :: rereadTerms terms
  | term :: terms =>
    joined (placed term.binding .product (term.factors false) (term.factors false)) ::
      rereadTerms terms

end

/-- The factors of an expression at a place that needs at least `least`. -/
def factorsIn (least : Binding) (e : Expr) : List Expr :=
  placed e.binding least (e.factors false) (e.factors false)

/-- The factors of an expression as an exponent. -/
def factorsInExponent (least : Binding) (e : Expr) : List Expr :=
  placed e.binding least (e.factors false) (e.factors true)

/-- The expression that the text of an expression is read as. -/
def reread (e : Expr) : Expr :=
  joined (e.factors false)

/-- The expression that is read at a place that needs at least `least`. -/
def rereadIn (least : Binding) (e : Expr) : Expr :=
  joined (factorsIn least e)

lemma factorsAt_eq_map (least : Binding) (es : List Expr) :
    factorsAt least es = es.map (factorsIn least) := by
  induction es with
  | nil => rfl
  | cons e es ih => rw [factorsAt, ih, List.map_cons, factorsIn]

lemma map_joined_factorsAt (least : Binding) (es : List Expr) :
    (factorsAt least es).map joined = es.map (rereadIn least) := by
  rw [factorsAt_eq_map, List.map_map]
  rfl

/-! One equation for each kind of expression. -/

section Equations

variable (inExponent : Bool)

lemma factors_var (name : String) : (var name).factors inExponent = [var name] := rfl

lemma factors_subscript (name : String) (s : Expr) :
    (identifier name (some s)).factors inExponent =
      [identifier name (some (rereadIn .whole s))] := rfl

lemma factors_parens (body : Expr) :
    (parens body).factors inExponent = [parens body.reread] := rfl

lemma factors_function (name : String) (args : List Expr) :
    (function name args).factors inExponent = [function name (args.map (rereadIn .relation))] := by
  rw [← map_joined_factorsAt]
  rfl

lemma factors_root (args : List Expr) :
    (apply .nthRoot args {}).factors inExponent =
      [apply .nthRoot (args.map (rereadIn .relation)) {}] := by
  rw [← map_joined_factorsAt]
  rfl

lemma factors_add (first : Expr) (terms : List Expr) :
    (add (first :: terms)).factors inExponent =
      [add (rereadIn .product first :: rereadTerms terms)] := rfl

lemma factors_mul (args : List Expr) :
    (mul args).factors inExponent = [mul (args.map (rereadIn .sign))] := by
  rw [← map_joined_factorsAt]
  rfl

lemma factors_juxtapose (args : List Expr) :
    (juxtapose args).factors inExponent = args.flatMap (factorsIn .power) := by
  rw [List.flatMap_def, ← factorsAt_eq_map]
  rfl

lemma factors_div (a b : Expr) :
    (div a b).factors inExponent = [div (rereadIn .product a) (rereadIn .sign b)] := rfl

lemma factors_pow (b x : Expr) :
    (pow b x).factors inExponent =
      onFirst (pow (rereadIn .factorial b)) (factorsInExponent x.leastAsExponent x) := rfl

lemma factors_neg (e : Expr) :
    (neg e).factors false = [neg (rereadIn .sign e).unparenthesized] := rfl

lemma factors_neg_exponent (e : Expr) :
    (neg e).factors true = onFirst neg (factorsInExponent .sign e) := rfl

lemma factors_pos (e : Expr) :
    (pos e).factors false = [pos (rereadIn .sign e).unparenthesized] := rfl

lemma factors_pos_exponent (e : Expr) :
    (pos e).factors true = onFirst pos (factorsInExponent .sign e) := rfl

lemma factors_abs (e : Expr) :
    (abs e).factors inExponent = [abs (rereadIn .relation e)] := rfl

lemma factors_fact (e : Expr) :
    (fact e).factors inExponent = [fact (rereadIn .factorial e)] := rfl

lemma factors_relate {op : Operator} {symbol : String} (hop : op.relationSymbol? = some symbol)
    (args : List Expr) :
    (relate op args).factors inExponent = [relate op (args.map (rereadIn .sum))] := by
  have hfactors : (relate op args).factors inExponent =
      [relate op ((factorsAt .sum args).map joined)] := by
    cases op <;> cases hop <;> rfl
  rw [hfactors, map_joined_factorsAt]

end Equations

lemma rereadTerms_links : ∀ {links : List (TermSign × Expr)}, (∀ l ∈ links, WellFormed l.2) →
    rereadTerms (links.map fun l => l.1.term l.2) =
      links.map fun l => l.1.term (rereadIn .product l.2)
  | [], _ => rfl
  | (.minus, e) :: links, h => by
      have ih := rereadTerms_links (List.forall_mem_cons.mp h).2
      simp only [List.map_cons, ← ih]
      rfl
  | (.plus, e) :: links, h => by
      obtain ⟨he, hlinks⟩ := List.forall_mem_cons.mp h
      have ih := rereadTerms_links hlinks
      simp only [List.map_cons, ← ih]
      rw [TermSign.term, rereadTerms]
      · rfl
      · intro args j
        exact he.ne_subtracted args j

/-! ## What printed text cannot say -/

mutual

/-- An expression and all expressions inside of it. -/
def subterms : Expr → List Expr
  | .number numeral => [.number numeral]
  | .identifier name subscript => .identifier name subscript :: subscriptSubterms subscript
  | .parens body => .parens body :: body.subterms
  | .call name subscript args marks =>
    .call name subscript args marks :: (subscriptSubterms subscript ++ listSubterms args)
  | .apply op args marks => .apply op args marks :: listSubterms args

/-- The expressions inside of a subscript. -/
def subscriptSubterms : Option Expr → List Expr
  | none => []
  | some e => e.subterms

/-- The expressions inside of those of a list. -/
def listSubterms : List Expr → List Expr
  | [] => []
  | e :: es => e.subterms ++ listSubterms es

end

@[simp] lemma subscriptSubterms_none : subscriptSubterms none = [] := rfl

@[simp] lemma subscriptSubterms_some (e : Expr) : subscriptSubterms (some e) = e.subterms := rfl

@[simp] lemma listSubterms_nil : listSubterms [] = [] := rfl

@[simp] lemma listSubterms_cons (e : Expr) (es : List Expr) :
    listSubterms (e :: es) = e.subterms ++ listSubterms es := rfl

lemma subterms_identifier (name : String) (s : Option Expr) :
    (identifier name s).subterms = identifier name s :: subscriptSubterms s := rfl

lemma subterms_parens (body : Expr) : (parens body).subterms = parens body :: body.subterms := rfl

lemma subterms_call (name : String) (s : Option Expr) (args : List Expr) (marks : Marks) :
    (call name s args marks).subterms =
      call name s args marks :: (subscriptSubterms s ++ listSubterms args) := rfl

lemma subterms_apply (op : Operator) (args : List Expr) (marks : Marks) :
    (apply op args marks).subterms = apply op args marks :: listSubterms args := rfl

lemma mem_subterms_self (e : Expr) : e ∈ e.subterms := by
  cases e <;> exact List.mem_cons_self ..

/-- All expressions inside of an expression, and it itself, have the property `p`. -/
def Everywhere (p : Expr → Prop) (e : Expr) : Prop :=
  ∀ d ∈ e.subterms, p d

instance (p : Expr → Prop) [DecidablePred p] (e : Expr) : Decidable (e.Everywhere p) :=
  inferInstanceAs (Decidable (∀ d ∈ e.subterms, p d))

section Everywhere

variable {p : Expr → Prop}

lemma forall_listSubterms {es : List Expr} :
    (∀ d ∈ listSubterms es, p d) ↔ ∀ e ∈ es, e.Everywhere p := by
  induction es with
  | nil => simp
  | cons e es ih =>
      rw [listSubterms_cons, List.forall_mem_append, List.forall_mem_cons, ih, Everywhere]

/-- What is inside of an expression of a list is inside of the list. -/
lemma mem_listSubterms {d e : Expr} {es : List Expr} (he : e ∈ es) (hd : d ∈ e.subterms) :
    d ∈ listSubterms es :=
  forall_listSubterms.mp (fun _ h => h) e he d hd

lemma everywhere_apply {op : Operator} {args : List Expr} {marks : Marks} :
    (apply op args marks).Everywhere p ↔ p (apply op args marks) ∧ ∀ e ∈ args, e.Everywhere p := by
  rw [Everywhere, subterms_apply, List.forall_mem_cons, forall_listSubterms]

lemma everywhere_function {name : String} {args : List Expr} :
    (function name args).Everywhere p ↔ p (function name args) ∧ ∀ e ∈ args, e.Everywhere p := by
  rw [Everywhere, function, subterms_call, List.forall_mem_cons, subscriptSubterms_none,
    List.nil_append, forall_listSubterms]

lemma everywhere_parens {body : Expr} :
    (parens body).Everywhere p ↔ p (parens body) ∧ body.Everywhere p :=
  List.forall_mem_cons

lemma everywhere_subscript {name : String} {s : Expr} :
    (identifier name (some s)).Everywhere p ↔
      p (identifier name (some s)) ∧ s.Everywhere p :=
  List.forall_mem_cons

end Everywhere

/-- One of the expressions inside of an expression, or it itself, is picked by `p`. -/
def Somewhere (p : Expr → Bool) (e : Expr) : Prop :=
  ∃ d ∈ e.subterms, p d = true

section Somewhere

variable {p : Expr → Bool}

lemma not_everywhere_iff {e : Expr} :
    (¬ e.Everywhere fun d => p d = false) ↔ e.Somewhere p := by
  simp [Everywhere, Somewhere]

lemma exists_listSubterms {es : List Expr} :
    (∃ d ∈ listSubterms es, p d = true) ↔ ∃ e ∈ es, e.Somewhere p := by
  induction es with
  | nil => simp
  | cons e es ih => simp [or_and_right, exists_or, ih, Somewhere]

lemma somewhere_apply {op : Operator} {args : List Expr} {marks : Marks} :
    (apply op args marks).Somewhere p ↔
      p (apply op args marks) = true ∨ ∃ e ∈ args, e.Somewhere p := by
  simp only [Somewhere, subterms_apply, List.mem_cons, exists_eq_or_imp, exists_listSubterms]

lemma somewhere_function {name : String} {args : List Expr} :
    (function name args).Somewhere p ↔
      p (function name args) = true ∨ ∃ e ∈ args, e.Somewhere p := by
  simp only [Somewhere, function, subterms_call, subscriptSubterms_none, List.nil_append,
    List.mem_cons, exists_eq_or_imp, exists_listSubterms]

lemma somewhere_parens {body : Expr} :
    (parens body).Somewhere p ↔ p (parens body) = true ∨ body.Somewhere p := by
  simp only [Somewhere, subterms_parens, List.mem_cons, exists_eq_or_imp]

lemma somewhere_subscript {name : String} {s : Expr} :
    (identifier name (some s)).Somewhere p ↔
      p (identifier name (some s)) = true ∨ s.Somewhere p := by
  simp only [Somewhere, subterms_identifier, subscriptSubterms_some, List.mem_cons,
    exists_eq_or_imp]

end Somewhere

/-- Whether the text of a factor begins with a bar. -/
def opensWithBar : Expr → Bool
  | .apply .abs _ _ => true
  | .apply .fact (e :: _) _ => !(e.binding < .factorial) && e.opensWithBar
  | .apply .pow (b :: _) _ => !(b.binding < .factorial) && b.opensWithBar
  | _ => false

/-- Whether an expression places a factor that begins with a bar beside another one.  The bar would
be taken for one that closes an absolute value. -/
def juxtaposesBar : Expr → Bool
  | .apply .mul (_ :: later) marks => marks.juxtaposed && later.any opensWithBar
  | _ => false

/-- The operand under all signs. -/
def unsigned : Expr → Expr
  | .apply .neg [e] _ => e.unsigned
  | .apply .pos [e] _ => e.unsigned
  | e => e

/-- Whether an expression is a power whose exponent is a sign, or several, over factors side by
side. -/
def signsFactors : Expr → Bool
  | .apply .pow [_, x] _ => x.binding = .sign && x.unsigned.binding = .juxtaposition
  | _ => false

end MathExpr.Expr
