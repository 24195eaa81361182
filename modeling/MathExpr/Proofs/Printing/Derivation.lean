import MathExpr.Proofs.Grammar.Completeness
import MathExpr.Proofs.Printing.Rereading

/-!
# Derivations of printed text

The tokens of a printed expression are a phrase, and they stand for the expression as it is read
again, if no bar is in the way.  How loose the phrase is depends on the expression's binding; only
powers may be read as several factors, of which the exponent of the first has kept the first alone.

* `Row` — factors side by side, the first of which may be of another category.
* `Binding.category` — the category of the phrases that expressions of a binding are printed as.
* `Expr.Rereads` — all that is known of the tokens of an expression, at any place.
* `Expr.WellFormed.startsOperand_tokens` — a factor begins like an operand, or with a bar.
* **`Expr.WellFormed.rereads`** — the tokens of printed text without such bars are a phrase.
* `Expr.WellFormed.parse_print_iff`, **`Expr.WellFormed.parse_print`** — so this text is read, and
  as what `Expr.reread` says.
-/

namespace MathExpr

open MathExpr.Expr Phrase

/-- A relation's own symbol stands for it. -/
lemma Operator.ofRelationSymbol_relationSymbol? {op : Operator} {symbol : String}
    (h : op.relationSymbol? = some symbol) : ofRelationSymbol symbol = op := by
  cases op <;> simp [relationSymbol?] at h <;> subst h <;> decide

/-! ## Rows of factors -/

/-- Factors side by side, the first of which is of the category `n`. -/
inductive Row (n : Category) : List Token → List Expr → Prop
  | mk {ts : List Token} {e : Expr} (others : List Part) : Derives n ts e →
      (∀ p ∈ others, Derives .power p.tokens p.expr) →
      (∀ p ∈ others, startsOperand p.tokens = true) →
      Row n (ts ++ others.flatMap Part.tokens) (e :: others.map Part.expr)

namespace Row

variable {m n : Category} {us vs : List Token} {fs gs : List Expr} {e : Expr}

lemma single (h : Derives n us e) : Row n us [e] := by
  simpa using mk [] h (by simp) (by simp)

lemma append (h : Row n us fs) (h' : Row .power vs gs) (hstart : startsOperand vs = true) :
    Row n (us ++ vs) (fs ++ gs) := by
  obtain ⟨others, hfirst, hothers, hstarts⟩ := h
  obtain @⟨ts, e, others', hfirst', hothers', hstarts'⟩ := h'
  rw [Token.startsOperand_append hfirst'.ne_nil] at hstart
  have := mk (others ++ ⟨ts, e⟩ :: others') hfirst
    (List.forall_mem_append.mpr ⟨hothers, List.forall_mem_cons.mpr ⟨hfirst', hothers'⟩⟩)
    (List.forall_mem_append.mpr ⟨hstarts, List.forall_mem_cons.mpr ⟨hstart, hstarts'⟩⟩)
  simpa using this

/-- Changing the first factor leaves the others where they are. -/
lemma onFirst {f : Expr → Expr} (pre : List Token)
    (hf : ∀ {ts e}, Derives n ts e → Derives m (pre ++ ts) (f e)) (h : Row n us fs) :
    Row m (pre ++ us) (onFirst f fs) := by
  obtain ⟨others, hfirst, hothers, hstarts⟩ := h
  rw [← List.append_assoc]
  exact mk others (hf hfirst) hothers hstarts

lemma exponent (h : Row .power us fs) : Row .exponent us fs := by
  obtain ⟨others, hfirst, hothers, hstarts⟩ := h
  exact mk others (.exponent hfirst) hothers hstarts

lemma derives (h : Row .power us fs) : Derives .juxtaposition us (joined fs) := by
  obtain ⟨others, hfirst, hothers, hstarts⟩ := h
  exact .juxtaposition others hfirst hothers hstarts

end Row

/-! ## Places -/

namespace Binding

/-- The category of the phrases that expressions of a binding are printed as.  A power may turn out
to be several factors. -/
def category : Binding → Category
  | .relation => .relation
  | .sum => .sum
  | .product => .product
  | .sign => .signed
  | .juxtaposition | .power => .juxtaposition
  | .factorial => .factorial
  | .whole => .operand

lemma category_ne_exponent (b : Binding) : b.category ≠ .exponent := by
  cases b <;> simp [category]

lemma rank_category {b least : Binding} (h : ¬ b < least) :
    b.category.rank ≤ least.category.rank := by
  cases b <;> cases least <;> first | decide | exact absurd (by decide) h

end Binding

namespace Expr

/-- What the tokens of an expression are read as, depending on its place. -/
structure Rereads (e : Expr) : Prop where
  derives : Derives e.binding.category e.tokens e.reread
  row : ¬ e.binding < .juxtaposition → Row .power e.tokens (e.factors false)
  exponent : ¬ e.binding < .sign → Row .exponent e.tokens (e.factors true)

namespace Rereads

variable {e e' operand : Expr}

/-- An operand, perhaps with factorial signs, is the same anywhere. -/
lemma of_tight (b : Binding) (hb : e.binding = b) (htight : ¬ b < .factorial)
    (hfactors : ∀ inExponent, e.factors inExponent = [e'])
    (h : Derives b.category e.tokens e') : Rereads e where
  derives := by rwa [hb, reread, hfactors, joined, gather_single]
  row _ := by
    rw [hfactors]
    exact .single (h.loosen b.category_ne_exponent
      (Nat.le_trans (Binding.rank_category htight) (by decide)))
  exponent _ := by
    rw [hfactors]
    exact .single (.exponent (h.loosen b.category_ne_exponent
      (Nat.le_trans (Binding.rank_category htight) (by decide))))

/-- What is looser than a sign cannot be a factor without parentheses. -/
lemma of_loose (b : Binding) (hb : e.binding = b) (hloose : b < .sign)
    (hfactors : e.factors false = [e']) (h : Derives b.category e.tokens e') : Rereads e where
  derives := by rwa [hb, reread, hfactors, joined, gather_single]
  row hnot := absurd (hb ▸ Nat.lt_trans hloose (show Binding.rank .sign < _ by decide)) hnot
  exponent hnot := absurd (hb ▸ hloose) hnot

/-- Factors side by side, or a power that may turn out to be such. -/
lemma of_row (hbinding : e.binding.category = .juxtaposition)
    (hfactors : e.factors true = e.factors false) (h : Row .power e.tokens (e.factors false)) :
    Rereads e where
  derives := by
    rw [hbinding]
    exact h.derives
  row _ := h
  exponent _ := by
    rw [hfactors]
    exact h.exponent

lemma parens (h : Rereads e) :
    Derives .operand (.leftParen :: e.tokens ++ [.rightParen]) (.parens e.reread) :=
  .parens (h.derives.loosen e.binding.category_ne_exponent (by cases e.binding <;> decide))

/-- At any place an expression is a phrase that is tight enough. -/
lemma derivesIn (h : Rereads e) (least : Binding) :
    Derives least.category (tokensIn least e) (rereadIn least e) := by
  unfold tokensIn enclose rereadIn factorsIn placed
  split
  · exact h.parens.loosen (by decide) (Nat.zero_le _)
  · next hnot =>
    exact h.derives.loosen e.binding.category_ne_exponent (Binding.rank_category hnot)

lemma rowIn (h : Rereads e) : Row .power (tokensIn .power e) (factorsIn .power e) := by
  unfold tokensIn enclose factorsIn placed
  split
  · exact .single (.base h.parens.toFactorial)
  · next hnot =>
    exact h.row fun hlt => hnot (Nat.lt_trans hlt (show Binding.rank .juxtaposition < _ by decide))

lemma exponentIn (h : Rereads e) {least : Binding} (hleast : ¬ least < .sign) :
    Row .exponent (tokensIn least e) (factorsInExponent least e) := by
  unfold tokensIn enclose factorsInExponent placed
  split
  · exact .single (.exponent (.base h.parens.toFactorial))
  · next hnot =>
    refine h.exponent fun hlt => hnot (Nat.lt_of_lt_of_le hlt ?_)
    exact Nat.not_lt.mp hleast

/-- A sign stands over a signed product, or over the first of the factors in an exponent. -/
lemma of_sign {t : Token} {f : Expr → Expr} (hb : e.binding = .sign)
    (htokens : e.tokens = t :: tokensIn .sign operand)
    (hfactors : e.factors false = [f (rereadIn .sign operand).unparenthesized])
    (hexponent : e.factors true = Expr.onFirst f (factorsInExponent .sign operand))
    (hsigned : ∀ {ts a}, Derives .signed ts a → Derives .signed (t :: ts) (f a.unparenthesized))
    (hexponent' : ∀ {ts a}, Derives .exponent ts a → Derives .exponent (t :: ts) (f a))
    (h : Rereads operand) : Rereads e where
  derives := by
    rw [hb, htokens, reread, hfactors, joined, gather_single]
    exact hsigned (h.derivesIn .sign)
  row hnot := by
    rw [hb] at hnot
    exact absurd (by decide) hnot
  exponent _ := by
    rw [htokens, hexponent]
    exact (h.exponentIn (by decide)).onFirst [t] hexponent'

end Rereads

/-! ## Where factors begin -/

lemma binding_relate {op : Operator} {symbol : String} (hop : op.relationSymbol? = some symbol)
    (args : List Expr) : (relate op args).binding = .relation := by
  cases op <;> cases hop <;> rfl

namespace WellFormed

variable {e : Expr}

/-- The base of a power, or the operand of a factorial, is where these begin. -/
lemma startsOperand_first {least : Binding} (h : WellFormed e) (hleast : ¬ least < .power)
    (hbar : (!(e.binding < least) && e.opensWithBar) = false)
    (ih : ¬ e.binding < .power → e.opensWithBar = false → startsOperand e.tokens = true)
    (us : List Token) : startsOperand (tokensIn least e ++ us) = true := by
  rw [Token.startsOperand_append (tokensIn_ne_nil h.tokens_ne_nil least)]
  unfold tokensIn enclose
  split
  · rfl
  · next hnot =>
    refine ih (fun hlt => hnot (Nat.lt_of_lt_of_le hlt (Nat.not_lt.mp hleast))) ?_
    simpa [hnot] using hbar

/-- A factor that does not begin with a bar can be read behind another one. -/
lemma startsOperand_tokens (h : WellFormed e) (hbinding : ¬ e.binding < .power)
    (hbar : e.opensWithBar = false) : startsOperand e.tokens = true := by
  induction h with
  | number | letter | subscript | parens | call | root => rfl
  | sum => exact absurd (show Binding.sum < .power by decide) hbinding
  | product | quotient => exact absurd (show Binding.product < .power by decide) hbinding
  | juxtaposition => exact absurd (show Binding.juxtaposition < .power by decide) hbinding
  | neg | pos => exact absurd (show Binding.sign < .power by decide) hbinding
  | relation hop =>
      rw [binding_relate hop] at hbinding
      exact absurd (by decide) hbinding
  | abs => cases hbar
  | power hb _ ih _ =>
      rw [tokens_pow]
      exact hb.startsOperand_first (by decide) hbar ih _
  | fact he ih =>
      rw [tokens_fact, List.append_assoc]
      exact he.startsOperand_first (by decide) hbar ih _

end WellFormed

/-! ## Printed text is read -/

lemma derives_call (name : String) {c d : Char} {letters : List Char} {args : List Expr}
    (hname : name.toList = c :: d :: letters) (hargs : ∀ a ∈ args, a.Rereads) :
    Derives .operand
      (.word name.toList :: .leftParen ::
        Token.separate .comma (args.map (tokensIn .relation)) ++ [.rightParen])
      (callOf name (args.map (rereadIn .relation))) := by
  have hparts : ∀ p ∈ args.map fun a => Part.mk (tokensIn .relation a) (rereadIn .relation a),
      Derives .relation p.tokens p.expr := by
    rw [List.forall_mem_map]
    intro a ha
    exact (hargs a ha).derivesIn .relation
  have := Derives.call c d letters _ hparts
  rwa [List.map_map, List.map_map, ← hname, String.ofList_toList] at this

lemma derives_sum {first : Expr} {links : List (TermSign × Expr)} (hne : links ≠ [])
    (hfirst : Derives .product (tokensIn .product first) (rereadIn .product first))
    (hlinks : ∀ l ∈ links, Derives .product (tokensIn .product l.2) (rereadIn .product l.2)) :
    Derives .sum
      (tokensIn .product first ++ links.flatMap fun l => l.1.token :: tokensIn .product l.2)
      (add (rereadIn .product first :: links.map fun l => l.1.term (rereadIn .product l.2))) := by
  have hparts : ∀ p ∈ links.map fun l =>
      (l.1, Part.mk (tokensIn .product l.2) (rereadIn .product l.2)),
      Derives .product p.2.tokens p.2.expr := by
    rwa [List.forall_mem_map]
  have := Derives.sum _ hfirst hparts
  rw [linked, List.flatMap_map, List.map_map, gather_of_two_le] at this
  · exact this
  · have hpos := List.length_pos_iff.mpr hne
    simp only [List.length_cons, List.length_map]
    omega

lemma derives_product {args : List Expr} (hlen : 2 ≤ args.length)
    (hargs : ∀ a ∈ args, Derives .signed (tokensIn .sign a) (rereadIn .sign a)) :
    Derives .product (Token.separate .times (args.map (tokensIn .sign)))
      (mul (args.map (rereadIn .sign))) := by
  match args, hlen with
  | a :: b :: args, _ =>
      obtain ⟨ha, hargs⟩ := List.forall_mem_cons.mp hargs
      have hparts : ∀ p ∈ (b :: args).map fun a =>
          (FactorSign.times, Part.mk (tokensIn .sign a) (rereadIn .sign a)),
          Derives .signed p.2.tokens p.2.expr := by
        rwa [List.forall_mem_map]
      have := Derives.product _ ha hparts
      -- without divisions the factors only get more
      rw [linked, List.flatMap_map, List.foldl_map] at this
      simp only [FactorSign.extend, List.foldl_append_eq_append, ← List.flatMap_def,
        ← List.map_eq_flatMap] at this
      simpa [Token.separate, List.flatMap_map, FactorSign.token, gather] using this

/-- Sides under one symbol all belong to one relation. -/
lemma foldl_extend_linked {α : Type} (symbol : String) (side : α → Expr) :
    ∀ (as : List α) (sides : List Expr),
      as.foldl (fun chain a => RelationChain.extend chain symbol (side a)) (.linked symbol sides) =
        .linked symbol (sides ++ as.map side)
  | [], sides => by simp
  | a :: as, sides => by
      rw [List.foldl_cons, RelationChain.extend, if_pos rfl, foldl_extend_linked symbol side as]
      simp

lemma derives_relation {op : Operator} {symbol : String} {args : List Expr}
    (hop : op.relationSymbol? = some symbol) (hlen : 2 ≤ args.length)
    (hargs : ∀ a ∈ args, Derives .sum (tokensIn .sum a) (rereadIn .sum a)) :
    Derives .relation (Token.separate (.relation symbol) (args.map (tokensIn .sum)))
      (relate op (args.map (rereadIn .sum))) := by
  match args, hlen with
  | a :: b :: args, _ =>
      obtain ⟨ha, hargs⟩ := List.forall_mem_cons.mp hargs
      have hparts : ∀ p ∈ (b :: args).map fun a =>
          (symbol, Part.mk (tokensIn .sum a) (rereadIn .sum a)),
          Derives .sum p.2.tokens p.2.expr := by
        rwa [List.forall_mem_map]
      have := Derives.relation _ ha hparts
      rw [linked, List.flatMap_map, List.foldl_map, List.foldl_cons, RelationChain.extend,
        foldl_extend_linked symbol (rereadIn .sum), RelationChain.toExpr, RelationChain.relation,
        Operator.ofRelationSymbol_relationSymbol? hop] at this
      simpa [Token.separate, List.flatMap_map] using this

/-- Factors side by side are read one by one, since none but the first begins with a bar. -/
lemma derives_juxtaposition : ∀ {args : List Expr} {e : Expr}, (∀ a ∈ args, a.WellFormed) →
    (∀ a ∈ e :: args, a.Rereads) → args.any opensWithBar = false →
    Row .power ((e :: args).flatMap (tokensIn .power)) ((e :: args).flatMap (factorsIn .power))
  | [], e, _, hreads, _ => by simpa using (hreads e (by simp)).rowIn
  | a :: args, e, hargs, hreads, hbars => by
      obtain ⟨ha, hargs⟩ := List.forall_mem_cons.mp hargs
      obtain ⟨he, hreads⟩ := List.forall_mem_cons.mp hreads
      rw [List.any_cons, Bool.or_eq_false_iff] at hbars
      have hothers := derives_juxtaposition hargs hreads hbars.2
      rw [List.flatMap_cons, List.flatMap_cons]
      refine he.rowIn.append hothers ?_
      exact ha.startsOperand_first (by decide) (by simp [hbars.1])
        (fun hbinding hbar => ha.startsOperand_tokens hbinding hbar) _

/-- Under its sign a term has everything that the term has. -/
lemma everywhere_term {p : Expr → Prop} {l : TermSign × Expr}
    (h : (l.1.term l.2).Everywhere p) : l.2.Everywhere p := by
  obtain ⟨sign, e⟩ := l
  cases sign with
  | plus => exact h
  | minus => exact (everywhere_apply.mp h).2 e (by simp)

namespace WellFormed

variable {e : Expr}

/-- **The tokens of printed text are a phrase**, unless a bar is behind a factor. -/
theorem rereads (h : WellFormed e) (hbars : e.Everywhere fun d => d.juxtaposesBar = false) :
    Rereads e := by
  induction h with
  | @number numeral h =>
      exact .of_tight .whole rfl (by decide) (fun _ => rfl) (.number numeral)
  | @letter c hc =>
      refine .of_tight .whole rfl (by decide) (fun i => factors_var i _) ?_
      rw [tokens_var, String.toList_singleton]
      exact .letter c
  | @subscript c s hc _ ih =>
      have hs := ih (everywhere_subscript.mp hbars).2
      refine .of_tight .whole rfl (by decide) (fun i => factors_subscript i _ s) ?_
      rw [tokens_subscript, String.toList_singleton]
      exact .subscript c (hs.derivesIn .whole)
  | parens _ ih =>
      have hbody := ih (everywhere_parens.mp hbars).2
      exact .of_tight .whole rfl (by decide) (fun i => factors_parens i _) hbody.parens
  | @call c d letters args _ hname _ ih =>
      have hargs := fun a ha => ih a ha ((everywhere_function.mp hbars).2 a ha)
      refine .of_tight .whole rfl (by decide) (fun i => factors_function i _ args) ?_
      have hcall := derives_call (String.ofList (c :: d :: letters)) String.toList_ofList hargs
      rw [callOf, if_neg hname] at hcall
      rwa [tokens_function]
  | @root args _ ih =>
      have hargs := fun a ha => ih a ha ((everywhere_apply.mp hbars).2 a ha)
      refine .of_tight .whole rfl (by decide) (fun i => factors_root i args) ?_
      rw [tokens_root]
      exact derives_call "nthRoot" rfl hargs
  | @sum first links hne _ hlinks ih ihs =>
      obtain ⟨hfirst, hterms⟩ := List.forall_mem_cons.mp (everywhere_apply.mp hbars).2
      have hreads : ∀ l ∈ links, Rereads l.2 := fun l hl =>
        ihs l hl (everywhere_term (hterms _ (List.mem_map_of_mem hl)))
      refine .of_loose .sum rfl (by decide) (factors_add false first _) ?_
      rw [tokens_add, termsTokens_links hlinks, rereadTerms_links hlinks]
      exact derives_sum hne ((ih hfirst).derivesIn .product)
        fun l hl => (hreads l hl).derivesIn .product
  | @product args hlen _ ih =>
      have hargs := fun a ha => (ih a ha ((everywhere_apply.mp hbars).2 a ha)).derivesIn .sign
      refine .of_loose .product rfl (by decide) (factors_mul false args) ?_
      rw [tokens_mul]
      exact derives_product hlen hargs
  | @juxtaposition args hlen hargs ih =>
      obtain ⟨hbar, hinner⟩ := everywhere_apply.mp hbars
      match args, hlen with
      | a :: args, _ =>
          have hrow := derives_juxtaposition (List.forall_mem_cons.mp hargs).2
            (fun b hb => ih b hb (hinner b hb)) hbar
          refine .of_row rfl (by rw [factors_juxtapose, factors_juxtapose]) ?_
          rwa [tokens_juxtapose, factors_juxtapose]
  | @quotient a b _ _ iha ihb =>
      obtain ⟨ha, hb⟩ := List.forall_mem_cons.mp (everywhere_apply.mp hbars).2
      refine .of_loose .product rfl (by decide) (factors_div false a b) ?_
      rw [tokens_div]
      exact ((iha ha).derivesIn .product).divide ((ihb (hb b (by simp))).derivesIn .sign)
  | @power b x _ _ ihb ihx =>
      obtain ⟨hb, hx⟩ := List.forall_mem_cons.mp (everywhere_apply.mp hbars).2
      have hbase := (ihb hb).derivesIn .factorial
      have hleast : ¬ x.leastAsExponent < .sign := by
        unfold leastAsExponent
        split <;> decide
      -- the power keeps the first factor of its exponent, and the others follow it
      refine .of_row rfl rfl ?_
      rw [tokens_pow, factors_pow]
      have := ((ihx (hx x (by simp))).exponentIn hleast).onFirst (m := .power)
        (tokensIn .factorial b ++ [.caret]) (f := pow (rereadIn .factorial b))
        fun h => by simpa using Derives.power hbase h
      simpa using this
  | @neg e _ ih =>
      have he := ih ((everywhere_apply.mp hbars).2 e (by simp))
      refine .of_sign rfl ?_ (factors_neg e) (factors_neg_exponent e) .neg .negExponent he
      rw [tokens_neg, List.append_nil]
  | @pos e _ ih =>
      have he := ih ((everywhere_apply.mp hbars).2 e (by simp))
      refine .of_sign rfl ?_ (factors_pos e) (factors_pos_exponent e) .pos .posExponent he
      rw [tokens_pos, List.append_nil]
  | @abs e _ ih =>
      have he := ih ((everywhere_apply.mp hbars).2 e (by simp))
      refine .of_tight .whole rfl (by decide) (fun i => factors_abs i e) ?_
      rw [tokens_abs, List.append_nil]
      exact .bars (he.derivesIn .relation)
  | @fact e _ ih =>
      have he := ih ((everywhere_apply.mp hbars).2 e (by simp))
      refine .of_tight .factorial rfl (by decide) (fun i => factors_fact i e) ?_
      rw [tokens_fact, List.append_nil]
      exact (he.derivesIn .factorial).fact
  | @relation op symbol args hop hlen _ ih =>
      have hargs := fun a ha => (ih a ha ((everywhere_apply.mp hbars).2 a ha)).derivesIn .sum
      refine .of_loose .relation (binding_relate hop args) (by decide)
        (factors_relate false hop args) ?_
      rw [tokens_relate hop]
      exact derives_relation hop hlen hargs

/-- Reading printed text is reading the tokens of its expression. -/
lemma parse_print_iff (h : WellFormed e) {u : Expr} :
    parse (e.print {}) = .ok u ↔ Derives .relation (Token.spellOut e.tokens) u := by
  have htext : Token.ofText (e.print {}) = .ok e.tokens := by
    rw [Token.ofText, print, String.toList_ofList, h.scans.ofChars_eq]
  rw [parse, htext, ← Reader.readExpr_eq_ok_iff]
  rfl

/-- The tokens of an expression are a relation at most. -/
lemma derives_tokens (h : WellFormed e) (hbars : e.Everywhere fun d => d.juxtaposesBar = false) :
    Derives .relation e.tokens e.reread :=
  (h.rereads hbars).derives.loosen e.binding.category_ne_exponent (by cases e.binding <;> decide)

/-- **Printed text is read as `Expr.reread` says**, unless a bar is behind a factor. -/
theorem parse_print (h : WellFormed e) (hbars : e.Everywhere fun d => d.juxtaposesBar = false) :
    parse (e.print {}) = .ok e.reread := by
  have hderives := h.derives_tokens hbars
  have htokens : Token.spellOut e.tokens = e.tokens := by simpa using hderives.settled []
  rwa [h.parse_print_iff, htokens]

end WellFormed

end Expr

end MathExpr
