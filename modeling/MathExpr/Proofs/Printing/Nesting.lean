import Mathlib.Data.List.Basic
import MathExpr.Proofs.Printing.Parsed

/-!
# How the nodes of what is read nest

Trees are not checked, but reading builds orderly ones only.  What its notation shows is true of
every node, and an operand that holds together more loosely than its place needs is never found
there without parentheses.  The one exception is the operand of a sign, which loses its parentheses
when it is read.

* `Operator.HasOperands`, `Operator.AdmitsFirst`, `Operator.AdmitsLater` — how many operands an
  operator has, and what may be the first of them and the others.
* **`Expr.Orderly`** — what holds of a node and of what is directly under it.
* `Expr.Nests` — an expression of orderly nodes that is no subtrahend.
* `Expr.NestedFactors`, `RelationChain.Nested` — what one more factor, or side, preserves.
* **`Derives.nests`**, **`Expr.nests_of_parse`** — whatever is read is of this kind.
-/

namespace MathExpr

open MathExpr.Expr

/-! ## Orderly nodes -/

namespace Expr

/-- Whether an application is marked as subtracted. -/
def isSubtracted : Expr → Bool
  | .apply _ _ marks | .call _ _ _ marks => marks.subtracted
  | _ => false

end Expr

namespace Operator

/-- How many operands an operator is read with.  Only a root may have any number of them. -/
def HasOperands (op : Operator) (n : ℕ) : Prop :=
  match op with
  | .neg | .pos | .abs | .fact => n = 1
  | .div | .pow => n = 2
  | .nthRoot => True
  | .add | .mul | .eq | .ne | .lt | .le | .gt | .ge => 2 ≤ n

/-- What an operator is read with as its first operand.  A product that is written with signs begins
with no other such product, but maybe with a fraction. -/
def AdmitsFirst (op : Operator) (marks : Marks) (a : Expr) : Prop :=
  match op with
  | .add | .div => ¬ a.binding < .product
  | .mul => if marks.juxtaposed then ¬ a.binding < .power else ¬ a.binding < .sign ∨ a.isOp .div
  | .pow | .fact => ¬ a.binding < .factorial
  | .neg => marks.subtracted = true → ¬ a.binding < .product
  | .pos | .abs | .nthRoot | .eq | .ne | .lt | .le | .gt | .ge => True

/-- What an operator is read with as any operand but the first.  An exponent is a power under any
number of signs. -/
def AdmitsLater (op : Operator) (marks : Marks) (a : Expr) : Prop :=
  match op with
  | .add => ¬ a.binding < .product
  | .mul => if marks.juxtaposed then ¬ a.binding < .power else ¬ a.binding < .sign
  | .div => ¬ a.binding < .sign
  | .pow => ¬ a.unsigned.binding < .power
  | .eq | .ne | .lt | .le | .gt | .ge => ¬ a.binding < .sum
  | .neg | .pos | .abs | .fact | .nthRoot => True

instance (op : Operator) (n : ℕ) : Decidable (op.HasOperands n) :=
  match op with
  | .neg | .pos | .abs | .fact => inferInstanceAs (Decidable (n = 1))
  | .div | .pow => inferInstanceAs (Decidable (n = 2))
  | .nthRoot => inferInstanceAs (Decidable True)
  | .add | .mul | .eq | .ne | .lt | .le | .gt | .ge => inferInstanceAs (Decidable (2 ≤ n))

instance (op : Operator) (marks : Marks) (a : Expr) : Decidable (op.AdmitsFirst marks a) :=
  match op with
  | .add | .div => inferInstanceAs (Decidable (¬ _ < _))
  | .mul => inferInstanceAs (Decidable (if marks.juxtaposed then ¬ a.binding < .power else
      ¬ a.binding < .sign ∨ a.isOp .div))
  | .pow | .fact => inferInstanceAs (Decidable (¬ _ < _))
  | .neg => inferInstanceAs (Decidable (_ → ¬ _ < _))
  | .pos | .abs | .nthRoot | .eq | .ne | .lt | .le | .gt | .ge => inferInstanceAs (Decidable True)

instance (op : Operator) (marks : Marks) (a : Expr) : Decidable (op.AdmitsLater marks a) :=
  match op with
  | .add | .div | .pow => inferInstanceAs (Decidable (¬ _ < _))
  | .mul => inferInstanceAs (Decidable (if marks.juxtaposed then ¬ a.binding < .power else
      ¬ a.binding < .sign))
  | .eq | .ne | .lt | .le | .gt | .ge => inferInstanceAs (Decidable (¬ _ < _))
  | .neg | .pos | .abs | .fact | .nthRoot => inferInstanceAs (Decidable True)

end Operator

namespace Expr

/-- What reading makes sure of at a node and directly under it.  Only the terms of a sum behind its
first one are marked as subtracted. -/
def Orderly : Expr → Prop
  | .number numeral =>
    Token.IsNumeral numeral.toList ∧ ∃ c ∈ numeral.toList, c.isDigit = true
  | .identifier name subscript =>
    name.toList.length = 1 ∧ (∀ c ∈ name.toList, Text.isAlphabetic c = true) ∧
      ∀ s ∈ subscript, ¬ s.binding < .whole ∧ s.isSubtracted = false
  | .parens body => body.isSubtracted = false
  | .call name subscript args marks =>
    2 ≤ name.toList.length ∧ (∀ c ∈ name.toList, Text.isAlphabetic c = true) ∧ name ≠ "nthRoot" ∧
      subscript = none ∧ marks = {} ∧ ∀ a ∈ args, a.isSubtracted = false
  | .apply op args marks =>
    op.HasOperands args.length ∧
      (marks.juxtaposed = true → op = .mul) ∧ (marks.subtracted = true → op = .neg) ∧
      (∀ a ∈ args.head?, op.AdmitsFirst marks a ∧ a.isSubtracted = false) ∧
      ∀ a ∈ args.tail, op.AdmitsLater marks a ∧ (a.isSubtracted = true → op = .add)

instance : DecidablePred Orderly := fun
  | .number _ => inferInstanceAs (Decidable (_ ∧ _))
  | .identifier _ _ => inferInstanceAs (Decidable (_ ∧ _ ∧ _))
  | .parens _ => inferInstanceAs (Decidable (_ = _))
  | .call _ _ _ _ => inferInstanceAs (Decidable (_ ∧ _ ∧ _ ∧ _ ∧ _ ∧ _))
  | .apply _ _ _ => inferInstanceAs (Decidable (_ ∧ _ ∧ _ ∧ _ ∧ _))

/-- The expressions of orderly nodes that can stand anywhere as far as their marks are concerned. -/
structure Nests (e : Expr) : Prop where
  unsubtracted : e.isSubtracted = false
  everywhere : e.Everywhere Orderly

namespace Nests

variable {op : Operator} {marks : Marks} {a b e : Expr} {args : List Expr}

/-- Operands in their places. -/
lemma operation (hlen : op.HasOperands args.length)
    (hjuxtaposed : marks.juxtaposed = true → op = .mul) (hsubtracted : marks.subtracted = false)
    (hfirst : ∀ a ∈ args.head?, op.AdmitsFirst marks a)
    (hlater : ∀ a ∈ args.tail, op.AdmitsLater marks a) (hargs : ∀ a ∈ args, Nests a) :
    Nests (.apply op args marks) := by
  have hhead : ∀ a ∈ args.head?, a ∈ args := fun a ha => List.mem_of_head? ha
  refine ⟨hsubtracted, everywhere_apply.mpr ⟨⟨hlen, hjuxtaposed, fun h => ?_, ?_, ?_⟩, ?_⟩⟩
  · simp [hsubtracted] at h
  · exact fun a ha => ⟨hfirst a ha, (hargs a (hhead a ha)).unsubtracted⟩
  · intro a ha
    refine ⟨hlater a ha, fun h => ?_⟩
    simp [(hargs a (List.mem_of_mem_tail ha)).unsubtracted] at h
  · exact fun a ha => (hargs a ha).everywhere

/-- One operand in its place. -/
lemma unary (hlen : op.HasOperands 1) (ha : op.AdmitsFirst {} a) (h : Nests a) :
    Nests (.apply op [a] {}) :=
  operation hlen nofun rfl (by simpa using ha) (by simp) (List.forall_mem_singleton.mpr h)

/-- Two operands in their places. -/
lemma binary (hlen : op.HasOperands 2) (ha : op.AdmitsFirst {} a) (hb : op.AdmitsLater {} b)
    (h : Nests a) (h' : Nests b) : Nests (.apply op [a, b] {}) :=
  operation hlen nofun rfl (by simpa using ha) (List.forall_mem_singleton.mpr hb)
    (List.forall_mem_cons.mpr ⟨h, List.forall_mem_singleton.mpr h'⟩)

/-- Sides of a relation, where at most the first is a relation itself. -/
lemma relate {symbol : String} (hop : op.relationSymbol? = some symbol) (hlen : 2 ≤ args.length)
    (hlater : ∀ a ∈ args.tail, ¬ a.binding < .sum) (hargs : ∀ a ∈ args, Nests a) :
    Nests (.relate op args) := by
  have hplaces : op.HasOperands args.length ∧ (∀ a, op.AdmitsFirst {} a) ∧
      ∀ a ∈ args.tail, op.AdmitsLater {} a := by
    cases op <;> cases hop <;> exact ⟨hlen, fun _ => trivial, hlater⟩
  exact operation hplaces.1 nofun rfl (fun a _ => hplaces.2.1 a) hplaces.2.2 hargs

/-- Operands that are joined by an operator when there are two of them. -/
lemma gather {join : List Expr → Expr} (hne : args ≠ []) (hargs : ∀ a ∈ args, Nests a)
    (hjoin : 2 ≤ args.length → Nests (join args)) : Nests (.gather join args) := by
  match args, hne with
  | [a], _ => exact hargs a (by simp)
  | a :: b :: args, _ => exact hjoin (by simp)

/-- An expression in parentheses loses them under a sign. -/
lemma unparenthesized (h : Nests e) : Nests e.unparenthesized := by
  cases e with
  | parens body =>
      obtain ⟨hbody, heverywhere⟩ := everywhere_parens.mp h.everywhere
      exact ⟨hbody, heverywhere⟩
  | _ => exact h

/-- Any number of factorial signs. -/
lemma iterate_fact (h : Nests e) (he : ¬ e.binding < .factorial) : ∀ k : ℕ,
    Nests (Expr.fact^[k] e) ∧ ¬ (Expr.fact^[k] e).binding < .factorial
  | 0 => ⟨h, he⟩
  | k + 1 => by
      obtain ⟨hk, hbinding⟩ := iterate_fact h he k
      rw [Function.iterate_succ_apply']
      exact ⟨unary rfl hbinding hk, Nat.lt_irrefl 6⟩

/-- A sum of products, each behind its sign. -/
lemma sum {links : List (TermSign × Part)} (hne : links ≠ []) (h : Nests e)
    (he : ¬ e.binding < .product) (hlinks : ∀ l ∈ links, Nests l.2.expr)
    (hbindings : ∀ l ∈ links, ¬ l.2.expr.binding < .product) :
    Nests (.add (e :: links.map fun l => l.1.term l.2.expr)) := by
  have hlen : 1 ≤ links.length := List.length_pos_iff.mpr hne
  have hterm : ∀ l ∈ links, (l.1.term l.2.expr).Everywhere Orderly ∧
      ¬ (l.1.term l.2.expr).binding < .product := by
    rintro ⟨sign, part⟩ hl
    have hpart := hlinks _ hl
    cases sign with
    | plus => exact ⟨hpart.everywhere, hbindings _ hl⟩
    | minus =>
        refine ⟨everywhere_apply.mpr ⟨⟨rfl, nofun, fun _ => rfl, ?_, by simp⟩, ?_⟩, ?_⟩
        · simpa using ⟨fun _ => hbindings _ hl, hpart.unsubtracted⟩
        · exact List.forall_mem_singleton.mpr hpart.everywhere
        · exact (by decide : ¬ Binding.sign < Binding.product)
  refine ⟨rfl, everywhere_apply.mpr ⟨⟨?_, nofun, nofun, ?_, ?_⟩, ?_⟩⟩
  · simpa [Operator.HasOperands] using hlen
  · simpa using ⟨he, h.unsubtracted⟩
  · exact List.forall_mem_map.mpr fun l hl => ⟨(hterm l hl).2, fun _ => rfl⟩
  · exact List.forall_mem_cons.mpr
      ⟨h.everywhere, List.forall_mem_map.mpr fun l hl => (hterm l hl).1⟩

end Nests

/-! ## Factors and sides -/

/-- The factors of a product read so far.  All but the first come from behind a multiplication sign,
and the first one is a fraction if a division came last. -/
structure NestedFactors (factors : List Expr) : Prop where
  ne_nil : factors ≠ []
  nests : ∀ a ∈ factors, a.Nests
  first : ∀ a ∈ factors.head?, ¬ a.binding < .sign ∨ a.isOp .div = true
  later : ∀ a ∈ factors.tail, ¬ a.binding < .sign

namespace NestedFactors

variable {factors : List Expr} {e : Expr}

lemma singleton (h : e.Nests) (he : ¬ e.binding < .sign) : NestedFactors [e] :=
  ⟨by simp, List.forall_mem_singleton.mpr h, by simpa using .inl he, by simp⟩

lemma gather (h : NestedFactors factors) : (Expr.gather .mul factors).Nests :=
  .gather h.ne_nil h.nests fun hlen => .operation hlen nofun rfl h.first h.later h.nests

/-- What a numerator has to be like. -/
lemma not_binding_lt (h : NestedFactors factors) :
    ¬ (Expr.gather .mul factors).binding < .product := by
  match factors, h.ne_nil with
  | [a], _ =>
      rcases h.first a rfl with ha | ha
      · exact fun hlt => ha (Nat.lt_trans hlt (by decide))
      · rw [gather_single, binding_of_isOp_div ha]
        exact Nat.lt_irrefl 2
  | a :: b :: factors, _ => exact Nat.lt_irrefl 2

/-- One more factor leaves a fraction at most in front. -/
lemma extend (h : NestedFactors factors) (he : e.Nests) (hbinding : ¬ e.binding < .sign) :
    ∀ sign : FactorSign, NestedFactors (sign.extend factors e)
  | .times => by
      obtain ⟨a, as, rfl⟩ := List.exists_cons_of_ne_nil h.ne_nil
      refine ⟨by simp [FactorSign.extend], ?_, h.first, ?_⟩
      · exact List.forall_mem_append.mpr ⟨h.nests, List.forall_mem_singleton.mpr he⟩
      · exact List.forall_mem_append.mpr ⟨h.later, List.forall_mem_singleton.mpr hbinding⟩
  | .slash => by
      have hdiv : (Expr.div (.gather .mul factors) e).Nests :=
        .binary rfl h.not_binding_lt hbinding h.gather he
      exact ⟨by simp [FactorSign.extend], List.forall_mem_singleton.mpr hdiv,
        by simpa [FactorSign.extend] using .inr rfl, by simp [FactorSign.extend]⟩

end NestedFactors

end Expr

/-- The sides of a relation read so far.  Only the first can be a relation, with another symbol. -/
def RelationChain.Nested : RelationChain → Prop
  | .single side => side.Nests
  | .linked _ sides =>
    2 ≤ sides.length ∧ (∀ a ∈ sides.tail, ¬ a.binding < .sum) ∧ ∀ a ∈ sides, a.Nests

namespace RelationChain

variable {chain : RelationChain} {e : Expr}

lemma Nested.toExpr (h : chain.Nested) : chain.toExpr.Nests := by
  cases chain with
  | single side => exact h
  | linked symbol sides =>
      obtain ⟨symbol', hsymbol⟩ := Operator.relationSymbol?_ofRelationSymbol symbol
      exact .relate hsymbol h.1 h.2.1 h.2.2

/-- One more side stands behind all others, whether its symbol chains or not. -/
lemma Nested.extend (h : chain.Nested) (he : e.Nests) (hbinding : ¬ e.binding < .sum)
    (symbol : String) : (chain.extend symbol e).Nested := by
  have htwo : ∀ {a : Expr}, a.Nests → (linked symbol [a, e]).Nested := fun ha =>
    ⟨by simp, List.forall_mem_singleton.mpr hbinding,
      List.forall_mem_cons.mpr ⟨ha, List.forall_mem_singleton.mpr he⟩⟩
  cases chain with
  | single first => exact htwo h
  | linked previous sides =>
      by_cases hsymbol : previous = symbol
      · rw [RelationChain.extend, if_pos hsymbol]
        obtain ⟨hlen, hlater, hsides⟩ := h
        obtain ⟨a, as, rfl⟩ := List.exists_cons_of_length_pos (Nat.lt_of_succ_lt hlen)
        refine ⟨by rw [List.length_append]; omega, ?_, ?_⟩
        · exact List.forall_mem_append.mpr ⟨hlater, List.forall_mem_singleton.mpr hbinding⟩
        · exact List.forall_mem_append.mpr ⟨hsides, List.forall_mem_singleton.mpr he⟩
      · rw [RelationChain.extend, if_neg hsymbol]
        exact htwo h.toExpr

end RelationChain

/-! ## Reading -/

/-- Under the signs of an exponent there is a power. -/
lemma Expr.Parsed.unsigned_not_binding_lt {n : Category} {x : Expr} (h : Parsed n x)
    (hn : n = .exponent) : ¬ x.unsigned.binding < .power := by
  induction h with
  | @exponent e h =>
      have hbinding := h.not_binding_lt
      have hunsigned : e.unsigned = e := by
        unfold Expr.unsigned
        split
        · exact absurd (by decide : Binding.sign < Binding.power) hbinding
        · exact absurd (by decide : Binding.sign < Binding.power) hbinding
        · rfl
      rwa [hunsigned]
  | negExponent _ ih | posExponent _ ih => exact ih rfl
  | _ => cases hn

namespace Derives

variable {n : Category} {ts : List Token} {e : Expr}

/-- **What is read from the tokens of a text has orderly nodes only.** -/
theorem nests (h : Derives n ts e) (hts : ∀ t ∈ ts, t.Lexical) : e.Nests := by
  induction h with
  | number numeral =>
      have hnumeral : Token.IsNumeral numeral.toList := hts (.number numeral) (by simp)
      exact ⟨rfl, List.forall_mem_singleton.mpr ⟨hnumeral, hnumeral.exists_isDigit⟩⟩
  | letter c =>
      have hc : Token.IsWord [c] := hts (.word [c]) (by simp)
      exact ⟨rfl, List.forall_mem_singleton.mpr ⟨by simp, by simpa using hc.2, by simp⟩⟩
  | subscript c hs ih =>
      obtain ⟨hc, hts⟩ := List.forall_mem_cons.mp hts
      obtain ⟨-, hts⟩ := List.forall_mem_cons.mp hts
      have hnode := (hs.parsed hts).not_binding_lt
      refine ⟨rfl, everywhere_subscript.mpr ⟨⟨by simp, ?_, ?_⟩, (ih hts).everywhere⟩⟩
      · simpa using hc.2 c (by simp)
      · simpa using ⟨hnode, (ih hts).unsubtracted⟩
  | call c d letters args _ ih =>
      have hword : Token.IsWord (c :: d :: letters) :=
        hts (.word (c :: d :: letters)) (by simp)
      have hargs : ∀ a ∈ args.map Part.expr, a.Nests := by
        intro a ha
        obtain ⟨arg, harg, rfl⟩ := List.mem_map.mp ha
        refine ih arg harg fun t ht => hts t ?_
        have := Token.mem_separate .comma (List.mem_map_of_mem harg) ht
        simp [this]
      unfold Phrase.callOf
      split
      · exact .operation trivial nofun rfl (fun _ _ => trivial) (fun _ _ => trivial) hargs
      · next hname =>
        refine ⟨rfl, everywhere_function.mpr ⟨⟨?_, ?_, hname, rfl, rfl, ?_⟩, ?_⟩⟩
        · simp
        · simpa using hword.2
        · exact fun a ha => (hargs a ha).unsubtracted
        · exact fun a ha => (hargs a ha).everywhere
  | parens _ ih =>
      have hbody := ih fun t ht => hts t (by simp [ht])
      exact ⟨rfl, everywhere_parens.mpr ⟨hbody.unsubtracted, hbody.everywhere⟩⟩
  | bars _ ih => exact .unary rfl trivial (ih fun t ht => hts t (by simp [ht]))
  | factorial k h ih =>
      have hoperand := (List.forall_mem_append.mp hts).1
      have hbinding := (h.toFactorial.parsed hoperand).not_binding_lt
      exact ((ih hoperand).iterate_fact hbinding k).1
  | base _ ih | exponent _ ih | unsigned _ ih => exact ih hts
  | power hb hx ihb ihx =>
      obtain ⟨htb, htx⟩ := List.forall_mem_append.mp hts
      obtain ⟨-, htx⟩ := List.forall_mem_cons.mp htx
      exact .binary rfl (hb.parsed htb).not_binding_lt
        ((hx.parsed htx).unsigned_not_binding_lt rfl) (ihb htb) (ihx htx)
  | negExponent _ ih => exact .unary rfl nofun (ih (List.forall_mem_cons.mp hts).2)
  | posExponent _ ih => exact .unary rfl trivial (ih (List.forall_mem_cons.mp hts).2)
  | juxtaposition others h hothers _ ih ihs =>
      obtain ⟨hfirst, htokens⟩ := List.forall_mem_append.mp hts
      have hlexical : ∀ p ∈ others, ∀ t ∈ p.tokens, t.Lexical := fun p hp t ht =>
        htokens t (List.mem_flatMap.mpr ⟨p, hp, ht⟩)
      have hnests := List.forall_mem_cons.mpr
        ⟨ih hfirst, List.forall_mem_map.mpr fun p hp => ihs p hp (hlexical p hp)⟩
      refine .gather (by simp) hnests fun hlen => ?_
      refine .operation hlen (fun _ => rfl) rfl ?_ ?_ hnests
      · rintro _ ⟨⟩
        exact (h.parsed hfirst).not_binding_lt
      · exact List.forall_mem_map.mpr fun p hp =>
          ((hothers p hp).parsed (hlexical p hp)).not_binding_lt
  | neg _ ih => exact .unary rfl nofun (ih (List.forall_mem_cons.mp hts).2).unparenthesized
  | pos _ ih => exact .unary rfl trivial (ih (List.forall_mem_cons.mp hts).2).unparenthesized
  | product links h hlinks ih ihs =>
      obtain ⟨hfirst, hothers⟩ := List.forall_mem_append.mp hts
      -- one more factor at a time
      refine NestedFactors.gather (List.foldlRecOn links _ ?_ fun factors hfactors l hl => ?_)
      · exact .singleton (ih hfirst) (h.parsed hfirst).not_binding_lt
      · have hlexical : ∀ t ∈ l.2.tokens, t.Lexical := fun t ht => hothers t (mem_linked hl ht)
        exact hfactors.extend (ihs l hl hlexical) ((hlinks l hl).parsed hlexical).not_binding_lt l.1
  | sum links h hlinks ih ihs =>
      obtain ⟨hfirst, hothers⟩ := List.forall_mem_append.mp hts
      have hlexical : ∀ l ∈ links, ∀ t ∈ l.2.tokens, t.Lexical := fun l hl t ht =>
        hothers t (mem_linked hl ht)
      cases links with
      | nil => exact ih hfirst
      | cons l links =>
          exact .sum (by simp) (ih hfirst) (h.parsed hfirst).not_binding_lt
            (fun l hl => ihs l hl (hlexical l hl))
            fun l hl => ((hlinks l hl).parsed (hlexical l hl)).not_binding_lt
  | relation links h hlinks ih ihs =>
      obtain ⟨hfirst, hothers⟩ := List.forall_mem_append.mp hts
      -- one more side at a time
      refine RelationChain.Nested.toExpr (List.foldlRecOn links _ ?_ fun chain hchain l hl => ?_)
      · exact ih hfirst
      · have hlexical : ∀ t ∈ l.2.tokens, t.Lexical := fun t ht => hothers t (mem_linked hl ht)
        exact hchain.extend (ihs l hl hlexical) ((hlinks l hl).parsed hlexical).not_binding_lt l.1

end Derives

namespace Expr

variable {text : String} {e : Expr}

/-- **Every node of what is read is orderly**, and the expression as a whole is no subtrahend. -/
theorem nests_of_parse (h : parse text = .ok e) :
    e.isSubtracted = false ∧ e.Everywhere Orderly := by
  obtain ⟨ts, hts, hderives⟩ := derives_of_parse h
  have hnests := hderives.nests (Token.lexical_of_spellOut (Token.lexical_of_ofChars _ hts))
  exact ⟨hnests.unsubtracted, hnests.everywhere⟩

/-- A fraction begins a product, a difference loses its parentheses under a sign. -/
theorem nests_of_fractionTimesDifference :
    parse "a / 2 * b - -(c - d)" = .ok
      (sub (mul [div (var "a") (number "2"), var "b"]) (neg (sub (var "c") (var "d")))) ∧
    (sub (mul [div (var "a") (number "2"), var "b"])
      (neg (sub (var "c") (var "d")))).isSubtracted = false ∧
    (sub (mul [div (var "a") (number "2"), var "b"])
      (neg (sub (var "c") (var "d")))).Everywhere Orderly := by
  have h : parse "a / 2 * b - -(c - d)" = .ok
      (sub (mul [div (var "a") (number "2"), var "b"]) (neg (sub (var "c") (var "d")))) := by
    decide +kernel
  exact ⟨h, nests_of_parse h⟩

/-- Without parentheses around its base, the power of a negation is never read. -/
example : ¬ (pow (neg (var "x")) (number "2")).Orderly ∧
    (pow (parens (neg (var "x"))) (number "2")).Orderly := by
  decide

end Expr

end MathExpr
