import Mathlib.Tactic.SplitIfs
import MathExpr.Expr.Shape
import MathExpr.Proofs.Printing.Derivation

/-!
# The expressions that are read from text

Reading builds only some of the well-formed expressions: an operand that is looser than its place
is always in parentheses, and no factor behind another one begins with a bar.  Which ones it builds
is said here without any tokens, category by category.

* `Expr.Parsed` — the expressions that phrases of a category stand for.
* **`Derives.parsed`** — what is read from the tokens of a text is among them.
* `Expr.Parsed.not_binding_lt` — how tight they are.
* **`Expr.Parsed.wellFormed`**, **`Expr.Parsed.everywhere_bars`** — they have a notation, and it can
  be read.
-/

namespace MathExpr

/-- The binding that the expressions of a category have at least. -/
def Category.least : Category → Binding
  | .operand => .whole
  | .factorial => .factorial
  | .power => .power
  | .juxtaposition => .juxtaposition
  | .exponent | .signed => .sign
  | .product => .product
  | .sum => .sum
  | .relation => .relation

namespace Expr

/-- A fraction holds together like a product that is written with signs. -/
lemma binding_of_isOp_div {e : Expr} (h : e.isOp .div = true) : e.binding = .product := by
  cases e with
  | apply op args marks =>
      cases of_decide_eq_true h
      rfl
  | _ => cases h

/-- The expressions that phrases of a category stand for.  A sign drops the parentheses around its
operand, so anything can be under it. -/
inductive Parsed : Category → Expr → Prop
  | number {numeral : String} : Token.IsNumeral numeral.toList → Parsed .operand (.number numeral)
  | letter {c : Char} : Text.isAlphabetic c = true → Parsed .operand (.var (String.singleton c))
  | subscript {c : Char} {s : Expr} : Text.isAlphabetic c = true → Parsed .operand s →
      Parsed .operand (.identifier (String.singleton c) (some s))
  | call {c d : Char} {letters : List Char} {args : List Expr} :
      Token.IsWord (c :: d :: letters) → String.ofList (c :: d :: letters) ≠ "nthRoot" →
      (∀ e ∈ args, Parsed .relation e) →
      Parsed .operand (.function (String.ofList (c :: d :: letters)) args)
  | root {args : List Expr} : (∀ e ∈ args, Parsed .relation e) →
      Parsed .operand (.apply .nthRoot args {})
  | parens {e : Expr} : Parsed .relation e → Parsed .operand (.parens e)
  | bars {e : Expr} : Parsed .relation e → Parsed .operand (.abs e)
  | operand {e : Expr} : Parsed .operand e → Parsed .factorial e
  | factorial {e : Expr} : Parsed .factorial e → Parsed .factorial (.fact e)
  | base {e : Expr} : Parsed .factorial e → Parsed .power e
  | power {b x : Expr} : Parsed .factorial b → Parsed .exponent x → Parsed .power (.pow b x)
  | exponent {e : Expr} : Parsed .power e → Parsed .exponent e
  | negExponent {e : Expr} : Parsed .exponent e → Parsed .exponent (.neg e)
  | posExponent {e : Expr} : Parsed .exponent e → Parsed .exponent (.pos e)
  | factor {e : Expr} : Parsed .power e → Parsed .juxtaposition e
  | juxtaposition {e : Expr} {others : List Expr} : others ≠ [] → Parsed .power e →
      (∀ a ∈ others, Parsed .power a) → others.any opensWithBar = false →
      Parsed .juxtaposition (.juxtapose (e :: others))
  | unsigned {e : Expr} : Parsed .juxtaposition e → Parsed .signed e
  | neg {e : Expr} : Parsed .relation e → Parsed .signed (.neg e)
  | pos {e : Expr} : Parsed .relation e → Parsed .signed (.pos e)
  | signed {e : Expr} : Parsed .signed e → Parsed .product e
  | product {args : List Expr} : 2 ≤ args.length → (∀ a ∈ args, Parsed .product a) →
      (∀ a ∈ args, a.binding < .sign → a.isOp .div = true) → Parsed .product (.mul args)
  | quotient {a b : Expr} : Parsed .product a → Parsed .signed b → Parsed .product (.div a b)
  | term {e : Expr} : Parsed .product e → Parsed .sum e
  | sum {first : Expr} {links : List (TermSign × Expr)} : links ≠ [] → Parsed .product first →
      (∀ l ∈ links, Parsed .product l.2) →
      Parsed .sum (.add (first :: links.map fun l => l.1.term l.2))
  | side {e : Expr} : Parsed .sum e → Parsed .relation e
  | relation {op : Operator} {symbol : String} {args : List Expr} :
      op.relationSymbol? = some symbol → 2 ≤ args.length → (∀ a ∈ args, Parsed .relation a) →
      Parsed .relation (.relate op args)

namespace Parsed

variable {n : Category} {e : Expr}

/-- Expressions of a category hold together as tightly as its phrases. -/
lemma not_binding_lt (h : Parsed n e) : ¬ e.binding < n.least := by
  have mono {a b c : Binding} (hab : ¬ a < b) (hbc : c.rank ≤ b.rank) : ¬ a < c := fun hac =>
    hab (Nat.lt_of_lt_of_le hac hbc)
  induction h with
  | number | letter | subscript | call | root | parens | bars => exact Nat.lt_irrefl 7
  | factorial => exact Nat.lt_irrefl 6
  | power => exact Nat.lt_irrefl 5
  | juxtaposition => exact Nat.lt_irrefl 4
  | negExponent | posExponent | neg | pos => exact Nat.lt_irrefl 3
  | product | quotient => exact Nat.lt_irrefl 2
  | sum => exact Nat.lt_irrefl 1
  | relation => exact Nat.not_lt_zero _
  | operand _ ih | base _ ih | exponent _ ih | factor _ ih | unsigned _ ih | signed _ ih
  | term _ ih | side _ ih => exact mono ih (by decide)

/-- The phrase of a category is one of every looser category, exponents left out. -/
lemma toRelation (h : Parsed n e) (hn : n ≠ .exponent) : Parsed .relation e := by
  have hsigned : ∀ {e}, Parsed .signed e → Parsed .relation e := fun h => .side (.term (.signed h))
  have hpower : ∀ {e}, Parsed .power e → Parsed .relation e := fun h =>
    hsigned (.unsigned (.factor h))
  cases n with
  | operand => exact hpower (.base (.operand h))
  | factorial => exact hpower (.base h)
  | power => exact hpower h
  | exponent => exact absurd rfl hn
  | juxtaposition => exact hsigned (.unsigned h)
  | signed => exact hsigned h
  | product => exact .side (.term h)
  | sum => exact .side h
  | relation => exact h

/-- What is in parentheses is any expression that is read. -/
lemma body (h : Parsed n e) : ∀ b, e = .parens b → Parsed .relation b := by
  induction h with
  | parens h => rintro _ ⟨⟩; exact h
  | operand _ ih | base _ ih | exponent _ ih | factor _ ih | unsigned _ ih | signed _ ih
  | term _ ih | side _ ih => exact ih
  | _ => rintro _ ⟨⟩

lemma unparenthesized (h : Parsed n e) (hn : n ≠ .exponent) :
    Parsed .relation e.unparenthesized := by
  cases e with
  | parens b => exact h.body b rfl
  | _ => exact h.toRelation hn

/-- Factors of which none opens with a bar can be read side by side. -/
lemma juxtapose {factors : List Expr} (hlen : 2 ≤ factors.length)
    (h : ∀ f ∈ factors, Parsed .power f) (hbars : ∀ f ∈ factors, f.opensWithBar = false) :
    Parsed .juxtaposition (.juxtapose factors) := by
  match factors, hlen with
  | f :: g :: others, _ =>
      obtain ⟨hf, hothers⟩ := List.forall_mem_cons.mp h
      refine .juxtaposition (by simp) hf hothers (List.any_eq_false.mpr fun a ha => ?_)
      rw [hbars a (.tail _ ha)]
      exact Bool.false_ne_true

/-- Operands that an operator joins when there are two of them. -/
lemma gather {join : List Expr → Expr} {es : List Expr}
    (hjoin : 2 ≤ es.length → Parsed n (join es)) (hne : es ≠ []) (h : ∀ e ∈ es, Parsed n e) :
    Parsed n (.gather join es) := by
  match es, hne with
  | [e], _ => exact h e (by simp)
  | e :: e' :: es, _ => exact hjoin (by simp)

lemma iterate_fact (h : Parsed .factorial e) : ∀ k : ℕ, Parsed .factorial (Expr.fact^[k] e)
  | 0 => h
  | k + 1 => by
      rw [Function.iterate_succ_apply']
      exact .factorial (iterate_fact h k)

/-- What is read has a notation. -/
theorem wellFormed (h : Parsed n e) : e.WellFormed := by
  induction h with
  | number h => exact .number h
  | letter h => exact .letter h
  | subscript hc _ ih => exact .subscript hc ih
  | call hword hname _ ih => exact .call hword hname ih
  | root _ ih => exact .root ih
  | parens _ ih => exact .parens ih
  | bars _ ih => exact .abs ih
  | factorial _ ih => exact .fact ih
  | power _ _ ihb ihx => exact .power ihb ihx
  | negExponent _ ih | neg _ ih => exact .neg ih
  | posExponent _ ih | pos _ ih => exact .pos ih
  | juxtaposition hne _ _ _ ih ihs =>
      refine .juxtaposition ?_ (List.forall_mem_cons.mpr ⟨ih, ihs⟩)
      have := List.length_pos_iff.mpr hne
      rw [List.length_cons]
      omega
  | product hlen _ _ ih => exact .product hlen ih
  | quotient _ _ iha ihb => exact .quotient iha ihb
  | sum hne _ _ ih ihs => exact .sum hne ih ihs
  | relation hop hlen _ ih => exact .relation hop hlen ih
  | operand _ ih | base _ ih | exponent _ ih | factor _ ih | unsigned _ ih | signed _ ih
  | term _ ih | side _ ih => exact ih

/-- No factor behind another one begins with a bar. -/
theorem everywhere_bars (h : Parsed n e) : e.Everywhere fun d => d.juxtaposesBar = false := by
  induction h with
  | number | letter => exact List.forall_mem_singleton.mpr rfl
  | subscript _ _ ih => exact everywhere_subscript.mpr ⟨rfl, ih⟩
  | call _ _ _ ih => exact everywhere_function.mpr ⟨rfl, ih⟩
  | root _ ih => exact everywhere_apply.mpr ⟨rfl, ih⟩
  | parens _ ih => exact everywhere_parens.mpr ⟨rfl, ih⟩
  | bars _ ih | factorial _ ih | negExponent _ ih | posExponent _ ih | neg _ ih | pos _ ih =>
      exact everywhere_apply.mpr ⟨rfl, List.forall_mem_singleton.mpr ih⟩
  | power _ _ iha ihb | quotient _ _ iha ihb =>
      refine everywhere_apply.mpr ⟨rfl, List.forall_mem_cons.mpr ⟨iha, ?_⟩⟩
      exact List.forall_mem_singleton.mpr ihb
  | juxtaposition _ _ _ hbars ih ihs =>
      exact everywhere_apply.mpr ⟨hbars, List.forall_mem_cons.mpr ⟨ih, ihs⟩⟩
  | @product args _ _ _ ih =>
      refine everywhere_apply.mpr ⟨?_, ih⟩
      cases args <;> rfl
  | sum _ _ _ ih ihs =>
      refine everywhere_apply.mpr ⟨rfl, List.forall_mem_cons.mpr ⟨ih, List.forall_mem_map.mpr ?_⟩⟩
      rintro ⟨sign, a⟩ hl
      cases sign with
      | plus => exact ihs _ hl
      | minus => exact everywhere_apply.mpr ⟨rfl, List.forall_mem_singleton.mpr (ihs _ hl)⟩
  | relation hop _ _ ih =>
      refine everywhere_apply.mpr ⟨?_, ih⟩
      cases ‹Operator› <;> cases hop <;> rfl
  | operand _ ih | base _ ih | exponent _ ih | factor _ ih | unsigned _ ih | signed _ ih
  | term _ ih | side _ ih => exact ih

end Parsed

end Expr

/-! ## Reading -/

open MathExpr.Expr

/-- Every symbol is read as some relation. -/
lemma Operator.relationSymbol?_ofRelationSymbol (symbol : String) :
    ∃ symbol', (ofRelationSymbol symbol).relationSymbol? = some symbol' := by
  unfold ofRelationSymbol
  split_ifs <;> exact ⟨_, rfl⟩

/-- The sides of a relation read so far. -/
def RelationChain.Parsed : RelationChain → Prop
  | .single side => Expr.Parsed .sum side
  | .linked _ sides => 2 ≤ sides.length ∧ ∀ e ∈ sides, Expr.Parsed .relation e

namespace RelationChain

variable {chain : RelationChain} {e : Expr}

lemma Parsed.relation {symbol : String} {sides : List Expr} (h : (linked symbol sides).Parsed) :
    Expr.Parsed .relation (relation symbol sides) := by
  obtain ⟨symbol', hsymbol⟩ := Operator.relationSymbol?_ofRelationSymbol symbol
  exact .relation hsymbol h.1 h.2

lemma Parsed.extend (h : chain.Parsed) (symbol : String) (he : Expr.Parsed .sum e) :
    (chain.extend symbol e).Parsed := by
  cases chain with
  | single first =>
      refine ⟨by simp, List.forall_mem_cons.mpr ⟨.side h, ?_⟩⟩
      exact List.forall_mem_singleton.mpr (.side he)
  | linked previous sides =>
      by_cases hsymbol : previous = symbol
      · have hlen := h.1
        rw [RelationChain.extend, if_pos hsymbol]
        exact ⟨by rw [List.length_append]; omega,
          List.forall_mem_append.mpr ⟨h.2, List.forall_mem_singleton.mpr (.side he)⟩⟩
      · rw [RelationChain.extend, if_neg hsymbol]
        refine ⟨by simp, List.forall_mem_cons.mpr ⟨h.relation, ?_⟩⟩
        exact List.forall_mem_singleton.mpr (.side he)

lemma Parsed.toExpr (h : chain.Parsed) : Expr.Parsed .relation chain.toExpr := by
  cases chain with
  | single side => exact .side h
  | linked symbol sides => exact h.relation

/-- A chain is extended by any number of further sides. -/
lemma Parsed.foldl : ∀ (links : List (String × Part)) {chain : RelationChain}, chain.Parsed →
    (∀ l ∈ links, Expr.Parsed .sum l.2.expr) →
    (links.foldl (fun chain l => RelationChain.extend chain l.1 l.2.expr) chain).Parsed
  | [], _, hchain, _ => hchain
  | (symbol, p) :: links, chain, hchain, hlinks => by
      obtain ⟨hp, hlinks⟩ := List.forall_mem_cons.mp hlinks
      rw [List.foldl_cons]
      exact foldl links (hchain.extend symbol hp) hlinks

end RelationChain

/-- The factors of a product read so far.  Only a division leaves a factor looser than a sign. -/
def ParsedFactors (factors : List Expr) : Prop :=
  factors ≠ [] ∧ (∀ a ∈ factors, Parsed .product a) ∧
    ∀ a ∈ factors, a.binding < .sign → a.isOp .div = true

namespace ParsedFactors

variable {factors : List Expr} {e : Expr}

lemma gather (h : ParsedFactors factors) : Parsed .product (.gather .mul factors) :=
  .gather (fun hlen => .product hlen h.2.1 h.2.2) h.1 h.2.1

lemma singleton (he : Parsed .signed e) : ParsedFactors [e] := by
  refine ⟨by simp, List.forall_mem_singleton.mpr (.signed he), ?_⟩
  exact List.forall_mem_singleton.mpr fun hlt => absurd hlt he.not_binding_lt

lemma extend (h : ParsedFactors factors) (he : Parsed .signed e) :
    ∀ sign : FactorSign, ParsedFactors (sign.extend factors e)
  | .times => by
      obtain ⟨_, hone, hloose⟩ := singleton he
      exact ⟨by simp [FactorSign.extend], List.forall_mem_append.mpr ⟨h.2.1, hone⟩,
        List.forall_mem_append.mpr ⟨h.2.2, hloose⟩⟩
  | .slash =>
      ⟨by simp [FactorSign.extend], List.forall_mem_singleton.mpr (.quotient h.gather he),
        List.forall_mem_singleton.mpr fun _ => rfl⟩

/-- A product is extended by any number of further factors. -/
lemma foldl : ∀ (links : List (FactorSign × Part)) {factors : List Expr}, ParsedFactors factors →
    (∀ l ∈ links, Parsed .signed l.2.expr) →
    ParsedFactors (links.foldl (fun factors l => l.1.extend factors l.2.expr) factors)
  | [], _, hfactors, _ => hfactors
  | (sign, p) :: links, factors, hfactors, hlinks => by
      obtain ⟨hp, hlinks⟩ := List.forall_mem_cons.mp hlinks
      rw [List.foldl_cons]
      exact foldl links (hfactors.extend hp sign) hlinks

end ParsedFactors

/-- Words of a text stay words when they are taken apart. -/
lemma Token.lexical_of_spellOut : ∀ {ts : List Token}, (∀ t ∈ ts, t.Lexical) →
    ∀ t ∈ spellOut ts, t.Lexical
  | [], _, t, ht => by simp at ht
  | s :: ts, h, t, ht => by
      obtain ⟨hs, hts⟩ := List.forall_mem_cons.mp h
      by_cases hword : ∃ letters, s = .word letters
      · obtain ⟨letters, rfl⟩ := hword
        rw [spellOut] at ht
        split at ht
        · rcases List.mem_cons.mp ht with rfl | ht
          · exact hs
          · exact lexical_of_spellOut hts t ht
        · rcases List.mem_append.mp ht with ht | ht
          · obtain ⟨c, hc, rfl⟩ := List.mem_map.mp ht
            exact ⟨by simp, by simpa using hs.2 c hc⟩
          · exact lexical_of_spellOut hts t ht
      · rw [spellOut_cons fun letters hl => hword ⟨letters, hl⟩] at ht
        rcases List.mem_cons.mp ht with rfl | ht
        · exact hs
        · exact lexical_of_spellOut hts t ht

namespace Derives

variable {n : Category} {ts : List Token} {e : Expr}

/-- A factor that opens with a bar is read from tokens that do. -/
lemma eq_bar_of_opensWithBar (h : Derives n ts e) (hn : n.rank ≤ 2) (hbar : e.opensWithBar = true) :
    ∃ us, ts = .bar :: us := by
  induction h with
  | bars => exact ⟨_, rfl⟩
  | @factorial _ e k _ ih =>
      have hoperand : ∀ k, (Expr.fact^[k] e).opensWithBar = true → e.opensWithBar = true := by
        intro k
        induction k with
        | zero => exact id
        | succ k ihk =>
            intro hk
            rw [Function.iterate_succ_apply', Expr.fact, Expr.opensWithBar, Bool.and_eq_true] at hk
            exact ihk hk.2
      obtain ⟨us, rfl⟩ := ih (by decide) (hoperand k hbar)
      exact ⟨_, rfl⟩
  | base _ ih => exact ih (by decide) hbar
  | power _ _ ih _ =>
      rw [Expr.pow, Expr.opensWithBar, Bool.and_eq_true] at hbar
      obtain ⟨us, rfl⟩ := ih (by decide) hbar.2
      exact ⟨_, rfl⟩
  | call =>
      unfold Phrase.callOf at hbar
      split at hbar <;> cases hbar
  | number | letter | subscript | parens => cases hbar
  | _ => exact absurd hn (by decide)

/-- **What is read from the tokens of a text is among the expressions of its category.** -/
theorem parsed (h : Derives n ts e) (hts : ∀ t ∈ ts, t.Lexical) : Parsed n e := by
  induction h with
  | number numeral => exact .number (hts (.number numeral) (by simp))
  | letter c => exact .letter ((hts (.word [c]) (by simp)).2 c (by simp))
  | subscript c _ ih =>
      obtain ⟨hc, hs⟩ := List.forall_mem_cons.mp hts
      exact .subscript (hc.2 c (by simp)) (ih (List.forall_mem_cons.mp hs).2)
  | call c d letters args _ ih =>
      have hargs : ∀ e ∈ args.map Part.expr, Parsed .relation e := by
        intro e he
        obtain ⟨arg, harg, rfl⟩ := List.mem_map.mp he
        refine ih arg harg fun t ht => hts t ?_
        have := Token.mem_separate .comma (List.mem_map_of_mem harg) ht
        simp [this]
      unfold Phrase.callOf
      split
      · exact .root hargs
      · next hname => exact .call (hts (.word (c :: d :: letters)) (by simp)) hname hargs
  | parens _ ih => exact .parens (ih fun t ht => hts t (by simp [ht]))
  | bars _ ih => exact .bars (ih fun t ht => hts t (by simp [ht]))
  | factorial k _ ih =>
      have hoperand := ih (List.forall_mem_append.mp hts).1
      exact (Parsed.operand hoperand).iterate_fact k
  | base _ ih => exact .base (ih hts)
  | power _ _ ihb ihx =>
      obtain ⟨hb, hx⟩ := List.forall_mem_append.mp hts
      exact .power (ihb hb) (ihx (List.forall_mem_cons.mp hx).2)
  | exponent _ ih => exact .exponent (ih hts)
  | negExponent _ ih => exact .negExponent (ih (List.forall_mem_cons.mp hts).2)
  | posExponent _ ih => exact .posExponent (ih (List.forall_mem_cons.mp hts).2)
  | juxtaposition others _ hothers hstarts ih ihs =>
      obtain ⟨hfirst, htokens⟩ := List.forall_mem_append.mp hts
      have hpowers : ∀ p ∈ others, Parsed .power p.expr := fun p hp =>
        ihs p hp fun t ht => htokens t (List.mem_flatMap.mpr ⟨p, hp, ht⟩)
      -- a bar cannot go on with the factors, so none of the others begins with one
      have hbars : (others.map Part.expr).any opensWithBar = false := by
        rw [List.any_map, List.any_eq_false]
        intro p hp hbar
        obtain ⟨us, hus⟩ := (hothers p hp).eq_bar_of_opensWithBar (by decide) hbar
        have hstart := hstarts p hp
        rw [hus] at hstart
        cases hstart
      cases others with
      | nil => exact .factor (ih hfirst)
      | cons p others =>
          exact .juxtaposition (by simp) (ih hfirst) (List.forall_mem_map.mpr hpowers) hbars
  | unsigned _ ih => exact .unsigned (ih hts)
  | neg _ ih =>
      exact .neg ((ih (List.forall_mem_cons.mp hts).2).unparenthesized (by decide))
  | pos _ ih =>
      exact .pos ((ih (List.forall_mem_cons.mp hts).2).unparenthesized (by decide))
  | product links _ _ ih ihs =>
      obtain ⟨hfirst, hothers⟩ := List.forall_mem_append.mp hts
      have hlinks : ∀ l ∈ links, Parsed .signed l.2.expr := fun l hl =>
        ihs l hl fun t ht => hothers t (mem_linked hl ht)
      exact ((ParsedFactors.singleton (ih hfirst)).foldl links hlinks).gather
  | sum links _ _ ih ihs =>
      obtain ⟨hfirst, hothers⟩ := List.forall_mem_append.mp hts
      have hlinks : ∀ l ∈ links, Parsed .product l.2.expr := fun l hl =>
        ihs l hl fun t ht => hothers t (mem_linked hl ht)
      cases links with
      | nil => exact .term (ih hfirst)
      | cons l links =>
          have hsum := @Parsed.sum _ ((l :: links).map fun l => (l.1, l.2.expr))
            (by simp) (ih hfirst) (List.forall_mem_map.mpr hlinks)
          rwa [List.map_map] at hsum
  | relation links _ _ ih ihs =>
      obtain ⟨hfirst, hothers⟩ := List.forall_mem_append.mp hts
      have hlinks : ∀ l ∈ links, Parsed .sum l.2.expr := fun l hl =>
        ihs l hl fun t ht => hothers t (mem_linked hl ht)
      have hchain : (RelationChain.single _).Parsed := ih hfirst
      exact (RelationChain.Parsed.foldl links hchain hlinks).toExpr

end Derives

/-- What a text is read as is among the expressions that are read. -/
lemma Expr.parsed_of_parse {text : String} {e : Expr} (h : parse text = .ok e) :
    Parsed .relation e := by
  obtain ⟨ts, hts, hderives⟩ := derives_of_parse h
  exact hderives.parsed (Token.lexical_of_spellOut (Token.lexical_of_ofChars _ hts))

end MathExpr
