import MathExpr.Proofs.Grammar.Soundness
import MathExpr.Reader

/-!
# What has a derivation is read

The converse of soundness.  A reader takes as many tokens as it can, so a phrase is read to its end,
and no further, only where the next token cannot be one more part of it.

* `Token.grip`, `Category.Ends` — which tokens prolong which phrases.
* `Derives.opens` — the tokens that a phrase can begin with.
* `Category.Reads` — a phrase is read from any list that it begins, if what follows lets it end.
* **`Derives.reads`** — every derivation is found.
* **`Derives.unique`**, **`Reader.readExpr_decides_derives`** — so there is at most one, and a list
  of tokens is an expression exactly if it has one.
-/

namespace MathExpr

/-! ## Where phrases end -/

/-- The rank of the tightest phrases that a token cannot prolong is one more than this.  A closing
token prolongs none. -/
def Token.grip : Token → ℕ
  | .underscore => 0
  | .bang => 1
  | .caret => 2
  | .number _ | .word _ | .leftParen => 4
  | .times | .slash => 6
  | .plus | .minus => 7
  | .relation _ => 8
  | .rightParen | .bar | .comma => 9

namespace Category

variable {m n : Category} {t : Token} {ts us vs : List Token} {e : Expr}

/-- The tokens `vs` do not begin with one that prolongs a phrase of the category `n`. -/
def Ends (n : Category) (vs : List Token) : Prop :=
  ∀ t ∈ vs.head?, n.rank < t.grip

@[simp] lemma ends_nil : n.Ends [] := by
  simp [Ends]

@[simp] lemma ends_cons : n.Ends (t :: vs) ↔ n.rank < t.grip := by
  simp [Ends]

/-- Where a phrase ends, tighter ones end as well. -/
lemma Ends.mono (h : n.Ends vs) (hmn : m.rank ≤ n.rank) : m.Ends vs := fun t ht =>
  Nat.lt_of_le_of_lt hmn (h t ht)

/-- Taking words apart does not change where phrases end. -/
lemma ends_spellOut : n.Ends (Token.spellOut ts) ↔ n.Ends ts := by
  cases ts with
  | nil => rfl
  | cons t ts =>
      by_cases ht : ∃ letters, t = .word letters
      · obtain ⟨letters, rfl⟩ := ht
        rw [Token.spellOut_word]
        split
        · simp
        · cases letters with
          | nil => simp_all
          | cons c letters => simp [Token.grip]
      · rw [Token.spellOut_cons fun letters hl => ht ⟨letters, hl⟩]
        simp

/-- In front of further parts a phrase ends if their signs do not prolong it. -/
lemma Ends.linked {σ : Type} {sign : σ → Token} (h : n.Ends vs)
    (hsign : ∀ s, n.rank < (sign s).grip) (links : List (σ × Part)) :
    n.Ends (linked sign links ++ vs) := by
  cases links with
  | nil => exact h
  | cons link links => exact ends_cons.mpr (hsign link.1)

end Category

@[simp] lemma TermSign.grip_token (sign : TermSign) : sign.token.grip = 7 := by
  cases sign <;> rfl

@[simp] lemma FactorSign.grip_token (sign : FactorSign) : sign.token.grip = 6 := by
  cases sign <;> rfl

/-! ## Where phrases begin -/

namespace Category

/-- Whether a token can be the first of a phrase.  Signs are in front of exponents and of
everything looser than a juxtaposition. -/
def opens (n : Category) : Token → Bool
  | .number _ | .word _ | .leftParen | .bar => true
  | .plus | .minus => n.rank = 3 || 5 ≤ n.rank
  | _ => false

end Category

namespace Derives

variable {n : Category} {ts : List Token} {e : Expr}

/-- The first token of a phrase. -/
lemma opens (h : Derives n ts e) : ∃ t us, ts = t :: us ∧ n.opens t = true := by
  induction h with
  | number | letter | subscript | call | parens | bars | negExponent | posExponent | neg | pos =>
      exact ⟨_, _, rfl, rfl⟩
  | factorial _ _ ih | base _ ih | power _ _ ih _ | exponent _ ih | juxtaposition _ _ _ _ ih _
  | unsigned _ ih | product _ _ _ ih _ | sum _ _ _ ih _ | relation _ _ _ ih _ =>
      obtain ⟨t, us, rfl, ht⟩ := ih
      refine ⟨t, _, rfl, ?_⟩
      cases t <;> simp_all [Category.opens, Category.rank]

end Derives

/-! ## Reading to the end of a phrase -/

namespace Category

/-- The phrase that reads a category. -/
def phrase : Category → Phrase
  | .operand => .operand
  | .factorial => .factorial
  | .power => .power
  | .exponent => .exponent
  | .juxtaposition => .juxtaposition
  | .signed => .signed
  | .product => .product
  | .sum => .sum
  | .relation => .relation

/-- The tokens `us` are read as `e`, and to their end, wherever they are followed by tokens that let
the phrase end. -/
def Reads (n : Category) (us : List Token) (e : Expr) : Prop :=
  ∀ {ts vs : List Token}, Token.spellOut ts = us ++ vs → n.Ends vs →
    ∃ rest, Token.spellOut rest = vs ∧ (n.phrase.read ts).Yields e rest

end Category

open Token Category

section Links

variable {σ α : Type} {m n : Category} {sign : σ → Token} {companion : α → Phrase}
  {extend : α → σ → Expr → α} {finish : α → Expr}

/-- A companion phrase reads all links of a chain, if it goes on at each sign and stops where the
whole phrase ends. -/
lemma yields_links (hword : ∀ s letters, sign s ≠ .word letters)
    (hgrip : ∀ s, m.rank < (sign s).grip) (hmn : m.rank ≤ n.rank)
    (hstep : ∀ a s ts, (companion a).read (sign s :: ts) =
      ((m.phrase.read ts).andThen fun e rest =>
        (companion (extend a s e)).read rest).after [sign s])
    (hstop : ∀ a ts, n.Ends ts → (companion a).read ts = .stop (finish a) ts) :
    ∀ (links : List (σ × Part)) (a : α) {ts vs : List Token},
      (∀ l ∈ links, m.Reads l.2.tokens l.2.expr) →
      spellOut ts = linked sign links ++ vs → n.Ends vs → ∃ rest, spellOut rest = vs ∧
        ((companion a).read ts).Yields
          (finish (links.foldl (fun a l => extend a l.1 l.2.expr) a)) rest
  | [], a, ts, vs, _, hts, hends => by
      refine ⟨ts, hts, ?_⟩
      rw [hstop a ts (ends_spellOut.mp (hts ▸ hends)), Outcome.yields_stop]
      exact ⟨rfl, rfl⟩
  | (s, p) :: links, a, ts, vs, hlinks, hts, hends => by
      obtain ⟨hp, hlinks⟩ := List.forall_mem_cons.mp hlinks
      rw [linked_cons, List.append_assoc, List.cons_append] at hts
      obtain ⟨ts', rfl, hts'⟩ := eq_cons_of_spellOut (hword s) hts
      obtain ⟨mid, hmid, hfirst⟩ := hp hts' ((hends.mono hmn).linked hgrip links)
      obtain ⟨rest, hrest, hothers⟩ := yields_links hword hgrip hmn hstep hstop links
        (extend a s p.expr) hlinks hmid hends
      refine ⟨rest, hrest, ?_⟩
      rw [hstep, Outcome.yields_after, Outcome.yields_andThen]
      exact ⟨p.expr, mid, hfirst, hothers⟩

end Links

lemma yields_relationRest (links : List (String × Part)) (chain : RelationChain)
    {ts vs : List Token} (hlinks : ∀ l ∈ links, Category.sum.Reads l.2.tokens l.2.expr)
    (hts : spellOut ts = linked Token.relation links ++ vs) (hends : Category.relation.Ends vs) :
    ∃ rest, spellOut rest = vs ∧ ((Phrase.relationRest chain).read ts).Yields
      (links.foldl (fun chain l => RelationChain.extend chain l.1 l.2.expr) chain).toExpr rest := by
  refine yields_links (n := .relation) (fun s letters => by simp) (fun s => by simp [rank, grip])
    (by decide)
    (fun a s ts => Phrase.read_relationRest_relation a s ts) (fun a ts h => ?_) links chain hlinks
    hts
    hends
  refine Phrase.read_relationRest_stop a ?_
  rintro symbol us rfl
  exact absurd h (by simp [rank, grip])

lemma yields_sumRest (links : List (TermSign × Part)) (terms : List Expr) {ts vs : List Token}
    (hlinks : ∀ l ∈ links, Category.product.Reads l.2.tokens l.2.expr)
    (hts : spellOut ts = linked TermSign.token links ++ vs) (hends : Category.sum.Ends vs) :
    ∃ rest, spellOut rest = vs ∧ ((Phrase.sumRest terms).read ts).Yields
      (.gather .add (terms ++ links.map fun l => l.1.term l.2.expr)) rest := by
  rw [List.map_eq_flatMap, List.flatMap_def, ← List.foldl_append_eq_append]
  refine yields_links (n := .sum) TermSign.token_ne_word (fun s => by simp [rank]) (by decide)
    Phrase.read_sumRest_sign (fun a ts h => ?_) links terms hlinks hts hends
  refine Phrase.read_sumRest_stop a ?_ ?_
  all_goals
    rintro us rfl
    exact absurd h (by simp [rank, grip])

lemma yields_productRest (links : List (FactorSign × Part)) (factors : List Expr)
    {ts vs : List Token} (hlinks : ∀ l ∈ links, Category.signed.Reads l.2.tokens l.2.expr)
    (hts : spellOut ts = linked FactorSign.token links ++ vs) (hends : Category.product.Ends vs) :
    ∃ rest, spellOut rest = vs ∧ ((Phrase.productRest factors).read ts).Yields
      (.gather .mul (links.foldl (fun factors l => l.1.extend factors l.2.expr) factors)) rest := by
  refine yields_links (n := .product) FactorSign.token_ne_word (fun s => by simp [rank]) (by decide)
    Phrase.read_productRest_sign (fun a ts h => ?_) links factors hlinks hts hends
  refine Phrase.read_productRest_stop a ?_ ?_
  all_goals
    rintro us rfl
    exact absurd h (by simp [rank, grip])

/-- Powers end where the next one begins. -/
lemma ends_of_startsOperand {us : List Token} (h : Phrase.startsOperand us = true)
    (vs : List Token) : Category.power.Ends (us ++ vs) := by
  cases us with
  | nil => simp [Phrase.startsOperand] at h
  | cons t us => cases t <;> simp_all [Phrase.startsOperand, rank, grip]

/-- Powers side by side end each other, and the last of them ends where the juxtaposition does. -/
lemma ends_operands {others : List Part} {vs : List Token}
    (hstarts : ∀ p ∈ others, Phrase.startsOperand p.tokens = true)
    (hends : Category.power.Ends vs) : Category.power.Ends (others.flatMap Part.tokens ++ vs) := by
  cases others with
  | nil => exact hends
  | cons p others =>
      rw [List.flatMap_cons, List.append_assoc]
      exact ends_of_startsOperand (hstarts p (by simp)) _

/-- An exponent ends where its power does: no token prolongs the one and not the other. -/
lemma ends_exponent {vs : List Token} (h : Category.power.Ends vs) : Category.exponent.Ends vs := by
  cases vs with
  | nil => simp
  | cons t vs => cases t <;> simp_all [rank, grip]

lemma startsOperand_of_ends {ts : List Token} (h : Category.juxtaposition.Ends ts) :
    Phrase.startsOperand ts = false := by
  cases ts with
  | nil => rfl
  | cons t ts => cases t <;> simp_all [Phrase.startsOperand, rank, grip]

lemma yields_juxtapositionRest : ∀ (others : List Part) (factors : List Expr) {ts vs : List Token},
    (∀ p ∈ others, Category.power.Reads p.tokens p.expr) →
    (∀ p ∈ others, Phrase.startsOperand p.tokens = true) →
    spellOut ts = others.flatMap Part.tokens ++ vs → Category.juxtaposition.Ends vs →
    ∃ rest, spellOut rest = vs ∧ ((Phrase.juxtapositionRest factors).read ts).Yields
      (.gather .juxtapose (factors ++ others.map Part.expr)) rest
  | [], factors, ts, vs, _, _, hts, hends => by
      have hstop : Phrase.startsOperand ts = false := by
        rw [← startsOperand_spellOut, hts]
        exact startsOperand_of_ends hends
      refine ⟨ts, hts, ?_⟩
      rw [Phrase.read_juxtapositionRest_stop factors hstop, Outcome.yields_stop]
      exact ⟨by simp, rfl⟩
  | p :: others, factors, ts, vs, hreads, hstarts, hts, hends => by
      obtain ⟨hp, hreads⟩ := List.forall_mem_cons.mp hreads
      obtain ⟨hstart, hstarts⟩ := List.forall_mem_cons.mp hstarts
      rw [List.flatMap_cons, List.append_assoc] at hts
      have hgo : Phrase.startsOperand ts = true := by
        rw [← startsOperand_spellOut, hts, startsOperand_append _ _]
        · exact hstart
        · rintro hnil
          simp [hnil, Phrase.startsOperand] at hstart
      have hend : Category.power.Ends (others.flatMap Part.tokens ++ vs) :=
        ends_operands hstarts (hends.mono (by decide))
      obtain ⟨mid, hmid, hfirst⟩ := hp hts hend
      obtain ⟨rest, hrest, hothers⟩ := yields_juxtapositionRest others (factors ++ [p.expr]) hreads
        hstarts hmid hends
      refine ⟨rest, hrest, ?_⟩
      rw [Phrase.read_juxtapositionRest_operand factors hgo, Outcome.yields_andThen]
      exact ⟨p.expr, mid, hfirst, by simpa using hothers⟩

lemma yields_factorialRest : ∀ (n : ℕ) (e : Expr) {ts vs : List Token},
    spellOut ts = List.replicate n Token.bang ++ vs → Category.factorial.Ends vs →
    ∃ rest, spellOut rest = vs ∧
      ((Phrase.factorialRest e).read ts).Yields (Expr.fact^[n] e) rest
  | 0, e, ts, vs, hts, hends => by
      refine ⟨ts, hts, ?_⟩
      rw [Phrase.read_factorialRest_stop, Outcome.yields_stop]
      · exact ⟨rfl, rfl⟩
      · rintro us rfl
        have hbang : Category.factorial.Ends (spellOut (.bang :: us)) := by rwa [hts]
        simp [ends_spellOut, rank, grip] at hbang
  | n + 1, e, ts, vs, hts, hends => by
      rw [List.replicate_succ, List.cons_append] at hts
      obtain ⟨ts', rfl, hts'⟩ := eq_cons_of_spellOut (by simp) hts
      obtain ⟨rest, hrest, hyields⟩ := yields_factorialRest n e.fact hts' hends
      refine ⟨rest, hrest, ?_⟩
      rw [Phrase.read_factorialRest_bang, Outcome.yields_after]
      exact hyields

lemma yields_argumentsRest (name : String) : ∀ (parts : List Part) (args : List Expr)
    {ts vs : List Token}, (∀ p ∈ parts, Category.relation.Reads p.tokens p.expr) →
    spellOut ts = parts.flatMap (Token.comma :: ·.tokens) ++ .rightParen :: vs →
    ∃ rest, spellOut rest = vs ∧ ((Phrase.argumentsRest name args).read ts).Yields
      (Phrase.callOf name (args ++ parts.map Part.expr)) rest
  | [], args, ts, vs, _, hts => by
      obtain ⟨ts', rfl, hts'⟩ := eq_cons_of_spellOut (by simp) hts
      refine ⟨ts', hts', ?_⟩
      rw [Phrase.read_argumentsRest_close name args (by simp), Outcome.yields_close]
      exact ⟨rfl, by simp⟩
  | p :: parts, args, ts, vs, hreads, hts => by
      obtain ⟨hp, hreads⟩ := List.forall_mem_cons.mp hreads
      rw [List.flatMap_cons, List.append_assoc, List.cons_append] at hts
      obtain ⟨ts', rfl, hts'⟩ := eq_cons_of_spellOut (by simp) hts
      have hend : Category.relation.Ends
          (parts.flatMap (Token.comma :: ·.tokens) ++ .rightParen :: vs) := by
        cases parts <;> simp [rank, grip]
      obtain ⟨mid, hmid, hfirst⟩ := hp hts' hend
      obtain ⟨rest, hrest, hothers⟩ :=
        yields_argumentsRest name parts (args ++ [p.expr]) hreads hmid
      refine ⟨rest, hrest, ?_⟩
      rw [Phrase.read_argumentsRest_comma, Outcome.yields_after, Phrase.read_arguments,
        Outcome.yields_andThen]
      exact ⟨p.expr, mid, hfirst, by simpa using hothers⟩

/-! ## Derivations are found -/

namespace Category.Reads

variable {n : Category} {t : Token} {us : List Token} {e : Expr}

/-- A sign in front of a phrase of the same category. -/
lemma sign {f : Expr → Expr} (ht : ∀ letters, t ≠ .word letters)
    (hread : ∀ ts, n.phrase.read (t :: ts) = ((n.phrase.read ts).map f).after [t])
    (h : n.Reads us e) : n.Reads (t :: us) (f e) := by
  intro ts vs hts hends
  obtain ⟨ts', rfl, hts'⟩ := eq_cons_of_spellOut ht hts
  obtain ⟨rest, hrest, hyields⟩ := h hts' hends
  refine ⟨rest, hrest, ?_⟩
  rw [hread, Outcome.yields_after, Outcome.yields_map]
  exact ⟨_, hyields, rfl⟩

/-- An expression between tokens that open and close a group.  What comes after the group does not
matter, since the closing token ends any phrase in it. -/
lemma group {close : Token} {f : Expr → Expr} (ht : ∀ letters, t ≠ .word letters)
    (hclose : ∀ letters, close ≠ .word letters) (hgrip : close.grip = 9)
    (hread : ∀ ts, Phrase.operand.read (t :: ts) =
      ((Phrase.relation.read ts).andThen fun e rest => .close close (f e) rest).after [t])
    (h : Category.relation.Reads us e) :
    Category.operand.Reads (t :: us ++ [close]) (f e) := by
  intro ts vs hts _
  rw [List.cons_append, List.cons_append, List.append_assoc] at hts
  obtain ⟨ts', rfl, hts'⟩ := eq_cons_of_spellOut ht hts
  obtain ⟨mid, hmid, hinner⟩ := h hts' (by simp [rank, hgrip])
  obtain ⟨rest, rfl, hrest⟩ := eq_cons_of_spellOut hclose hmid
  refine ⟨rest, hrest, ?_⟩
  rw [phrase, hread, Outcome.yields_after, Outcome.yields_andThen]
  exact ⟨_, _, hinner, Outcome.yields_close.mpr ⟨rfl, rfl⟩⟩

end Category.Reads

namespace Derives

variable {n : Category} {us : List Token} {e : Expr}

/-- The phrases without a sign in front are those of tighter categories. -/
lemma first_ne_sign (h : Derives n us e) (hn : n.rank ≠ 3) (hle : n.rank < 5)
    {ts vs : List Token} (hts : spellOut ts = us ++ vs) :
    (∀ us, ts ≠ .minus :: us) ∧ ∀ us, ts ≠ .plus :: us := by
  obtain ⟨t, us', rfl, ht⟩ := h.opens
  constructor
  all_goals
    rintro ts' rfl
    rw [spellOut_cons (by simp), List.cons_append, List.cons.injEq] at hts
    rw [← hts.1] at ht
    simp only [Category.opens, Bool.or_eq_true, decide_eq_true_eq] at ht
    omega

/-- **Completeness of reading.**  A phrase is read to its end where the tokens after it let it end.
The induction is on the derivation; each rule hands what follows it to the companion phrase. -/
theorem reads (h : Derives n us e) : n.Reads us e := by
  induction h with
  | number numeral =>
      intro ts vs hts _
      obtain ⟨ts', rfl, hts'⟩ := eq_cons_of_spellOut (by simp) hts
      refine ⟨ts', hts', ?_⟩
      rw [phrase, Phrase.read_operand_number, Outcome.yields_after, Outcome.yields_stop]
      exact ⟨rfl, rfl⟩
  | letter c =>
      intro ts vs hts hends
      -- the letter is a word of its own, or the first of one that is taken apart
      obtain ⟨ts', rfl, hts'⟩ | ⟨d, letters, ts', rfl, hparen, hts'⟩ :=
        eq_word_of_spellOut_letter hts
      · refine ⟨ts', hts', ?_⟩
        rw [phrase, Phrase.read_operand_lastLetter, Outcome.yields_after, Outcome.yields_stop]
        · exact ⟨rfl, rfl⟩
        · rintro ts'' rfl
          have hunderscore : Category.operand.Ends (spellOut (.underscore :: ts'')) := hts' ▸ hends
          simp [ends_spellOut, rank, grip] at hunderscore
      · refine ⟨.word (d :: letters) :: ts', hts', ?_⟩
        rw [phrase, Phrase.read_operand_letter c d letters hparen, Outcome.yields_stop]
        exact ⟨rfl, rfl⟩
  | subscript c _ ih =>
      intro ts vs hts hends
      rw [List.cons_append, List.cons_append] at hts
      rcases eq_word_of_spellOut_letter hts with ⟨ts', rfl, hts'⟩ | ⟨d, letters, ts', rfl, _, hts'⟩
      · obtain ⟨ts'', rfl, hts''⟩ := eq_cons_of_spellOut (by simp) hts'
        obtain ⟨rest, hrest, hyields⟩ := ih hts'' hends
        refine ⟨rest, hrest, ?_⟩
        rw [phrase, Phrase.read_operand_subscript, Outcome.yields_after, Outcome.yields_map]
        exact ⟨_, hyields, rfl⟩
      · -- behind a letter that is not the last of its word there is no subscript
        obtain ⟨_, hword, _⟩ := eq_cons_of_spellOut (by simp) hts'
        simp at hword
  | call c d letters args hderives ih =>
      intro ts vs hts _
      obtain ⟨ts₁, rfl, hts₁⟩ := eq_word_of_spellOut_name hts
      obtain ⟨ts₂, rfl, hts₂⟩ := eq_cons_of_spellOut (by simp) hts₁
      cases args with
      | nil =>
          obtain ⟨rest, rfl, hrest⟩ := eq_cons_of_spellOut (by simp) hts₂
          refine ⟨rest, hrest, ?_⟩
          rw [phrase, Phrase.read_operand_call_nil, Outcome.yields_after, Outcome.yields_stop]
          exact ⟨rfl, rfl⟩
      | cons arg args =>
          obtain ⟨harg, hargs⟩ := List.forall_mem_cons.mp ih
          have hts₂' : spellOut ts₂ = arg.tokens ++
              (args.flatMap (Token.comma :: ·.tokens) ++ .rightParen :: vs) := by
            simp [hts₂, separate, List.flatMap_map]
          have hend : Category.relation.Ends
              (args.flatMap (Token.comma :: ·.tokens) ++ .rightParen :: vs) := by
            cases args <;> simp [rank, grip]
          -- no argument begins with the parenthesis that would end an empty list of them
          have hparen : ∀ us, ts₂ ≠ .rightParen :: us := by
            obtain ⟨t, us', htokens, ht⟩ := (hderives arg (by simp)).opens
            rintro us rfl
            rw [spellOut_cons (by simp), htokens, List.cons_append, List.cons.injEq] at hts₂'
            rw [← hts₂'.1] at ht
            simp [Category.opens] at ht
          obtain ⟨mid, hmid, hfirst⟩ := harg hts₂' hend
          obtain ⟨rest, hrest, hothers⟩ := yields_argumentsRest _ args [arg.expr] hargs hmid
          refine ⟨rest, hrest, ?_⟩
          rw [phrase, Phrase.read_operand_call c d letters hparen, Outcome.yields_after,
            Phrase.read_arguments, Outcome.yields_andThen]
          exact ⟨arg.expr, mid, hfirst, hothers⟩
  | parens _ ih => exact ih.group (by simp) (by simp) rfl Phrase.read_operand_parens
  | bars _ ih => exact ih.group (by simp) (by simp) rfl Phrase.read_operand_bars
  | factorial k _ ih =>
      intro ts vs hts hends
      rw [List.append_assoc] at hts
      have hend : Category.operand.Ends (List.replicate k Token.bang ++ vs) := by
        cases k with
        | zero => exact hends.mono (by decide)
        | succ k => simp [List.replicate_succ, rank, grip]
      obtain ⟨mid, hmid, hoperand⟩ := ih hts hend
      obtain ⟨rest, hrest, hyields⟩ := yields_factorialRest k _ hmid hends
      refine ⟨rest, hrest, ?_⟩
      rw [phrase, Phrase.read_factorial, Outcome.yields_andThen]
      exact ⟨_, mid, hoperand, hyields⟩
  | base _ ih =>
      intro ts vs hts hends
      obtain ⟨rest, hrest, hbase⟩ := ih hts (hends.mono (by decide))
      refine ⟨rest, hrest, ?_⟩
      rw [phrase, Phrase.read_power, Outcome.yields_andThen]
      refine ⟨_, rest, hbase, ?_⟩
      rw [Phrase.read_powerRest_stop, Outcome.yields_stop]
      · exact ⟨rfl, rfl⟩
      · rintro rest' rfl
        rw [← hrest, ends_spellOut] at hends
        simp [rank, grip] at hends
  | power _ _ ihb ihx =>
      intro ts vs hts hends
      rw [List.append_assoc, List.cons_append] at hts
      obtain ⟨mid, hmid, hbase⟩ := ihb hts (by simp [rank, grip])
      obtain ⟨mid', rfl, hmid'⟩ := eq_cons_of_spellOut (by simp) hmid
      obtain ⟨rest, hrest, hexponent⟩ := ihx hmid' (ends_exponent hends)
      refine ⟨rest, hrest, ?_⟩
      rw [phrase, Phrase.read_power, Outcome.yields_andThen]
      refine ⟨_, _, hbase, ?_⟩
      rw [Phrase.read_powerRest_caret, Outcome.yields_after, Outcome.yields_map]
      exact ⟨_, hexponent, rfl⟩
  | exponent h ih =>
      intro ts vs hts hends
      obtain ⟨hminus, hplus⟩ := first_ne_sign h (by decide) (by decide) hts
      rw [phrase, Phrase.read_exponent_unsigned hminus hplus]
      exact ih hts (hends.mono (by decide))
  | negExponent _ ih => exact ih.sign (n := .exponent) (by simp) Phrase.read_exponent_minus
  | posExponent _ ih => exact ih.sign (n := .exponent) (by simp) Phrase.read_exponent_plus
  | juxtaposition others _ _ hstarts ih ihs =>
      intro ts vs hts hends
      rw [List.append_assoc] at hts
      have hend : Category.power.Ends (others.flatMap Part.tokens ++ vs) :=
        ends_operands hstarts (hends.mono (by decide))
      obtain ⟨mid, hmid, hfirst⟩ := ih hts hend
      obtain ⟨rest, hrest, hothers⟩ := yields_juxtapositionRest others [_] ihs hstarts hmid hends
      refine ⟨rest, hrest, ?_⟩
      rw [phrase, Phrase.read_juxtaposition, Outcome.yields_andThen]
      exact ⟨_, mid, hfirst, hothers⟩
  | unsigned h ih =>
      intro ts vs hts hends
      obtain ⟨hminus, hplus⟩ := first_ne_sign h (by decide) (by decide) hts
      rw [phrase, Phrase.read_signed_unsigned hminus hplus]
      exact ih hts (hends.mono (by decide))
  | neg _ ih => exact ih.sign (n := .signed) (by simp) Phrase.read_signed_minus
  | pos _ ih => exact ih.sign (n := .signed) (by simp) Phrase.read_signed_plus
  | product links _ _ ih ihs =>
      intro ts vs hts hends
      rw [List.append_assoc] at hts
      obtain ⟨mid, hmid, hfirst⟩ := ih hts ((hends.mono (by decide)).linked (by simp [rank]) links)
      obtain ⟨rest, hrest, hothers⟩ := yields_productRest links [_] ihs hmid hends
      refine ⟨rest, hrest, ?_⟩
      rw [phrase, Phrase.read_product, Outcome.yields_andThen]
      exact ⟨_, mid, hfirst, hothers⟩
  | sum links _ _ ih ihs =>
      intro ts vs hts hends
      rw [List.append_assoc] at hts
      obtain ⟨mid, hmid, hfirst⟩ := ih hts ((hends.mono (by decide)).linked (by simp [rank]) links)
      obtain ⟨rest, hrest, hothers⟩ := yields_sumRest links [_] ihs hmid hends
      refine ⟨rest, hrest, ?_⟩
      rw [phrase, Phrase.read_sum, Outcome.yields_andThen]
      exact ⟨_, mid, hfirst, hothers⟩
  | relation links _ _ ih ihs =>
      intro ts vs hts hends
      rw [List.append_assoc] at hts
      obtain ⟨mid, hmid, hfirst⟩ :=
        ih hts ((hends.mono (by decide)).linked (by simp [rank, grip]) links)
      obtain ⟨rest, hrest, hothers⟩ := yields_relationRest links (.single _) ihs hmid hends
      refine ⟨rest, hrest, ?_⟩
      rw [phrase, Phrase.read_relation, Outcome.yields_andThen]
      exact ⟨_, mid, hfirst, hothers⟩

end Derives

/-! ## What is spelled out already

The grammar never sees a word that could still be taken apart, so the tokens of a phrase are spelled
out whatever follows them. -/

namespace Token

/-- Whatever follows, taking words apart leaves these tokens as they are. -/
def Settled (us : List Token) : Prop :=
  ∀ vs, spellOut (us ++ vs) = us ++ spellOut vs

namespace Settled

variable {us vs : List Token} {t : Token}

lemma cons (ht : ∀ letters, t ≠ .word letters) (h : Settled us) : Settled (t :: us) := fun vs => by
  rw [List.cons_append, spellOut_cons ht, h vs, List.cons_append]

lemma letter (c : Char) (h : Settled us) : Settled (.word [c] :: us) := fun vs => by
  rw [List.cons_append, spellOut_letter, h vs, List.cons_append]

lemma name (letters : List Char) (h : Settled us) :
    Settled (.word letters :: .leftParen :: us) := fun vs => by
  rw [List.cons_append, List.cons_append, spellOut_name, h vs, List.cons_append, List.cons_append]

lemma append (h : Settled us) (h' : Settled vs) : Settled (us ++ vs) := fun ws => by
  rw [List.append_assoc, h, h', List.append_assoc]

lemma nil : Settled [] := fun _ => rfl

lemma flatMap {α : Type} {f : α → List Token} : ∀ {l : List α},
    (∀ a ∈ l, Settled (f a)) → Settled (l.flatMap f)
  | [], _ => nil
  | _ :: _, h => by
      rw [List.flatMap_cons]
      exact append (h _ (by simp)) (flatMap fun a ha => h a (by simp [ha]))

lemma linked {σ : Type} {sign : σ → Token} (hword : ∀ s letters, sign s ≠ .word letters)
    {links : List (σ × Part)} (h : ∀ l ∈ links, Settled l.2.tokens) :
    Settled (linked sign links) :=
  flatMap fun l hl => cons (hword l.1) (h l hl)

lemma separate {sep : Token} (hsep : ∀ letters, sep ≠ .word letters) :
    ∀ {uss : List (List Token)}, (∀ us ∈ uss, Settled us) → Settled (separate sep uss)
  | [], _ => nil
  | _ :: _, h => append (h _ (by simp)) (flatMap fun us hus => cons hsep (h us (by simp [hus])))

end Settled

end Token

namespace Derives

variable {n : Category} {us : List Token} {e e' : Expr}

/-- The tokens of a phrase are spelled out. -/
lemma settled (h : Derives n us e) : Settled us := by
  induction h with
  | number numeral => exact .cons (by simp) .nil
  | letter c => exact .letter c .nil
  | subscript c _ ih => exact .letter c (.cons (by simp) ih)
  | call c d letters args _ ih =>
      refine .append (.name _ (.separate (by simp) ?_)) (.cons (by simp) .nil)
      simpa using ih
  | parens _ ih | bars _ ih => exact .append (.cons (by simp) ih) (.cons (by simp) .nil)
  | factorial k _ ih =>
      refine .append ih fun vs => ?_
      induction k with
      | zero => rfl
      | succ k ihk => rw [List.replicate_succ, List.cons_append, spellOut_cons (by simp), ihk,
          List.cons_append]
  | base _ ih | exponent _ ih | unsigned _ ih => exact ih
  | power _ _ ihb ihx => exact .append ihb (.cons (by simp) ihx)
  | negExponent _ ih | posExponent _ ih | neg _ ih | pos _ ih => exact .cons (by simp) ih
  | juxtaposition others _ _ _ ih ihs => exact .append ih (.flatMap ihs)
  | product links _ _ ih ihs => exact .append ih (.linked FactorSign.token_ne_word ihs)
  | sum links _ _ ih ihs => exact .append ih (.linked TermSign.token_ne_word ihs)
  | relation links _ _ ih ihs => exact .append ih (.linked (by simp) ihs)

/-- A phrase that nothing follows is read to the last token. -/
lemma yields_all (h : Derives n us e) {ts : List Token} (hts : spellOut ts = us) :
    (n.phrase.read ts).Yields e [] := by
  obtain ⟨rest, hrest, hyields⟩ := h.reads (by rw [hts, List.append_nil]) ends_nil
  rwa [spellOut_eq_nil.mp hrest] at hyields

/-- **The grammar is unambiguous**, since a reader has one answer only. -/
theorem unique (h : Derives n us e) (h' : Derives n us e') : e = e' := by
  have hus : spellOut us = us := by simpa using h.settled []
  have hread := (h.yields_all hus).1
  rw [(h'.yields_all hus).1] at hread
  exact (Except.ok.inj hread).symm

end Derives

/-! ## Expressions and derivations -/

variable {ts : List Token} {e : Expr}

lemma Reader.readExpr_eq_ok : (Reader.readExpr { tokens := ts }).1 = .ok e ↔
    (Phrase.relation.read ts).Yields e [] := by
  unfold Reader.readExpr Reader.ahead Outcome.Yields
  cases hresult : (Phrase.relation.read ts).result with
  | error error => simp [hresult, bind, Except.bind]
  | ok a =>
      cases hrest : (Phrase.relation.read ts).rest <;>
        simp [hresult, hrest, bind, Except.bind, pure, Except.pure]

/-- A list of tokens is read as `e` exactly if its words can be spelled out to a relation that
stands for `e`. -/
theorem Reader.readExpr_eq_ok_iff : (Reader.readExpr { tokens := ts }).1 = .ok e ↔
    Derives .relation (spellOut ts) e := by
  rw [readExpr_eq_ok]
  constructor
  · intro h
    obtain ⟨us, hus, hderives⟩ := Phrase.accepts_of_yields .relation ts h
    rw [hus, spellOut_nil, List.append_nil]
    exact hderives
  · intro h
    exact h.yields_all rfl

/-- The tokens of a text that is read have a derivation. -/
lemma Expr.derives_of_parse {text : String} (h : parse text = .ok e) :
    ∃ ts, ofText text = .ok ts ∧ Derives .relation (spellOut ts) e := by
  unfold parse at h
  cases hts : ofText text with
  | error error => simp [hts, bind, Except.bind] at h
  | ok ts =>
      rw [hts] at h
      exact ⟨ts, rfl, Reader.readExpr_eq_ok_iff.mp h⟩

/-- **Reading decides the grammar.**  Any list of tokens is read as exactly those expressions that
it has a derivation for, and no list of tokens has derivations for two expressions. -/
theorem Reader.readExpr_decides_derives :
    (∀ (ts : List Token) (e : Expr), (Reader.readExpr { tokens := ts }).1 = .ok e ↔
      Derives .relation (spellOut ts) e) ∧
    ∀ (us : List Token) (e e' : Expr), Derives .relation us e → Derives .relation us e' → e = e' :=
  ⟨fun _ _ => readExpr_eq_ok_iff, fun _ _ _ h h' => h.unique h'⟩

end MathExpr
