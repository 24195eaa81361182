import Mathlib.Logic.Function.Iterate
import Mathlib.Tactic.Lemma
import MathExpr.Phrase.Basic

/-!
# The grammar of expressions

What a list of tokens means, said without a reader: which stretches of tokens stand for which
expressions, category by category.  A category whose parts repeat has one rule for all of its
parts, however many there are, so the rules say nothing about the order in which tokens are met.

* `Token.spellOut` — a word that no parenthesis follows stands for its letters, one by one.  The
  grammar is about lists in which that has been done.
* `Category` — the syntactic categories, from operands to relations.
* `Part` — a stretch of tokens and the expression it stands for; `TermSign` and `FactorSign` are
  the signs that join parts to sums and products.
* **`Derives`** — the grammar.
-/

namespace MathExpr

/-! ## Words and letters -/

namespace Token

/-- The tokens with every word taken apart into letters, unless a parenthesis follows it: then the
word is the name of a function.  A single letter is never a name. -/
def spellOut : List Token → List Token
  | [] => []
  | .word letters :: ts =>
    if letters = [] ∨ ts.head? = some .leftParen then .word letters :: spellOut ts
    else letters.map (fun c => .word [c]) ++ spellOut ts
  | t :: ts => t :: spellOut ts

@[simp] lemma spellOut_nil : spellOut [] = [] := rfl

/-- A word is taken apart unless it is a name, or has no letters. -/
lemma spellOut_word (letters : List Char) (ts : List Token) :
    spellOut (.word letters :: ts) =
      if letters = [] ∨ ts.head? = some .leftParen then .word letters :: spellOut ts
      else letters.map (fun c => .word [c]) ++ spellOut ts := rfl

/-- Only words are taken apart. -/
lemma spellOut_cons {t : Token} (h : ∀ letters, t ≠ .word letters) (ts : List Token) :
    spellOut (t :: ts) = t :: spellOut ts := by
  cases t with
  | word letters => exact absurd rfl (h letters)
  | _ => rfl

@[simp] lemma spellOut_letter (c : Char) (ts : List Token) :
    spellOut (.word [c] :: ts) = .word [c] :: spellOut ts := by
  simp [spellOut_word]

@[simp] lemma spellOut_empty (ts : List Token) :
    spellOut (.word [] :: ts) = .word [] :: spellOut ts := by
  simp [spellOut_word]

@[simp] lemma spellOut_name (letters : List Char) (ts : List Token) :
    spellOut (.word letters :: .leftParen :: ts) = .word letters :: .leftParen :: spellOut ts := by
  simp [spellOut_word, spellOut_cons]

/-- No token gets lost. -/
@[simp] lemma spellOut_eq_nil {ts : List Token} : spellOut ts = [] ↔ ts = [] := by
  cases ts with
  | nil => simp
  | cons t ts =>
      by_cases ht : ∃ letters, t = .word letters
      · obtain ⟨letters, rfl⟩ := ht
        rw [spellOut_word]
        split <;> simp_all
      · simp [spellOut_cons fun letters hl => ht ⟨letters, hl⟩]

/-- Away from a parenthesis the first letter of a word is a token of its own. -/
lemma spellOut_letters (c d : Char) (letters : List Char) {ts : List Token}
    (h : ∀ us, ts ≠ .leftParen :: us) :
    spellOut (.word (c :: d :: letters) :: ts) =
      .word [c] :: spellOut (.word (d :: letters) :: ts) := by
  have hhead : ts.head? ≠ some .leftParen := by
    cases ts with
    | nil => simp
    | cons t us =>
        intro ht
        exact h us (by simpa using ht)
  simp [spellOut_word, hhead]

/-- A token other than a word comes from itself. -/
lemma eq_cons_of_spellOut {t : Token} (ht : ∀ letters, t ≠ .word letters) {ts us : List Token}
    (h : spellOut ts = t :: us) : ∃ ts', ts = t :: ts' ∧ spellOut ts' = us := by
  cases ts with
  | nil => simp at h
  | cons s ts' =>
      by_cases hs : ∃ letters, s = .word letters
      · obtain ⟨letters, rfl⟩ := hs
        -- a word leaves a word in front, whether it is kept or taken apart
        exfalso
        rw [spellOut_word] at h
        split at h
        · rw [List.cons.injEq] at h
          exact ht letters h.1.symm
        · cases letters with
          | nil => simp_all
          | cons c letters =>
              rw [List.map_cons, List.cons_append, List.cons.injEq] at h
              exact ht [c] h.1.symm
      · have hs' : ∀ letters, s ≠ .word letters := fun letters hl => hs ⟨letters, hl⟩
        rw [spellOut_cons hs', List.cons.injEq] at h
        exact ⟨ts', by rw [h.1], h.2⟩

/-- A letter comes from a word that is no name: from its only letter, or from the first of
several. -/
lemma eq_word_of_spellOut_letter {c : Char} {ts us : List Token}
    (h : spellOut ts = .word [c] :: us) :
    (∃ ts', ts = .word [c] :: ts' ∧ spellOut ts' = us) ∨
      ∃ d letters ts', ts = .word (c :: d :: letters) :: ts' ∧ (∀ vs, ts' ≠ .leftParen :: vs) ∧
        spellOut (.word (d :: letters) :: ts') = us := by
  cases ts with
  | nil => simp at h
  | cons s ts' =>
      by_cases hs : ∃ letters, s = .word letters
      · obtain ⟨letters, rfl⟩ := hs
        match letters with
        | [] => simp at h
        | [d] =>
            left
            simp only [spellOut_letter, List.cons.injEq, Token.word.injEq, and_true] at h
            exact ⟨ts', by rw [h.1], h.2⟩
        | d :: d' :: letters =>
            right
            have hts : ∀ vs, ts' ≠ .leftParen :: vs := by
              rintro vs rfl
              simp at h
            rw [spellOut_letters d d' letters hts] at h
            simp only [List.cons.injEq, Token.word.injEq, and_true] at h
            exact ⟨d', letters, ts', by rw [h.1], hts, h.2⟩
      · have hs' : ∀ letters, s ≠ .word letters := fun letters hl => hs ⟨letters, hl⟩
        rw [spellOut_cons hs', List.cons.injEq] at h
        exact absurd h.1 (hs' [c])

/-- A word of two or more letters comes from itself. -/
lemma eq_word_of_spellOut_name {c d : Char} {letters : List Char} {ts us : List Token}
    (h : spellOut ts = .word (c :: d :: letters) :: us) :
    ∃ ts', ts = .word (c :: d :: letters) :: ts' ∧ spellOut ts' = us := by
  cases ts with
  | nil => simp at h
  | cons s ts' =>
      by_cases hs : ∃ letters, s = .word letters
      · obtain ⟨letters', rfl⟩ := hs
        rw [spellOut_word] at h
        split at h
        · simp only [List.cons.injEq, Token.word.injEq] at h
          exact ⟨ts', by rw [h.1], h.2⟩
        · cases letters' with
          | nil => simp_all
          | cons c' letters' => simp at h
      · have hs' : ∀ letters, s ≠ .word letters := fun letters hl => hs ⟨letters, hl⟩
        rw [spellOut_cons hs', List.cons.injEq] at h
        exact absurd h.1 (hs' _)

/-- Taking words apart does not change where a factor can begin. -/
@[simp] lemma startsOperand_spellOut (ts : List Token) :
    Phrase.startsOperand (spellOut ts) = Phrase.startsOperand ts := by
  cases ts with
  | nil => rfl
  | cons t ts =>
      by_cases ht : ∃ letters, t = .word letters
      · obtain ⟨letters, rfl⟩ := ht
        rw [spellOut_word]
        split
        · rfl
        · cases letters with
          | nil => simp_all
          | cons c letters => rfl
      · rw [spellOut_cons fun letters hl => ht ⟨letters, hl⟩]
        cases t <;> rfl

lemma startsOperand_append {us : List Token} (h : us ≠ []) (vs : List Token) :
    Phrase.startsOperand (us ++ vs) = Phrase.startsOperand us := by
  cases us with
  | nil => exact absurd rfl h
  | cons t us => cases t <;> rfl

end Token

/-! ## Categories and their parts -/

/-- The syntactic categories, those of tighter phrases first. -/
inductive Category
  /-- A numeral, an identifier, a call, a group in parentheses or between bars. -/
  | operand
  /-- An operand with any number of factorial signs. -/
  | factorial
  /-- A base, perhaps with an exponent. -/
  | power
  /-- A power under any number of plus and minus signs. -/
  | exponent
  /-- Powers side by side. -/
  | juxtaposition
  /-- A product without signs, under any number of plus and minus signs. -/
  | signed
  /-- Signed factors between multiplication and division signs. -/
  | product
  /-- Products between plus and minus signs. -/
  | sum
  /-- Sums between relation symbols. -/
  | relation
deriving DecidableEq

/-- The place of a category among all, from tight to loose. -/
def Category.rank : Category → ℕ
  | .operand => 0
  | .factorial => 1
  | .power => 2
  | .exponent => 3
  | .juxtaposition => 4
  | .signed => 5
  | .product => 6
  | .sum => 7
  | .relation => 8

/-- A stretch of tokens, and the expression it stands for. -/
structure Part where
  tokens : List Token
  expr : Expr

/-- The signs between the terms of a sum. -/
inductive TermSign
  | plus
  | minus

namespace TermSign

def token : TermSign → Token
  | .plus => .plus
  | .minus => .minus

@[simp] lemma token_ne_word (sign : TermSign) (letters : List Char) :
    sign.token ≠ .word letters := by
  cases sign <;> simp [token]

/-- The term that an expression is behind a sign: a subtraction adds the negated subtrahend. -/
def term : TermSign → Expr → Expr
  | .plus, e => e
  | .minus, e => .neg e { subtracted := true }

end TermSign

/-- The signs between the factors of a product. -/
inductive FactorSign
  | times
  | slash

namespace FactorSign

def token : FactorSign → Token
  | .times => .times
  | .slash => .slash

@[simp] lemma token_ne_word (sign : FactorSign) (letters : List Char) :
    sign.token ≠ .word letters := by
  cases sign <;> simp [token]

/-- The factors after one more of them.  A division takes all factors so far for its numerator. -/
def extend (factors : List Expr) : FactorSign → Expr → List Expr
  | .times, e => factors ++ [e]
  | .slash, e => [.div (.gather .mul factors) e]

end FactorSign

/-- The tokens of parts that follow a first one, each behind its sign. -/
def linked {σ : Type} (sign : σ → Token) (links : List (σ × Part)) : List Token :=
  links.flatMap fun link => sign link.1 :: link.2.tokens

@[simp] lemma linked_nil {σ : Type} (sign : σ → Token) : linked sign [] = [] := rfl

@[simp] lemma linked_cons {σ : Type} (sign : σ → Token) (s : σ) (p : Part)
    (links : List (σ × Part)) :
    linked sign ((s, p) :: links) = sign s :: p.tokens ++ linked sign links := rfl

lemma mem_linked {σ : Type} {sign : σ → Token} {links : List (σ × Part)} {l : σ × Part}
    (hl : l ∈ links) {t : Token} (ht : t ∈ l.2.tokens) : t ∈ linked sign links :=
  List.mem_flatMap.mpr ⟨l, hl, List.mem_cons_of_mem _ ht⟩

/-- Stretches of tokens with `separator` between any two of them. -/
def Token.separate (separator : Token) : List (List Token) → List Token
  | [] => []
  | us :: uss => us ++ uss.flatMap (separator :: ·)

lemma Token.mem_separate (separator : Token) {t : Token} {uss : List (List Token)}
    {us : List Token} (hus : us ∈ uss) (ht : t ∈ us) : t ∈ separate separator uss := by
  cases uss with
  | nil => simp at hus
  | cons vs uss =>
      rcases List.mem_cons.mp hus with rfl | hus
      · exact List.mem_append_left _ ht
      · exact List.mem_append_right _ (List.mem_flatMap.mpr ⟨us, hus, List.mem_cons_of_mem _ ht⟩)

@[simp] lemma Expr.gather_single (join : List Expr → Expr) (e : Expr) :
    Expr.gather join [e] = e := rfl

/-- Two operands or more are joined. -/
lemma Expr.gather_of_two_le {join : List Expr → Expr} {es : List Expr} (h : 2 ≤ es.length) :
    Expr.gather join es = join es := by
  match es, h with
  | _ :: _ :: _, _ => rfl

@[simp] lemma RelationChain.toExpr_single (e : Expr) : (single e).toExpr = e := rfl

/-! ## The grammar -/

/-- `Derives n ts e`: the tokens `ts`, from the first to the last, are a phrase of the category `n`
and stand for `e`. -/
inductive Derives : Category → List Token → Expr → Prop
  | number (numeral : String) : Derives .operand [.number numeral] (.number numeral)
  | letter (c : Char) : Derives .operand [.word [c]] (.var (String.singleton c))
  | subscript (c : Char) {ts : List Token} {e : Expr} : Derives .operand ts e →
      Derives .operand (.word [c] :: .underscore :: ts) (.identifier (String.singleton c) (some e))
  | call (c d : Char) (letters : List Char) (args : List Part) :
      (∀ arg ∈ args, Derives .relation arg.tokens arg.expr) →
      Derives .operand
        (.word (c :: d :: letters) :: .leftParen ::
          Token.separate .comma (args.map Part.tokens) ++ [.rightParen])
        (Phrase.callOf (String.ofList (c :: d :: letters)) (args.map Part.expr))
  | parens {ts : List Token} {e : Expr} : Derives .relation ts e →
      Derives .operand (.leftParen :: ts ++ [.rightParen]) (.parens e)
  | bars {ts : List Token} {e : Expr} : Derives .relation ts e →
      Derives .operand (.bar :: ts ++ [.bar]) (.abs e)
  | factorial {ts : List Token} {e : Expr} (n : ℕ) : Derives .operand ts e →
      Derives .factorial (ts ++ List.replicate n .bang) (Expr.fact^[n] e)
  | base {ts : List Token} {e : Expr} : Derives .factorial ts e → Derives .power ts e
  | power {ts us : List Token} {b x : Expr} : Derives .factorial ts b → Derives .exponent us x →
      Derives .power (ts ++ .caret :: us) (.pow b x)
  | exponent {ts : List Token} {e : Expr} : Derives .power ts e → Derives .exponent ts e
  | negExponent {ts : List Token} {e : Expr} : Derives .exponent ts e →
      Derives .exponent (.minus :: ts) (.neg e)
  | posExponent {ts : List Token} {e : Expr} : Derives .exponent ts e →
      Derives .exponent (.plus :: ts) (.pos e)
  | juxtaposition {ts : List Token} {e : Expr} (others : List Part) : Derives .power ts e →
      (∀ p ∈ others, Derives .power p.tokens p.expr) →
      (∀ p ∈ others, Phrase.startsOperand p.tokens = true) →
      Derives .juxtaposition (ts ++ others.flatMap Part.tokens)
        (.gather .juxtapose (e :: others.map Part.expr))
  | unsigned {ts : List Token} {e : Expr} : Derives .juxtaposition ts e → Derives .signed ts e
  | neg {ts : List Token} {e : Expr} : Derives .signed ts e →
      Derives .signed (.minus :: ts) (.neg e.unparenthesized)
  | pos {ts : List Token} {e : Expr} : Derives .signed ts e →
      Derives .signed (.plus :: ts) (.pos e.unparenthesized)
  | product {ts : List Token} {e : Expr} (links : List (FactorSign × Part)) :
      Derives .signed ts e → (∀ l ∈ links, Derives .signed l.2.tokens l.2.expr) →
      Derives .product (ts ++ linked FactorSign.token links)
        (.gather .mul (links.foldl (fun factors l => l.1.extend factors l.2.expr) [e]))
  | sum {ts : List Token} {e : Expr} (links : List (TermSign × Part)) :
      Derives .product ts e → (∀ l ∈ links, Derives .product l.2.tokens l.2.expr) →
      Derives .sum (ts ++ linked TermSign.token links)
        (.gather .add (e :: links.map fun l => l.1.term l.2.expr))
  | relation {ts : List Token} {e : Expr} (links : List (String × Part)) :
      Derives .sum ts e → (∀ l ∈ links, Derives .sum l.2.tokens l.2.expr) →
      Derives .relation (ts ++ linked Token.relation links)
        (links.foldl (fun chain l => RelationChain.extend chain l.1 l.2.expr) (.single e)).toExpr

namespace Derives

variable {m n : Category} {ts us : List Token} {e : Expr}

/-- No phrase is empty. -/
lemma ne_nil (h : Derives n ts e) : ts ≠ [] := by
  induction h <;> simp_all

lemma toFactorial (h : Derives .operand ts e) : Derives .factorial ts e := by
  simpa using factorial 0 h

lemma toJuxtaposition (h : Derives .power ts e) : Derives .juxtaposition ts e := by
  simpa using juxtaposition [] h (by simp) (by simp)

lemma toProduct (h : Derives .signed ts e) : Derives .product ts e := by
  simpa using product [] h (by simp)

lemma toSum (h : Derives .product ts e) : Derives .sum ts e := by
  simpa using sum [] h (by simp)

lemma toRelation (h : Derives .sum ts e) : Derives .relation ts e := by
  simpa using relation [] h (by simp)

/-- A phrase with one more factorial sign. -/
lemma fact (h : Derives .factorial ts e) : Derives .factorial (ts ++ [.bang]) (.fact e) := by
  cases h with
  | factorial n h =>
      rw [List.append_assoc, ← List.replicate_succ', ← Function.iterate_succ_apply' Expr.fact]
      exact factorial (n + 1) h

/-- A product that is divided by one more factor. -/
lemma divide {a : Expr} (h : Derives .product ts e) (h' : Derives .signed us a) :
    Derives .product (ts ++ .slash :: us) (.div e a) := by
  cases h with
  | product links hfirst hlinks =>
      have := product (links ++ [(.slash, ⟨us, a⟩)]) hfirst
        (List.forall_mem_append.mpr ⟨hlinks, List.forall_mem_singleton.mpr h'⟩)
      simpa [linked, FactorSign.extend, FactorSign.token] using this

/-- An operand, or a power, is a phrase of every looser category.  Exponents are left out, since
their signs would have to stand outside of a juxtaposition. -/
theorem loosen (h : Derives m ts e) (hm : m ≠ .exponent) (hmn : m.rank ≤ n.rank) :
    Derives n ts e := by
  have power : m.rank ≤ 2 → Derives .power ts e := by
    intro hle
    cases m with
    | operand => exact .base (toFactorial h)
    | factorial => exact .base h
    | power => exact h
    | _ => simp [Category.rank] at hle
  have signed : m.rank ≤ 5 → Derives .signed ts e := by
    intro hle
    cases m with
    | operand | factorial | power => exact .unsigned (toJuxtaposition (power (by decide)))
    | exponent => exact absurd rfl hm
    | juxtaposition => exact .unsigned h
    | signed => exact h
    | _ => simp [Category.rank] at hle
  have sum : m.rank ≤ 7 → Derives .sum ts e := by
    intro hle
    cases m with
    | product => exact toSum h
    | sum => exact h
    | relation => simp [Category.rank] at hle
    | _ => exact toSum (toProduct (signed (by decide)))
  cases n with
  | operand => cases m <;> simp_all [Category.rank]
  | factorial => cases m <;> simp_all [Category.rank, toFactorial]
  | power => exact power hmn
  | exponent => exact .exponent (power (by cases m <;> simp_all [Category.rank]))
  | juxtaposition =>
      cases m with
      | juxtaposition => exact h
      | operand | factorial | power => exact toJuxtaposition (power (by decide))
      | _ => simp_all [Category.rank]
  | signed => exact signed hmn
  | product =>
      cases m with
      | product => exact h
      | sum | relation => simp [Category.rank] at hmn
      | _ => exact toProduct (signed (by decide))
  | sum => exact sum hmn
  | relation =>
      cases m with
      | relation => exact h
      | _ => exact toRelation (sum (by decide))

end Derives

end MathExpr
