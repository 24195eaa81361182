import MathExpr.Proofs.Printing.Fusion
import MathExpr.Proofs.Printing.Tokens

/-!
# The layout of printed text

In any style printed text has the tokens of its expression, one after the other, with a blank here
and there.  Whether the blanks keep the tokens apart is decided place by place: the places where
they may not are named here, and everywhere else they do.

* `Laid` — a text that is tokens with gaps, and a condition for the gaps to keep them apart.
* `Laid.attach`, `Laid.separate` and their neighbours — how such texts are put together.
-/

namespace MathExpr

open Token Lexeme

namespace Lexeme

/-- Lexemes behind `n` blanks. -/
def behind (n : ℕ) : List Lexeme → List Lexeme
  | [] => []
  | l :: ls => { l with gap := n + l.gap } :: ls

/-- No word runs into another one. -/
def NoRuns (ls : List Lexeme) : Prop :=
  ls.IsChain fun l l' =>
    ∀ letters letters', l.token = .word letters → l'.token = .word letters' → l'.gap ≠ 0

variable {ls ms : List Lexeme}

lemma text_append : ∀ ls ms : List Lexeme, text (ls ++ ms) = text ls ++ text ms
  | [], _ => rfl
  | l :: ls, ms => by
      rw [List.cons_append, text, text, text_append ls ms]
      simp only [List.append_assoc]

lemma text_behind (n : ℕ) (hne : ls ≠ []) :
    text (behind n ls) = List.replicate n ' ' ++ text ls := by
  cases ls with
  | nil => exact absurd rfl hne
  | cons l ls => simp only [behind, text, List.replicate_add, List.append_assoc]

lemma map_token_behind (n : ℕ) (ls : List Lexeme) : (behind n ls).map token = ls.map token := by
  cases ls <;> rfl

lemma apart_behind (n : ℕ) (ls : List Lexeme) : Apart (behind n ls) ↔ Apart ls := by
  cases ls <;> rfl

lemma names_behind (n : ℕ) (ls : List Lexeme) : names (behind n ls) = names ls := by
  match ls with
  | [] => rfl
  | [⟨_, t⟩] | ⟨_, t⟩ :: _ :: _ => cases t <;> rfl

/-- A text behind a token with `n` blanks between them. -/
lemma clashes_behind {t : Token} {m : Lexeme} (hgap : m.gap = 0) {n : ℕ} :
    Clashes t (behind n (m :: ms)) ↔
      n = 0 ∧ t.meets m.token = true ∧
        ((∃ letters, t = .word letters) → names (m :: ms) = true) := by
  rw [Clashes, names_behind]
  simp [behind, adjoins, hgap, and_assoc]

lemma NoRuns.behind (h : NoRuns ls) (n : ℕ) : NoRuns (behind n ls) := by
  match ls, h with
  | [], _ => exact .nil
  | [_], _ => exact .singleton _
  | _ :: _ :: _, h => exact List.isChain_cons_cons.mpr (List.isChain_cons_cons.mp h)

/-- Letters at the end are not in a run. -/
lemma NoRuns.looseEnd (h : NoRuns ls) : LooseEnd ls := by
  rintro ls' l letters letters' rfl hl hlast hgap
  obtain ⟨ks, hks⟩ := List.getLast?_eq_some_iff.mp hlast
  obtain ⟨ls'', ks', rfl, -, hk⟩ := List.map_eq_append_iff.mp hks
  obtain ⟨k, rfl, hk'⟩ := List.map_eq_singleton_iff.mp hk
  obtain ⟨-, -, hchain⟩ := List.isChain_append.mp h
  exact hchain k (by simp) l rfl letters' letters hk' hl hgap

end Lexeme

/-- The lexemes `ls` have the text `cs` and the tokens `ts`, and are kept apart exactly if `apart`
holds.  In text with spaced factors no letters are side by side. -/
structure Lays (spaced : Bool) (ls : List Lexeme) (cs : List Char) (ts : List Token)
    (apart : Prop) : Prop where
  text_eq : text ls = cs
  tokens_eq : ls.map token = ts
  gap_eq : ∀ l ∈ ls.head?, l.gap = 0
  legible : ∀ t ∈ ts, t.Legible
  letter : ∀ letters, ts.getLast? = some (.word letters) → ∃ c, letters = [c]
  noRuns : spaced = true → NoRuns ls
  apart_iff : Apart ls ↔ apart

/-- The text `cs` is the tokens `ts` with gaps that keep them apart exactly if `apart` holds. -/
def Laid (spaced : Bool) (cs : List Char) (ts : List Token) (apart : Prop) : Prop :=
  ∃ ls, Lays spaced ls cs ts apart

/-- The last of some tokens runs into the first of others. -/
def Touches (ts us : List Token) : Prop :=
  ∃ t ∈ ts.getLast?, ∃ u ∈ us.head?, t.meets u = true

namespace Lays

variable {spaced : Bool} {ls ms : List Lexeme} {cs ds : List Char} {ts us : List Token}
  {p q r : Prop}

lemma ne_nil (h : Lays spaced ls cs ts p) (hts : ts ≠ []) : ls ≠ [] := by
  rintro rfl
  exact hts h.tokens_eq.symm

lemma last?_eq (h : Lays spaced ls cs ts p) : last? ls = ts.getLast? := by
  rw [last?, h.tokens_eq]

/-- Two pieces of text with `n` blanks between them. -/
lemma append (h : Lays spaced ls cs ts p) (n : ℕ) (h' : Lays spaced ms ds us q) (hts : ts ≠ [])
    (hus : us ≠ [])
    (hspaced : spaced = true → ∀ letters letters', ts.getLast? = some (.word letters) →
      us.head? = some (.word letters') → n ≠ 0)
    (hapart : Apart (ls ++ behind n ms) ↔ r) :
    Lays spaced (ls ++ behind n ms) (cs ++ (List.replicate n ' ' ++ ds)) (ts ++ us) r where
  text_eq := by
    rw [text_append, text_behind n (h'.ne_nil hus), h.text_eq, h'.text_eq]
  tokens_eq := by rw [List.map_append, map_token_behind, h.tokens_eq, h'.tokens_eq]
  gap_eq := by
    rw [List.head?_append_of_ne_nil _ (h.ne_nil hts)]
    exact h.gap_eq
  legible := List.forall_mem_append.mpr ⟨h.legible, h'.legible⟩
  letter := by
    rw [List.getLast?_append_of_ne_nil _ hus]
    exact h'.letter
  noRuns := by
    intro hs
    refine List.isChain_append.mpr ⟨h.noRuns hs, (h'.noRuns hs).behind n, ?_⟩
    intro l hl m hm letters letters' hletters hletters' hgap
    have hlast : ts.getLast? = some (.word letters) := by
      rw [← h.tokens_eq, List.getLast?_map, hl, Option.map_some, hletters]
    have hhead : us.head? = some (.word letters') := by
      rw [← h'.tokens_eq, ← map_token_behind n ms, List.head?_map, hm, Option.map_some, hletters']
    have hn := hspaced hs letters letters' hlast hhead
    cases ms with
    | nil => cases hm
    | cons m' ms =>
        cases hm
        simp at hgap
        omega
  apart_iff := hapart

/-- Two pieces of text are kept apart if both are and the last token of the first does not clash
with the second.  No parenthesis follows letters here. -/
lemma apart_append_iff (h : Lays spaced ls cs ts p) (n : ℕ) (h' : Lays spaced ms ds us q)
    (hus : us ≠ [])
    (hparen : ∀ letters, ts.getLast? = some (.word letters) → us.head? ≠ some .leftParen) :
    Apart (ls ++ behind n ms) ↔ (p ∧ q) ∧ ¬ ∃ t ∈ ts.getLast?, Clashes t (behind n ms) := by
  obtain ⟨m, ms, rfl⟩ := List.exists_cons_of_ne_nil (h'.ne_nil hus)
  have hhead : us.head? = some m.token := by rw [← h'.tokens_eq]; rfl
  have happend : Apart (ls ++ behind n (m :: ms)) ↔ Apart ls ∧ Apart (behind n (m :: ms)) ∧
      ∀ t ∈ last? ls, ¬ Clashes t (behind n (m :: ms)) := by
    refine apart_append ?_
    rintro ⟨letters, hl⟩
    rw [h.last?_eq] at hl
    simpa [hhead] using hparen letters hl
  rw [happend, apart_behind, h.apart_iff, h'.apart_iff, h.last?_eq, and_assoc]
  simp only [not_exists, not_and]

/-- Where letters follow letters behind a blank only, all that run together clash. -/
lemma clashes_iff_touches (h : Lays spaced ms ds us q) (hus : us ≠ []) {n : ℕ}
    (hword : ∀ letters letters', ts.getLast? = some (.word letters) →
      us.head? = some (.word letters') → n ≠ 0) :
    (∃ t ∈ ts.getLast?, Clashes t (behind n ms)) ↔ n = 0 ∧ Touches ts us := by
  obtain ⟨m, ms, rfl⟩ := List.exists_cons_of_ne_nil (h.ne_nil hus)
  have hhead : us.head? = some m.token := by rw [← h.tokens_eq]; rfl
  simp only [clashes_behind (h.gap_eq m rfl), Touches, hhead]
  constructor
  · rintro ⟨t, ht, hn, hmeets, -⟩
    exact ⟨hn, t, ht, _, rfl, hmeets⟩
  · rintro ⟨hn, t, ht, u, hu, hmeets⟩
    obtain rfl : m.token = u := by simpa using hu
    refine ⟨t, ht, hn, hmeets, ?_⟩
    rintro ⟨letters, rfl⟩
    -- letters run into letters only, and those are behind a blank
    cases hm : m.token with
    | word letters' => exact absurd hn (hword letters letters' ht (hm ▸ hhead))
    | _ => simp [hm, meets] at hmeets

end Lays

/-- Signs other than relations have one spelling. -/
lemma Token.legible_of_sign {t : Token} (hsign : t.counts = false)
    (hrelation : ∀ symbol, t ≠ .relation symbol) : t.Legible := by
  refine ⟨?_, fun symbol hl => absurd hl (hrelation symbol)⟩
  cases t <;> trivial

namespace Laid

variable {spaced : Bool} {cs ds : List Char} {ts us : List Token} {t u : Token} {p q : Prop}

lemma congr (h : Laid spaced cs ts p) (hpq : p ↔ q) : Laid spaced cs ts q := by
  obtain ⟨ls, hls⟩ := h
  exact ⟨ls, { hls with apart_iff := hls.apart_iff.trans hpq }⟩

lemma nil : Laid spaced [] [] True :=
  ⟨[], rfl, rfl, by simp, by simp, by simp, fun _ => .nil, Iff.rfl⟩

lemma single (h : t.Legible) (hletter : ∀ letters, t = .word letters → ∃ c, letters = [c]) :
    Laid spaced t.spelling [t] True :=
  ⟨[⟨0, t⟩], by simp [text], rfl, by simp, by simpa using h, by simpa using hletter,
    fun _ => .singleton _, by simp [Apart]⟩

/-- Two pieces of text with `n` blanks between them.  A parenthesis does not follow letters here,
and letters follow letters behind a blank only. -/
lemma glue (h : Laid spaced cs ts p) (n : ℕ) (h' : Laid spaced ds us q) (hts : ts ≠ [])
    (hus : us ≠ [])
    (hword : ∀ letters, ts.getLast? = some (.word letters) → us.head? ≠ some .leftParen ∧
      ∀ letters', us.head? = some (.word letters') → n ≠ 0) :
    Laid spaced (cs ++ (List.replicate n ' ' ++ ds)) (ts ++ us)
      ((p ∧ q) ∧ ¬ (n = 0 ∧ Touches ts us)) := by
  obtain ⟨ls, h⟩ := h
  obtain ⟨ms, h'⟩ := h'
  have hblank : ∀ letters letters', ts.getLast? = some (.word letters) →
      us.head? = some (.word letters') → n ≠ 0 := fun letters letters' hl hl' =>
    (hword letters hl).2 letters' hl'
  refine ⟨_, h.append n h' hts hus (fun _ => hblank) ?_⟩
  rw [h.apart_append_iff n h' hus fun letters hl => (hword letters hl).1,
    h'.clashes_iff_touches hus hblank]

/-- A sign or a parenthesis in front of a text, perhaps with blanks behind it. -/
lemma cons (ht : t.Legible) (hsign : t.counts = false) (n : ℕ) (h : Laid spaced cs ts p)
    (hts : ts = [] → n = 0) :
    Laid spaced (t.spelling ++ (List.replicate n ' ' ++ cs)) (t :: ts) p := by
  have hword : ∀ letters, t ≠ .word letters := by
    rintro letters rfl
    cases hsign
  have hsingle : Laid spaced t.spelling [t] True :=
    single ht fun letters hl => absurd hl (hword letters)
  cases ts with
  | nil =>
      obtain ⟨ls, h⟩ := h
      obtain rfl := List.map_eq_nil_iff.mp h.tokens_eq
      rw [hts rfl, ← h.text_eq, text, List.append_nil, List.replicate_zero, List.append_nil]
      exact hsingle.congr h.apart_iff
  | cons u us =>
      have hmeets : ∀ u, t.meets u = false := fun u => by
        cases t <;> first | rfl | cases hsign
      refine (hsingle.glue n h (by simp) (by simp) fun letters hl => ?_).congr
        (by simp [Touches, hmeets])
      exact absurd (by simpa using hl) (hword letters)

lemma consSign (hsign : t.counts = false) (hrelation : ∀ symbol, t ≠ .relation symbol)
    (h : Laid spaced cs ts p) : Laid spaced (t.spelling ++ cs) (t :: ts) p :=
  h.cons (legible_of_sign hsign hrelation) hsign 0 fun _ => rfl

/-- A sign behind a text, with more text behind it. -/
lemma attach (h : Laid spaced cs ts p) (n : ℕ) (hu : u.counts = false) (hparen : u ≠ .leftParen)
    (hts : ts ≠ []) (h' : Laid spaced ds (u :: us) q) :
    Laid spaced (cs ++ (List.replicate n ' ' ++ ds)) (ts ++ u :: us)
      ((p ∧ q) ∧ ¬ (n = 0 ∧ Touches ts [u])) := by
  refine (h.glue n h' hts (by simp) fun letters _ =>
    ⟨by simpa using hparen, fun letters' hl => ?_⟩).congr (by simp [Touches])
  obtain rfl : u = .word letters' := by simpa using hl
  cases hu

/-- Only a relation follows a token that would run into it. -/
lemma not_touches (hu : u.counts = false) (hrelation : ∀ symbol, u ≠ .relation symbol) :
    ¬ Touches ts [u] := by
  rintro ⟨t, -, u', hu', hmeets⟩
  obtain rfl : u = u' := by simpa using hu'
  cases t <;> cases u <;> simp_all [counts, meets]

/-- A sign that is no relation behind a text, and more text behind it. -/
lemma attachSign (h : Laid spaced cs ts p) (n : ℕ) (hu : u.counts = false) (hparen : u ≠ .leftParen)
    (hrelation : ∀ symbol, u ≠ .relation symbol) (hts : ts ≠ []) (h' : Laid spaced ds (u :: us) q) :
    Laid spaced (cs ++ (List.replicate n ' ' ++ ds)) (ts ++ u :: us) (p ∧ q) :=
  (h.attach n hu hparen hts h').congr
    (and_iff_left fun htouches => not_touches hu hrelation htouches.2)

lemma parenthesize (h : Laid spaced cs ts p) :
    Laid spaced (Style.parenthesize cs) (.leftParen :: ts ++ [.rightParen]) p := by
  have hclose : Laid spaced [')'] [.rightParen] True :=
    single (t := .rightParen) (legible_of_sign rfl (by simp)) (by simp)
  have hopen : Laid spaced ('(' :: cs) (.leftParen :: ts) p :=
    h.consSign (t := .leftParen) rfl (by simp)
  exact (hopen.attachSign 0 rfl (by simp) (by simp) (by simp) hclose).congr (by simp)

section Lists

variable {α : Type} {f : α → List Char} {g : α → List Token} {r : α → Prop}

/-- Texts with a sign between any two of them. -/
lemma separate (n m : ℕ) (ht : t.Legible) (hsign : t.counts = false) (hparen : t ≠ .leftParen) :
    ∀ as : List α, (∀ a ∈ as, Laid spaced (f a) (g a) (r a)) → (∀ a ∈ as, g a ≠ []) →
      Laid spaced (Style.join (List.replicate n ' ' ++ (t.spelling ++ List.replicate m ' '))
        (as.map f)) (Token.separate t (as.map g))
        ((∀ a ∈ as, r a) ∧ ∀ a ∈ as.dropLast, ¬ (n = 0 ∧ Touches (g a) [t]))
  | [], _, _ => nil.congr (by simp)
  | [a], h, _ => by
      have := h a (by simp)
      simpa [Style.join, Token.separate] using this
  | a :: b :: as, h, hne => by
      obtain ⟨ha, h⟩ := List.forall_mem_cons.mp h
      obtain ⟨hgne, hne⟩ := List.forall_mem_cons.mp hne
      have hrest := separate n m ht hsign hparen (b :: as) h hne
      have hrestne : Token.separate t ((b :: as).map g) ≠ [] := by
        simp [Token.separate, hne b]
      have := ha.attach n hsign hparen hgne (hrest.cons ht hsign m fun hnil => absurd hnil hrestne)
      simp only [Style.join, List.map_cons, List.append_assoc, Token.separate, List.flatMap_cons,
        List.cons_append, List.forall_mem_cons, List.dropLast_cons_cons] at this ⊢
      exact this.congr (by tauto)

/-- Arguments in parentheses. -/
lemma arguments (as : List α) (h : ∀ a ∈ as, Laid spaced (f a) (g a) (r a))
    (hne : ∀ a ∈ as, g a ≠ []) :
    Laid spaced (Style.arguments (as.map f))
      (.leftParen :: Token.separate .comma (as.map g) ++ [.rightParen]) (∀ a ∈ as, r a) := by
  have hcomma : Token.comma.Legible := legible_of_sign rfl (by simp)
  refine (separate 0 1 hcomma rfl (by simp) as h hne).parenthesize.congr ?_
  exact and_iff_left fun a _ hclash => not_touches rfl (by simp) hclash.2

/-- Terms behind a first one, each with its sign between blanks. -/
lemma terms (n : ℕ) : ∀ (links : List (TermSign × α)) {cs : List Char} {ts : List Token} {p : Prop},
    Laid spaced cs ts p → ts ≠ [] → (∀ l ∈ links, Laid spaced (f l.2) (g l.2) (r l.2)) →
    (∀ l ∈ links, g l.2 ≠ []) →
    Laid spaced
      (cs ++ links.flatMap fun l => List.replicate n ' ' ++
        (l.1.token.spelling ++ (List.replicate n ' ' ++ f l.2)))
      (ts ++ links.flatMap fun l => l.1.token :: g l.2) (p ∧ ∀ l ∈ links, r l.2)
  | [], cs, ts, p, h, _, _, _ => by simpa using h
  | (sign, a) :: links, cs, ts, p, h, hts, hlinks, hne => by
      obtain ⟨ha, hlinks⟩ := List.forall_mem_cons.mp hlinks
      obtain ⟨hane, hne⟩ := List.forall_mem_cons.mp hne
      have hsign : sign.token.counts = false ∧ sign.token ≠ .leftParen ∧
          ∀ symbol, sign.token ≠ .relation symbol := by
        cases sign <;> simp [TermSign.token, counts]
      obtain ⟨hcounts, hparen, hrelation⟩ := hsign
      have hterm := ha.cons (legible_of_sign hcounts hrelation) hcounts n
        fun hnil => absurd hnil hane
      have hfirst := h.attachSign n hcounts hparen hrelation hts hterm
      have := terms n links hfirst (by simp) hlinks hne
      simp only [List.flatMap_cons, List.append_assoc, List.cons_append,
        List.forall_mem_cons] at this ⊢
      exact this.congr and_assoc

end Lists

/-- The name of a function. -/
lemma call {letters : List Char} (hletters : IsWord letters)
    (h : Laid spaced cs (.leftParen :: ts) p) :
    Laid spaced (letters ++ cs) (.word letters :: .leftParen :: ts) p := by
  obtain ⟨ls, h⟩ := h
  obtain ⟨l, ls', rfl, hl, hls⟩ := List.map_eq_cons_iff.mp h.tokens_eq
  have hclash : ¬ Clashes (.word letters) (l :: ls') := fun hclash => by
    simpa [adjoins, hl, meets] using hclash.1
  refine ⟨⟨0, .word letters⟩ :: l :: ls', ?_, ?_, by simp, ?_, ?_, fun hs => ?_, ?_⟩
  · rw [text, h.text_eq]
    rfl
  · rw [List.map_cons, h.tokens_eq]
  · refine List.forall_mem_cons.mpr ⟨⟨hletters, by simp⟩, h.legible⟩
  · exact h.letter
  · exact List.isChain_cons_cons.mpr ⟨fun _ _ _ hl' => by simp [hl] at hl', h.noRuns hs⟩
  · rw [← h.apart_iff]
    exact and_iff_right hclash

end Laid

end MathExpr
