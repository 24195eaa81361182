import MathExpr.Proofs.Grammar.Completeness
import MathExpr.Proofs.Printing.Gaps

/-!
# Tokens that run together

Letters may run together to a word, since it is taken apart again, but not if a parenthesis makes
that word a name.  Numerals may not run together, nor may a factorial sign and an equality sign.
Where none of this happens, a text has the tokens that it was made of; where it does, it has fewer
that stand for anything.

* `Lexeme.Apart` — the gaps keep all tokens apart that have to be.
* `Token.counts` — the tokens that can run into others, each of which stands for a part of a tree.
* **`Lexeme.scan_spec`** — what is scanned, depending on the gaps.
* `Lexeme.apart_append`, `Lexeme.apart_append_leftParen` — gaps between two pieces of text.
-/

namespace MathExpr

open Token

namespace Lexeme

/-- The text begins with a run of letters, and a parenthesis follows. -/
def names : List Lexeme → Bool
  | ⟨_, .word _⟩ :: l :: ls => l.token = .leftParen || (l.gap = 0 && names (l :: ls))
  | _ => false

/-- A token runs into those behind it, and cannot be told from them any more. -/
def Clashes (t : Token) (ls : List Lexeme) : Prop :=
  adjoins t ls = true ∧ ((∃ letters, t = .word letters) → names ls = true)

@[simp] lemma not_clashes_nil (t : Token) : ¬ Clashes t [] := by
  simp [Clashes, adjoins]

/-- The gaps keep all tokens apart. -/
def Apart : List Lexeme → Prop
  | [] => True
  | l :: ls => ¬ Clashes l.token ls ∧ Apart ls

end Lexeme

namespace Token

/-- Whether a token can run into another one. -/
def counts : Token → Bool
  | .number _ | .word _ | .bang => true
  | _ => false

end Token

namespace Lexeme

variable {l : Lexeme} {ls : List Lexeme} {ts us : List Token}

/-- What a token may have become after running into others. -/
def Becomes (t u : Token) : Prop :=
  t = u ∨ match t, u with
    | .number _, .number _ => True
    | .word letters, .word letters' => letters <+: letters'
    | .bang, .relation symbol => symbol = "!="
    | _, _ => False

lemma becomes_of_fuse {t : Token} (h : t.fuse ts = some us) :
    ∃ u us', us = u :: us' ∧ Becomes t u := by
  unfold fuse at h
  split at h
  · split at h
    · cases h
    · cases h
      exact ⟨_, _, rfl, .inr trivial⟩
  · cases h
    exact ⟨_, _, rfl, .inr (List.prefix_append _ _)⟩
  · cases h
    exact ⟨_, _, rfl, .inr rfl⟩
  · cases h
    exact ⟨_, _, rfl, .inl rfl⟩

lemma Becomes.leftParen_iff {t u : Token} (h : Becomes t u) :
    t = .leftParen ↔ u = .leftParen := by
  rcases h with rfl | h
  · rfl
  · cases t <;> cases u <;> simp_all

/-- A word stays a word. -/
lemma Becomes.exists_letter {letters : List Char} {u : Token} (h : Becomes (.word letters) u)
    (hne : letters ≠ []) : ∃ d letters', u = .word (d :: letters') := by
  obtain ⟨d, letters, rfl⟩ := List.exists_cons_of_ne_nil hne
  rcases h with rfl | h
  · exact ⟨d, letters, rfl⟩
  · cases u with
    | word letters' =>
        obtain ⟨more, rfl⟩ := h
        exact ⟨d, letters ++ more, rfl⟩
    | _ => exact h.elim

/-- Scanning begins with the first token, or with what has become of it. -/
lemma becomes_of_scan (h : scan (l :: ls) = some us) :
    ∃ u us', us = u :: us' ∧ Becomes l.token u := by
  rw [scan, Option.bind_eq_some_iff] at h
  obtain ⟨ts, _, h⟩ := h
  split at h
  · exact becomes_of_fuse h
  · cases h
    exact ⟨_, _, rfl, .inl rfl⟩

end Lexeme

namespace Token

variable {t : Token} {ts us : List Token}

/-- A list of tokens is spelled out if it begins with a sign, a letter or a name and goes on as such
a list. -/
lemma spellOut_eq_cons (h : spellOut (t :: ts) = t :: ts) :
    spellOut ts = ts ∧
      ∀ c d letters, t = .word (c :: d :: letters) → ∃ us, ts = .leftParen :: us := by
  by_cases ht : ∃ letters, t = .word letters
  · obtain ⟨letters, rfl⟩ := ht
    match letters with
    | [] => exact ⟨by simpa using h, by simp⟩
    | [c] => exact ⟨by simpa using h, by simp⟩
    | c :: d :: letters =>
        have hparen : ts.head? = some .leftParen := by
          by_contra hne
          rw [spellOut_word, if_neg (by simp [hne])] at h
          simp at h
        obtain ⟨us, rfl⟩ := List.head?_eq_some_iff.mp hparen
        rw [spellOut_name, List.cons.injEq] at h
        exact ⟨by rw [spellOut_cons (by simp)]; exact h.2, fun _ _ _ _ => ⟨us, rfl⟩⟩
  · have ht' : ∀ letters, t ≠ .word letters := fun letters hl => ht ⟨letters, hl⟩
    rw [spellOut_cons ht', List.cons.injEq] at h
    exact ⟨h.2, fun c d letters hl => absurd hl (ht' _)⟩

end Token

namespace Lexeme

variable {l : Lexeme} {ls : List Lexeme} {ts us : List Token}

/-- What scanning finds.  With gaps in the right places it finds the tokens, and else it finds fewer
of those that count. -/
structure Finds (ls : List Lexeme) (ts : List Token) : Prop where
  names_iff : names ls = true ↔ ∃ letters us, ts = .word letters :: .leftParen :: us
  tokens : Apart ls ∧ spellOut ts = ls.map token ∨
    ¬ Apart ls ∧ (spellOut ts).countP counts < (ls.map token).countP counts

/-- The first token is a parenthesis before and after scanning. -/
lemma leftParen_iff_of_scan (hscan : scan ls = some ts) :
    (∃ us, ls.map token = .leftParen :: us) ↔ ∃ us, ts = .leftParen :: us := by
  cases ls with
  | nil =>
      cases hscan
      simp
  | cons l ls =>
      obtain ⟨u, us, rfl, hu⟩ := becomes_of_scan hscan
      simpa using hu.leftParen_iff

/-- Only a word makes a name. -/
lemma exists_word_of_names (h : names (l :: ls) = true) : ∃ letters, l.token = .word letters := by
  obtain ⟨gap, t⟩ := l
  cases t with
  | word letters => exact ⟨letters, rfl⟩
  | _ => cases ls <;> cases h

/-- A word that runs into nothing makes a name with a parenthesis only. -/
lemma names_cons_iff (hadjoins : adjoins l.token ls = false) :
    names (l :: ls) = true ↔
      (∃ letters, l.token = .word letters) ∧ ∃ us, ls.map token = .leftParen :: us := by
  obtain ⟨gap, t⟩ := l
  by_cases ht : ∃ letters, t = .word letters
  · obtain ⟨letters, rfl⟩ := ht
    cases ls with
    | nil => simp [names]
    | cons l' ls =>
        have hgap : (decide (l'.gap = 0) && names (l' :: ls)) = false := by
          rw [← Bool.not_eq_true, Bool.and_eq_true]
          rintro ⟨hgap, hnames⟩
          obtain ⟨letters', hl'⟩ := exists_word_of_names hnames
          simp_all [adjoins, meets]
        simp [names, hgap]
  · exact iff_of_false (fun hnames => ht (exists_word_of_names hnames)) fun h => ht h.1

/-- A token that is no name, or the name in front of a parenthesis, stays what it is. -/
lemma spellOut_cons_of_scan {t : Token} (hscan : scan ls = some ts)
    (hname : ∀ c d letters, t = .word (c :: d :: letters) →
      ∃ us, ls.map token = .leftParen :: us) :
    spellOut (t :: ts) = t :: spellOut ts := by
  by_cases ht : ∃ letters, t = .word letters
  · obtain ⟨letters, rfl⟩ := ht
    rcases letters with _ | ⟨c, _ | ⟨d, letters⟩⟩
    · exact spellOut_empty ts
    · exact spellOut_letter c ts
    · obtain ⟨us, rfl⟩ := (leftParen_iff_of_scan hscan).mp (hname c d letters rfl)
      rw [spellOut_name, spellOut_cons (by simp)]
  · exact spellOut_cons (fun letters hl => ht ⟨letters, hl⟩) ts

/-- A token that does not run into the others. -/
lemma Finds.cons (h : Finds ls ts) (hscan : scan ls = some ts)
    (hadjoins : adjoins l.token ls = false)
    (hname : ∀ c d letters, l.token = .word (c :: d :: letters) →
      ∃ us, ls.map token = .leftParen :: us) :
    Finds (l :: ls) (l.token :: ts) := by
  have hapart : Apart (l :: ls) ↔ Apart ls := by simp [Apart, Clashes, hadjoins]
  constructor
  · rw [names_cons_iff hadjoins, leftParen_iff_of_scan hscan]
    constructor
    · rintro ⟨⟨letters, hl⟩, us, rfl⟩
      exact ⟨letters, us, by rw [hl]⟩
    · rintro ⟨letters, us, heq⟩
      rw [List.cons.injEq] at heq
      exact ⟨⟨letters, heq.1⟩, us, heq.2⟩
  · rw [hapart, spellOut_cons_of_scan hscan hname, List.map_cons, List.countP_cons,
      List.countP_cons]
    exact h.tokens.imp (And.imp_right fun hts => by rw [hts]) (And.imp_right fun hlt => by omega)

/-- Scanning never finds more tokens that count. -/
lemma Finds.countP_le (h : Finds ls ts) :
    (spellOut ts).countP counts ≤ (ls.map token).countP counts := by
  rcases h.tokens with ⟨_, hts⟩ | ⟨_, hlt⟩
  · rw [hts]
  · exact Nat.le_of_lt hlt

/-- A letter that runs into a run of letters.  It is lost if a parenthesis follows them. -/
lemma Finds.letter {gap : ℕ} {c d : Char} {letters : List Char}
    (h : Finds ls (.word (d :: letters) :: us)) (hadjoins : adjoins (.word [c]) ls = true) :
    Finds (⟨gap, .word [c]⟩ :: ls) (.word (c :: d :: letters) :: us) := by
  have hnames : names (⟨gap, .word [c]⟩ :: ls) = names ls := by
    cases ls with
    | nil => cases hadjoins
    | cons l ls =>
        obtain ⟨hgap, hmeets⟩ : l.gap = 0 ∧ (Token.word [c]).meets l.token = true := by
          simpa [adjoins] using hadjoins
        have hparen : l.token ≠ .leftParen := by
          intro hl
          simp [hl, meets] at hmeets
        simp [names, hgap, hparen]
  have hparen : names ls = true ↔ ∃ vs, us = .leftParen :: vs := by
    rw [h.names_iff]
    simp
  constructor
  · rw [hnames, hparen]
    simp
  · by_cases hclash : names ls = true
    · obtain ⟨vs, rfl⟩ := hparen.mp hclash
      have hle := h.countP_le
      refine .inr ⟨fun ha => ha.1 ⟨hadjoins, fun _ => hclash⟩, ?_⟩
      rw [spellOut_name, List.countP_cons_of_pos rfl] at hle
      rw [spellOut_name, List.countP_cons_of_pos rfl, List.map_cons,
        List.countP_cons_of_pos (a := Token.word [c]) rfl]
      omega
    · have hus : ∀ vs, us ≠ .leftParen :: vs := fun vs hvs => hclash (hparen.mpr ⟨vs, hvs⟩)
      have hapart : Apart (⟨gap, .word [c]⟩ :: ls) ↔ Apart ls := by simp [Apart, Clashes, hclash]
      rw [hapart, spellOut_letters c d letters hus, List.map_cons, List.countP_cons_of_pos rfl,
        List.countP_cons_of_pos rfl]
      exact h.tokens.imp (And.imp_right fun hts => by rw [hts]) (And.imp_right fun hlt => by omega)

/-- A numeral, or a factorial sign, that is lost in what follows it. -/
lemma Finds.lost {t u u' : Token} {gap : ℕ} (h : Finds ls (u :: us))
    (hadjoins : adjoins t ls = true) (ht : t.counts = true)
    (hword : ∀ letters, t ≠ .word letters) (hu : ∀ letters, u ≠ .word letters)
    (hu' : ∀ letters, u' ≠ .word letters) (hcounts : u'.counts = u.counts) :
    Finds (⟨gap, t⟩ :: ls) (u' :: us) := by
  have hnames : names (⟨gap, t⟩ :: ls) = false := by
    rw [← Bool.not_eq_true]
    intro hnames
    obtain ⟨letters, hl⟩ := exists_word_of_names hnames
    exact hword letters hl
  have hapart : ¬ Apart (⟨gap, t⟩ :: ls) := by
    refine fun ha => ha.1 ⟨hadjoins, ?_⟩
    rintro ⟨letters, hl⟩
    exact absurd hl (hword letters)
  have hle := h.countP_le
  refine ⟨?_, .inr ⟨hapart, ?_⟩⟩
  · rw [hnames]
    refine iff_of_false (by simp) ?_
    rintro ⟨letters, vs, heq⟩
    exact hu' letters (List.cons.inj heq).1
  · rw [spellOut_cons hu, List.countP_cons] at hle
    rw [spellOut_cons hu', List.map_cons, List.countP_cons, List.countP_cons, hcounts, ht,
      if_pos rfl]
    omega

/-- A token that runs into what was found behind it. -/
lemma Finds.fuse {t u : Token} {gap : ℕ} (h : Finds (l :: ls) (u :: us)) (hu : Becomes l.token u)
    (hadjoins : adjoins t (l :: ls) = true) (ht : t ≠ .word []) (hl : l.token ≠ .word [])
    (hname : ∀ c d letters, t = .word (c :: d :: letters) → l.token = .leftParen) :
    (∃ ts, t.fuse (u :: us) = some ts ∧ Finds (⟨gap, t⟩ :: l :: ls) ts) ∨
      t.fuse (u :: us) = none ∧ ¬ Apart (⟨gap, t⟩ :: l :: ls) := by
  obtain ⟨gap', t'⟩ := l
  have hmeets : t.meets t' = true := by
    simp only [adjoins, Bool.and_eq_true] at hadjoins
    exact hadjoins.2
  rcases exists_of_meets hmeets with
    ⟨numeral, numeral', rfl, rfl⟩ | ⟨letters, letters', rfl, rfl⟩ | ⟨rfl, rfl⟩
  · obtain ⟨numeral'', rfl⟩ : ∃ numeral'', u = .number numeral'' := by
      rcases hu with rfl | hu
      · exact ⟨_, rfl⟩
      · cases u <;> simp_all
    have hclash : Clashes (.number numeral) (⟨gap', .number numeral'⟩ :: ls) := ⟨hadjoins, by simp⟩
    rw [Token.fuse]
    split_ifs with hpoints
    · exact .inr ⟨rfl, fun ha => ha.1 hclash⟩
    · exact .inl ⟨_, rfl, h.lost hadjoins rfl (by simp) (by simp) (by simp) rfl⟩
  · -- in front of a word there is no name, so this is a single letter
    obtain ⟨c, rfl⟩ : ∃ c, letters = [c] := by
      rcases letters with _ | ⟨c, _ | ⟨d, letters⟩⟩
      · exact absurd rfl ht
      · exact ⟨c, rfl⟩
      · cases hname c d letters rfl
    obtain ⟨d, letters'', rfl⟩ := hu.exists_letter fun hnil => hl (by rw [hnil])
    exact .inl ⟨_, rfl, h.letter hadjoins⟩
  · obtain rfl : Token.relation "=" = u := hu.resolve_right (by cases u <;> simp)
    exact .inl ⟨_, rfl, h.lost hadjoins rfl (by simp) (by simp) (by simp) rfl⟩

/-- **What is scanned**: the tokens, if the gaps keep them apart, and if not then fewer that
count, or none at all because a numeral has too many points. -/
theorem scan_spec : ∀ {ls : List Lexeme}, (∀ l ∈ ls, l.token ≠ .word []) →
    spellOut (ls.map token) = ls.map token →
    (∃ ts, scan ls = some ts ∧ Finds ls ts) ∨ scan ls = none ∧ ¬ Apart ls
  | [], _, _ => .inl ⟨[], rfl, by simp [names], .inl ⟨trivial, rfl⟩⟩
  | ⟨gap, t⟩ :: ls, hwords, hspell => by
      obtain ⟨ht, hwords'⟩ := List.forall_mem_cons.mp hwords
      obtain ⟨hspell', hname⟩ := spellOut_eq_cons hspell
      rcases scan_spec hwords' hspell' with ⟨ts, hscan, hfinds⟩ | ⟨hscan, hapart⟩
      · cases hadjoins : adjoins t ls with
        | false =>
            exact .inl
              ⟨t :: ts, by simp [scan, hscan, hadjoins], hfinds.cons hscan hadjoins hname⟩
        | true =>
            cases ls with
            | nil => cases hadjoins
            | cons l ls =>
                obtain ⟨u, us, rfl, hu⟩ := becomes_of_scan hscan
                rw [scan, hscan, Option.bind_some, if_pos hadjoins]
                refine hfinds.fuse hu hadjoins ht (hwords' l (by simp)) fun c d letters hl => ?_
                obtain ⟨us', hus'⟩ := hname c d letters hl
                exact (List.cons.inj hus').1
      · exact .inr ⟨by simp [scan, hscan], fun ha => hapart ha.2⟩

end Lexeme

/-! ## Two pieces of text -/

namespace Lexeme

variable {l m : Lexeme} {ls ms : List Lexeme}

/-- The last token of lexemes. -/
def last? (ls : List Lexeme) : Option Token :=
  (ls.map token).getLast?

@[simp] lemma last?_singleton : last? [l] = some l.token := rfl

/-- The last of the lexemes is not in a run of letters with those in front of it. -/
def LooseEnd (ls : List Lexeme) : Prop :=
  ∀ ls' l letters letters', ls = ls' ++ [l] → l.token = .word letters →
    last? ls' = some (.word letters') → l.gap ≠ 0

lemma names_cons_cons : names (l :: m :: ls) = true ↔ (∃ letters, l.token = .word letters) ∧
    (m.token = .leftParen ∨ m.gap = 0 ∧ names (m :: ls) = true) := by
  obtain ⟨gap, t⟩ := l
  cases t <;> simp [names]

/-- A run of letters goes on into the next piece of text only if that begins with a parenthesis, or
with letters that a parenthesis follows. -/
lemma names_append (hword : (∃ letters, last? ls = some (.word letters)) → m.token ≠ .leftParen ∧
      ¬ (m.gap = 0 ∧ names (m :: ms) = true)) (hne : ls ≠ []) :
    names (ls ++ m :: ms) = names ls := by
  induction ls with
  | nil => exact absurd rfl hne
  | cons l ls ih =>
      rw [Bool.eq_iff_iff]
      cases ls with
      | nil =>
          have hleft : names [l] = false := by
            obtain ⟨gap, t⟩ := l
            cases t <;> rfl
          rw [List.singleton_append, names_cons_cons, hleft]
          refine iff_of_false ?_ (by simp)
          rintro ⟨hl, h⟩
          obtain ⟨hparen, hnames⟩ := hword (by simpa using hl)
          exact h.elim hparen hnames
      | cons l' ls =>
          rw [List.cons_append, List.cons_append, names_cons_cons, names_cons_cons,
            ← List.cons_append, ih hword (by simp)]

lemma clashes_append {t : Token}
    (hword : (∃ letters, last? ls = some (.word letters)) → m.token ≠ .leftParen ∧
      ¬ (m.gap = 0 ∧ names (m :: ms) = true)) (hne : ls ≠ []) :
    Clashes t (ls ++ m :: ms) ↔ Clashes t ls := by
  cases ls with
  | nil => exact absurd rfl hne
  | cons l ls => rw [Clashes, Clashes, names_append hword hne, List.cons_append, adjoins, adjoins]

lemma apart_of_append : ∀ {ls : List Lexeme}, Apart (ls ++ ms) → Apart ms
  | [], h => h
  | _ :: _, h => apart_of_append h.2

/-- Two pieces of text, the second of which does not make a name of the first with a parenthesis. -/
lemma apart_append (hparen : (∃ letters, last? ls = some (.word letters)) →
      m.token ≠ .leftParen) :
    Apart (ls ++ m :: ms) ↔
      Apart ls ∧ Apart (m :: ms) ∧ ∀ t ∈ last? ls, ¬ Clashes t (m :: ms) := by
  by_cases hclash : ∀ t ∈ last? ls, ¬ Clashes t (m :: ms)
  · have hword : (∃ letters, last? ls = some (.word letters)) → m.token ≠ .leftParen ∧
        ¬ (m.gap = 0 ∧ names (m :: ms) = true) := by
      rintro ⟨letters, hlast⟩
      refine ⟨hparen ⟨letters, hlast⟩, ?_⟩
      rintro ⟨hgap, hnames⟩
      refine hclash _ hlast ⟨?_, fun _ => hnames⟩
      obtain ⟨letters', hm⟩ := exists_word_of_names hnames
      simp [adjoins, hgap, hm, meets]
    suffices h : Apart (ls ++ m :: ms) ↔ Apart ls ∧ Apart (m :: ms) from
      h.trans (and_congr_right fun _ => (and_iff_left hclash).symm)
    clear hparen
    induction ls with
    | nil => simp [Apart]
    | cons l ls ih =>
        cases ls with
        | nil => simp [Apart, hclash l.token rfl]
        | cons l' ls =>
            have hfirst : Clashes l.token (l' :: ls ++ m :: ms) ↔ Clashes l.token (l' :: ls) :=
              clashes_append hword (by simp)
            rw [List.cons_append, Apart, Apart, ih hclash hword, hfirst, and_assoc]
  · refine iff_of_false (fun hapart => hclash fun t ht => ?_) fun h => hclash h.2.2
    obtain ⟨ls', hls'⟩ := List.getLast?_eq_some_iff.mp ht
    obtain ⟨ks, ks', rfl, hks, hlast⟩ := List.map_eq_append_iff.mp hls'
    obtain ⟨l, rfl, rfl⟩ := List.map_eq_singleton_iff.mp hlast
    rw [List.append_assoc] at hapart
    exact (apart_of_append hapart).1

/-- A piece of text with a parenthesis behind it, which makes no name of the letters in front. -/
lemma apart_append_leftParen (hm : m.token = .leftParen) (hloose : LooseEnd ls) :
    Apart (ls ++ m :: ms) ↔ Apart ls ∧ Apart (m :: ms) := by
  have hclash : ∀ t, ¬ Clashes t (m :: ms) := by
    rintro t ⟨hadjoins, -⟩
    cases t <;> simp [adjoins, hm, meets] at hadjoins
  rcases List.eq_nil_or_concat' ls with rfl | ⟨ls', l, rfl⟩
  · simp [Apart]
  have hlast : last? (ls' ++ [l]) = some l.token := by simp [last?]
  by_cases hl : ∃ letters, l.token = .word letters
  · obtain ⟨letters, hl⟩ := hl
    have hfree : ∀ ks, ∀ t ∈ last? ls', ¬ Clashes t (l :: ks) := by
      rintro ks t ht ⟨hadjoins, -⟩
      obtain ⟨hgap, hmeets⟩ : l.gap = 0 ∧ t.meets l.token = true := by
        simpa [adjoins] using hadjoins
      rw [hl] at hmeets
      cases t <;> simp [meets] at hmeets
      exact hloose ls' l letters _ rfl hl ht hgap
    have hword : l.token ≠ .leftParen := by simp [hl]
    rw [List.append_assoc, List.singleton_append, apart_append fun _ => hword,
      apart_append fun _ => hword]
    simp only [Apart, hclash, eq_true (hfree _), not_clashes_nil, not_false_eq_true, true_and,
      and_true]
  · rw [apart_append fun h => absurd h (by simpa [hlast] using hl), hlast]
    simp [hclash]

end Lexeme

end MathExpr
