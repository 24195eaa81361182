import MathExpr.Proofs.Printing.Layout

/-!
# Factors beside each other

The printer looks at the end of the text so far and at the beginning of the next factor to see what
it has to leave between them.  A digit in front of a numeral is set apart from it, and so is a
letter from a parenthesis if it is at the end of a run.  Where spaces are left out nothing else is
set apart: not a numeral that ends with a point from the numeral behind it, and not a letter from
the name of a function.

* `Token.collide` — the two pairs of neighbours that are not set apart.
* `Lays.split` — how the last letter of a run comes to be set apart.
* `OpensFactor` — how factors begin.
* **`Laid.place`** — one more factor is kept apart from those before it unless it collides with
  them.
* **`Laid.juxtapose`** — so it is for any number of factors.
-/

namespace MathExpr

open Token Lexeme Text

/-- Whether some tokens end with a numeral with a point at its end and others begin with a numeral,
or these begin with a name of two letters or more and those end with a letter. -/
def Token.collide (ts us : List Token) : Bool :=
  match ts.getLast?, us with
  | some (.number numeral), .number _ :: _ => numeral.toList.getLast? = some '.'
  | some (.word _), .word (_ :: _ :: _) :: _ => true
  | _, _ => false

lemma Token.collide_iff {ts us : List Token} : collide ts us = true ↔
    (∃ numeral numeral', ts.getLast? = some (.number numeral) ∧
      us.head? = some (.number numeral') ∧ numeral.toList.getLast? = some '.') ∨
    (∃ letters, ts.getLast? = some (.word letters)) ∧
      ∃ letters us', us = .word letters :: us' ∧ 2 ≤ letters.length := by
  unfold collide
  split
  · next numeral numeral' us hlast => simp [hlast]
  · next letters c d letters' us hlast => simp [hlast]
  · next hnumber hword =>
    refine iff_of_false (by simp) ?_
    rintro (⟨numeral, numeral', hlast, hhead, -⟩ | ⟨⟨letters, hlast⟩, letters', us, rfl, hlen⟩)
    · obtain ⟨us, rfl⟩ := List.head?_eq_some_iff.mp hhead
      exact hnumber _ _ _ hlast rfl
    · rcases letters' with _ | ⟨c, _ | ⟨d, letters'⟩⟩
      · cases hlen
      · simp at hlen
      · exact hword _ _ _ _ _ hlast rfl

/-- Whether any of several lists of tokens collides with the next one. -/
def Token.collideAny : List (List Token) → Bool
  | ts :: us :: tss => collide ts us || collideAny (us :: tss)
  | _ => false

lemma Token.collideAny_append {us : List Token} (hus : us ≠ []) (ts : List Token)
    (tss : List (List Token)) : collideAny ((ts ++ us) :: tss) = collideAny (us :: tss) := by
  cases tss with
  | nil => rfl
  | cons vs tss =>
      have hcollide : collide (ts ++ us) vs = collide us vs := by
        unfold collide
        rw [List.getLast?_append_of_ne_nil _ hus]
      rw [collideAny, collideAny, hcollide]

/-! ## The ends of a text -/

namespace Lexeme

variable {l : Lexeme} {ls : List Lexeme} {t : Token}

/-- Something with a last token is something in front of it. -/
lemma exists_of_last? (h : last? ls = some t) : ∃ ls' gap, ls = ls' ++ [⟨gap, t⟩] := by
  obtain ⟨ts, hts⟩ := List.getLast?_eq_some_iff.mp h
  obtain ⟨ls', ks, rfl, -, hk⟩ := List.map_eq_append_iff.mp hts
  obtain ⟨l, rfl, rfl⟩ := List.map_eq_singleton_iff.mp hk
  exact ⟨ls', l.gap, rfl⟩

/-- A text ends as its last token does. -/
lemma getLast?_text (h : ∀ l ∈ ls, l.token.Legible) (ht : last? ls = some t) :
    (text ls).getLast? = t.spelling.getLast? := by
  obtain ⟨ls', gap, rfl⟩ := exists_of_last? ht
  have hne := spelling_ne_nil (h ⟨gap, t⟩ (by simp))
  rw [text_append, text, text, List.append_nil, List.getLast?_append_of_ne_nil _ (by simp [hne]),
    List.getLast?_append_of_ne_nil _ hne]

/-- What a text ends with is the end of a token. -/
lemma exists_of_getLast? (h : ∀ l ∈ ls, l.token.Legible) {c : Char}
    (hc : (text ls).getLast? = some c) :
    ∃ t, last? ls = some t ∧ t.Legible ∧ t.spelling.getLast? = some c := by
  cases hlast : last? ls with
  | none =>
      obtain rfl : ls = [] := by simpa [last?] using hlast
      simp [text] at hc
  | some t =>
      obtain ⟨l, hl, rfl⟩ := List.mem_map.mp (List.mem_of_getLast? hlast)
      exact ⟨l.token, rfl, h l hl, getLast?_text h hlast ▸ hc⟩

/-- A text that ends with a letter ends with a word. -/
lemma exists_word_of_getLast? (h : ∀ l ∈ ls, l.token.Legible) {c : Char}
    (hc : (text ls).getLast? = some c) (hletter : isAlphabetic c = true) :
    ∃ letters, last? ls = some (.word letters) := by
  obtain ⟨t, hlast, ht, hc⟩ := exists_of_getLast? h hc
  obtain ⟨letters, rfl⟩ := (isAlphabetic_iff ht (List.mem_of_getLast? hc)).mp hletter
  exact ⟨letters, hlast⟩

/-- A text whose last token is a word ends with a letter. -/
lemma exists_letter_of_last? (h : ∀ l ∈ ls, l.token.Legible) {letters : List Char}
    (hlast : last? ls = some (.word letters)) :
    ∃ cs c, text ls = cs ++ [c] ∧ isAlphabetic c = true := by
  obtain ⟨l, hl, hl'⟩ := List.mem_map.mp (List.mem_of_getLast? hlast)
  have hword : IsWord letters := by
    have := (h l hl).1
    rwa [hl'] at this
  obtain ⟨letters, c, rfl⟩ := (List.eq_nil_or_concat' letters).resolve_left hword.1
  have hend : (text ls).getLast? = some c := by
    rw [getLast?_text h hlast]
    simp [spelling]
  obtain ⟨cs, hcs⟩ := List.getLast?_eq_some_iff.mp hend
  exact ⟨cs, c, hcs, hword.2 c (by simp)⟩

end Lexeme

namespace Lays

variable {spaced : Bool} {ls : List Lexeme} {cs : List Char} {ts : List Token} {t : Token}
  {p : Prop}

lemma legible' (h : Lays spaced ls cs ts p) : ∀ l ∈ ls, l.token.Legible := fun l hl =>
  h.legible l.token (h.tokens_eq ▸ List.mem_map_of_mem hl)

lemma getLast?_eq (h : Lays spaced ls cs ts p) (ht : ts.getLast? = some t) :
    cs.getLast? = t.spelling.getLast? := by
  rw [← h.text_eq]
  exact getLast?_text h.legible' (h.last?_eq.trans ht)

/-- A text begins as its first token does. -/
lemma head?_eq (h : Lays spaced ls cs ts p) (ht : ts.head? = some t) :
    cs.head? = t.spelling.head? := by
  have hlegible := h.legible t (List.mem_of_head? ht)
  obtain ⟨ts', rfl⟩ := List.head?_eq_some_iff.mp ht
  obtain ⟨l, ls', rfl, rfl, -⟩ := List.map_eq_cons_iff.mp h.tokens_eq
  have hgap := h.gap_eq l rfl
  rw [← h.text_eq, text, hgap, List.replicate_zero, List.nil_append,
    List.head?_append_of_ne_nil _ (spelling_ne_nil hlegible)]

/-- What a text begins with is the beginning of a token. -/
lemma exists_of_head? (h : Lays spaced ls cs ts p) {c : Char} (hc : cs.head? = some c) :
    ∃ t, ts.head? = some t ∧ t.Legible ∧ t.spelling.head? = some c := by
  cases hhead : ts.head? with
  | none =>
      obtain rfl : ts = [] := by simpa using hhead
      obtain rfl := List.map_eq_nil_iff.mp h.tokens_eq
      simp [← h.text_eq, text] at hc
  | some t => exact ⟨t, rfl, h.legible t (List.mem_of_head? hhead), h.head?_eq hhead ▸ hc⟩

lemma text_ne_nil (h : Lays spaced ls cs ts p) (hts : ts ≠ []) : cs ≠ [] := by
  obtain ⟨t, ts, rfl⟩ := List.exists_cons_of_ne_nil hts
  have hhead := h.head?_eq (t := t) rfl
  rintro rfl
  exact spelling_ne_nil (h.legible t (by simp)) (by simpa using hhead.symm)

end Lays

/-! ## Setting a letter apart -/

namespace Lexeme

variable {l : Lexeme} {ls : List Lexeme} {letters : List Char}

/-- Letters at the end of a text cannot make a name. -/
lemma apart_append_word (hl : l.token = .word letters) : Apart (ls ++ [l]) ↔ Apart ls := by
  have hclash : ∀ t, ¬ Clashes t [l] := by
    rintro t ⟨hadjoins, hname⟩
    obtain ⟨gap, u⟩ := l
    cases hl
    have hword : ∃ letters, t = .word letters := by
      cases t <;> simp_all [adjoins, meets]
    exact absurd (hname hword) (by simp [names])
  rw [apart_append fun _ => by simp [hl]]
  simp [Apart, hclash]

/-- Letters at the end are either in a run or not. -/
lemma looseEnd_or (ls : List Lexeme) : LooseEnd ls ∨ ∃ ls' letters letters',
    ls = ls' ++ [⟨0, .word letters⟩] ∧ last? ls' = some (.word letters') := by
  by_cases hloose : LooseEnd ls
  · exact .inl hloose
  · simp only [LooseEnd, not_forall, not_not] at hloose
    obtain ⟨ls', ⟨gap, t⟩, letters, letters', rfl, rfl, hlast, rfl⟩ := hloose
    exact .inr ⟨ls', letters, letters', rfl, hlast⟩

end Lexeme

namespace Lays

variable {spaced : Bool} {ls : List Lexeme} {cs : List Char} {ts : List Token} {p : Prop}

/-- Letters that are not in a run are left as they are. -/
lemma splitLetters_of_looseEnd (h : Lays spaced ls cs ts p) (hloose : LooseEnd ls) :
    Style.splitLetters cs.reverse = cs.reverse := by
  unfold Style.splitLetters
  split
  case h_2 => rfl
  next c d written hcs =>
    refine (if_neg fun hletters => ?_).trans hcs.symm
    obtain ⟨hc, hd⟩ := Bool.and_eq_true_iff.mp hletters
    have htext : text ls = written.reverse ++ [d] ++ [c] := by
      rw [h.text_eq, ← List.reverse_eq_iff.mpr hcs.symm]
      simp
    obtain ⟨letters, hlast⟩ := exists_word_of_getLast? h.legible' (by rw [htext]; simp) hc
    obtain ⟨c', rfl⟩ := h.letter letters (h.last?_eq ▸ hlast)
    obtain ⟨ls', gap, rfl⟩ := exists_of_last? hlast
    have hrest : text ls' ++ List.replicate gap ' ' = written.reverse ++ [d] := by
      rw [text_append, text, text, List.append_nil, ← List.append_assoc] at htext
      exact (List.append_inj' htext rfl).1
    cases gap with
    | zero =>
        have hlegible : ∀ l ∈ ls', l.token.Legible := fun l hl => h.legible' l (by simp [hl])
        obtain ⟨letters', hlast'⟩ := exists_word_of_getLast? hlegible (c := d)
          (by simpa using congrArg List.getLast? hrest) hd
        exact hloose ls' _ _ letters' rfl rfl hlast' rfl
    | succ n =>
        rw [List.replicate_succ', ← List.append_assoc] at hrest
        obtain rfl : ' ' = d := by simpa using (List.append_inj' hrest rfl).2
        exact absurd hd (by decide)

/-- A blank is put in front of a letter at the end of a run. -/
lemma split (h : Lays false ls cs ts p) :
    ∃ ls', Lays false ls' (Style.splitLetters cs.reverse).reverse ts p ∧ LooseEnd ls' := by
  rcases looseEnd_or ls with hloose | ⟨ls', letters, letters', rfl, hlast⟩
  · refine ⟨ls, ?_, hloose⟩
    rwa [h.splitLetters_of_looseEnd hloose, List.reverse_reverse]
  · obtain ⟨c, rfl⟩ := h.letter letters (by rw [← h.last?_eq]; simp [last?])
    have hlegible := List.forall_mem_append.mp h.legible'
    have hc : isAlphabetic c = true := (hlegible.2 _ (List.mem_singleton_self _)).1.2 c (by simp)
    obtain ⟨w, d, htext, hd⟩ := exists_letter_of_last? hlegible.1 hlast
    have hsplit : (Style.splitLetters cs.reverse).reverse = w ++ [d] ++ [' '] ++ [c] := by
      rw [← h.text_eq, text_append, htext]
      simp [text, spelling, Style.splitLetters, hc, hd]
    refine ⟨ls' ++ [⟨1, .word [c]⟩], ⟨?_, ?_, ?_, h.legible, h.letter, by simp, ?_⟩, ?_⟩
    · rw [hsplit, text_append, htext]
      simp [text, spelling]
    · rw [← h.tokens_eq, List.map_append, List.map_append]
      rfl
    · have hne : ls' ≠ [] := by
        rintro rfl
        simp [last?] at hlast
      have := h.gap_eq
      rwa [List.head?_append_of_ne_nil _ hne] at this ⊢
    · rw [← h.apart_iff, apart_append_word rfl, apart_append_word rfl]
    · intro ls'' l _ _ heq _ _
      obtain ⟨-, hl⟩ := List.append_inj' heq rfl
      obtain rfl : _ = l := List.singleton_inj.mp hl
      simp

end Lays

/-! ## Placing a factor -/

/-- How factors begin: with no relation, and if with a word then with a letter that is not the first
of several, or with the name of a function. -/
structure OpensFactor (us : List Token) : Prop where
  ne_nil : us ≠ []
  not_relation : ∀ symbol, us.head? ≠ some (.relation symbol)
  word : ∀ letters us', us = .word letters :: us' →
    (us'.head? = some .leftParen ↔ 2 ≤ letters.length) ∧
      ∀ letters', us'.head? ≠ some (.word letters')

namespace OpensFactor

variable {us vs : List Token} {v : Token}

/-- A sign behind a factor does not change how it begins. -/
lemma append (h : OpensFactor us) (hv : ∀ letters, v ≠ .word letters) (hparen : v ≠ .leftParen) :
    OpensFactor (us ++ v :: vs) where
  ne_nil := by simp
  not_relation := by
    rw [List.head?_append_of_ne_nil _ h.ne_nil]
    exact h.not_relation
  word := by
    intro letters us' heq
    obtain ⟨u, us, rfl⟩ := List.exists_cons_of_ne_nil h.ne_nil
    obtain ⟨rfl, rfl⟩ := List.cons.inj heq
    obtain ⟨hname, hword⟩ := h.word letters us rfl
    cases us with
    | nil =>
        refine ⟨?_, fun letters' hl => ?_⟩
        · rw [← hname]
          simpa using hparen
        · exact hv letters' (by simpa using hl)
    | cons u' us => exact ⟨hname, hword⟩

/-- What begins with anything but a word or a relation. -/
lemma of_cons (hword : ∀ letters, v ≠ .word letters) (hrelation : ∀ symbol, v ≠ .relation symbol) :
    OpensFactor (v :: vs) where
  ne_nil := by simp
  not_relation := by simpa using hrelation
  word letters us' heq := absurd (List.cons.inj heq).1 (hword letters)

lemma letter (c : Char) : OpensFactor [.word [c]] where
  ne_nil := by simp
  not_relation := by simp
  word := by simp

lemma name {letters : List Char} (hletters : 2 ≤ letters.length) :
    OpensFactor (.word letters :: .leftParen :: vs) where
  ne_nil := by simp
  not_relation := by simp
  word letters' us' heq := by
    simp only [List.cons.injEq, Token.word.injEq] at heq
    obtain ⟨rfl, rfl⟩ := heq
    simp [hletters]

/-- Only the name of a function makes a name. -/
lemma names_iff {ms : List Lexeme} (h : OpensFactor us) (hms : ms.map token = us) :
    names ms = true ↔ ∃ letters us', us = .word letters :: us' ∧ 2 ≤ letters.length := by
  match ms, hms with
  | [], hnil => exact absurd hnil.symm h.ne_nil
  | ⟨gap, t⟩ :: ms, hms =>
      subst hms
      by_cases ht : ∃ letters, t = .word letters
      · obtain ⟨letters, rfl⟩ := ht
        obtain ⟨hname, hword⟩ := h.word letters (ms.map token) rfl
        have hsecond : names (⟨gap, .word letters⟩ :: ms) = true ↔
            (ms.map token).head? = some .leftParen := by
          cases ms with
          | nil => simp [names]
          | cons m ms =>
              rw [names_cons_cons]
              refine ⟨?_, fun hm => ⟨⟨letters, rfl⟩, .inl (by simpa using hm)⟩⟩
              rintro ⟨-, hm | ⟨-, hnames⟩⟩
              · simp [hm]
              · obtain ⟨letters', hm⟩ := exists_word_of_names hnames
                exact absurd (by simp [hm]) (hword letters')
        rw [hsecond, hname]
        simp
      · refine iff_of_false (fun hnames => ht (exists_word_of_names hnames)) ?_
        rintro ⟨letters, us', heq, -⟩
        exact ht ⟨letters, (List.cons.inj heq).1⟩

end OpensFactor

namespace Style

variable {style : Style} {cs ds : List Char}

/-- What is left in front of a factor. -/
lemma placeFactor_eq (hcs : cs ≠ []) (n : ℕ)
    (hn : n = if style.spacedFactors || digitsMeet cs.reverse ds then 1 else 0) :
    (style.placeFactor cs.reverse ds).reverse =
      if ds.head? = some '(' then
        (splitLetters (List.replicate n ' ' ++ cs.reverse)).reverse ++ ds
      else cs ++ (List.replicate n ' ' ++ ds) := by
  have hspaced : (if style.spacedFactors || digitsMeet cs.reverse ds then ' ' :: cs.reverse
      else cs.reverse) = List.replicate n ' ' ++ cs.reverse := by
    subst hn
    split_ifs <;> rfl
  have hempty : cs.reverse.isEmpty = false := by simpa using hcs
  rw [placeFactor, hempty, if_neg (by decide), hspaced]
  split_ifs <;> simp

/-- A digit is set apart from a numeral, and nothing else is. -/
lemma digitsMeet_iff : digitsMeet cs.reverse ds = true ↔
    ∃ c ∈ cs.getLast?, ∃ d ∈ ds.head?, c.isDigit = true ∧ isNumeralChar d = true := by
  rw [← List.head?_reverse]
  unfold digitsMeet
  cases cs.reverse <;> cases ds <;> simp [isNumeralChar]

end Style

namespace Lays

variable {spaced : Bool} {ls ms : List Lexeme} {cs ds : List Char} {ts us : List Token}
  {p q : Prop}

/-- A space is put behind a numeral that ends with a digit and in front of another numeral. -/
lemma digitsMeet_iff (h : Lays spaced ls cs ts p) (h' : Lays spaced ms ds us q) :
    Style.digitsMeet cs.reverse ds = true ↔
      ∃ numeral numeral', ts.getLast? = some (.number numeral) ∧
        us.head? = some (.number numeral') ∧ numeral.toList.getLast? ≠ some '.' := by
  rw [Style.digitsMeet_iff]
  constructor
  · rintro ⟨c, hc, d, hd, hdigit, hd'⟩
    obtain ⟨t, ht, hlegible, hc⟩ := exists_of_getLast? h.legible' (h.text_eq ▸ hc)
    have hc' : isNumeralChar c = true := by simp [isNumeralChar, hdigit]
    obtain ⟨numeral, rfl⟩ := (isNumeralChar_iff hlegible (List.mem_of_getLast? hc)).mp hc'
    obtain ⟨u, hu, hlegible', hd⟩ := h'.exists_of_head? hd
    obtain ⟨numeral', rfl⟩ := (isNumeralChar_iff hlegible' (List.mem_of_head? hd)).mp hd'
    refine ⟨numeral, numeral', h.last?_eq ▸ ht, hu, fun hpoint => ?_⟩
    obtain rfl : c = '.' := Option.some.inj (hc.symm.trans hpoint)
    exact absurd hdigit (by decide)
  · rintro ⟨numeral, numeral', hnumeral, hnumeral', hpoint⟩
    have hchars := (h.legible _ (List.mem_of_getLast? hnumeral)).1.2.1
    have hchars' := (h'.legible _ (List.mem_of_head? hnumeral')).1.2.1
    have hne : numeral.toList ≠ [] := spelling_ne_nil (h.legible _ (List.mem_of_getLast? hnumeral))
    have hne' : numeral'.toList ≠ [] :=
      spelling_ne_nil (h'.legible _ (List.mem_of_head? hnumeral'))
    obtain ⟨w, c, hw⟩ := (List.eq_nil_or_concat' _).resolve_left hne
    obtain ⟨d, w', hw'⟩ := List.exists_cons_of_ne_nil hne'
    rw [h.getLast?_eq hnumeral, h'.head?_eq hnumeral', spelling, spelling, hw, hw']
    refine ⟨c, by simp, d, rfl, ?_, hchars' d (by simp [hw'])⟩
    have hc := hchars c (by simp [hw])
    have hc' : c ≠ '.' := by
      rintro rfl
      exact hpoint (by simp [hw])
    simpa [isNumeralChar, hc'] using hc

/-- A parenthesis behind a text that ends with a letter at most, and not with a run of them. -/
lemma appendParen (h : Lays spaced ls cs ts p) (n : ℕ) (h' : Lays spaced ms ds us q) (hts : ts ≠ [])
    (hparen : us.head? = some .leftParen) (hloose : LooseEnd ls) :
    Lays spaced (ls ++ behind n ms) (cs ++ (List.replicate n ' ' ++ ds)) (ts ++ us) (p ∧ q) := by
  have hus : us ≠ [] := by
    rintro rfl
    cases hparen
  refine h.append n h' hts hus (fun _ _ _ _ hword => by simp [hparen] at hword) ?_
  obtain ⟨m, ms, rfl⟩ := List.exists_cons_of_ne_nil (h'.ne_nil hus)
  have hm : m.token = .leftParen := by
    rw [← h'.tokens_eq] at hparen
    simpa using hparen
  have happend : Apart (ls ++ behind n (m :: ms)) ↔ Apart ls ∧ Apart (behind n (m :: ms)) :=
    apart_append_leftParen hm hloose
  rw [happend, apart_behind, h.apart_iff, h'.apart_iff]

/-- A factor that begins with no parenthesis clashes with the text in front of it if nothing is left
between them and they collide. -/
lemma clashes_iff (h : Lays spaced ls cs ts p) (h' : Lays spaced ms ds us q) (hus : OpensFactor us)
    (n : ℕ) (hn : n = if spaced || Style.digitsMeet cs.reverse ds then 1 else 0) :
    (∃ t ∈ ts.getLast?, Clashes t (behind n ms)) ↔ spaced = false ∧ collide ts us = true := by
  obtain ⟨m, ms, rfl⟩ := List.exists_cons_of_ne_nil (h'.ne_nil hus.ne_nil)
  have hhead : us.head? = some m.token := by rw [← h'.tokens_eq]; rfl
  have hzero : n = 0 ↔ spaced = false ∧ Style.digitsMeet cs.reverse ds = false := by
    subst hn
    simp
  simp only [collide_iff, clashes_behind (h'.gap_eq m rfl), hus.names_iff h'.tokens_eq, hzero]
  have hmeet := h.digitsMeet_iff h'
  constructor
  · rintro ⟨t, ht, ⟨hs, hdigits⟩, hmeets, hname⟩
    refine ⟨hs, ?_⟩
    rw [← Bool.not_eq_true, hmeet] at hdigits
    rcases exists_of_meets hmeets with
      ⟨numeral, numeral', rfl, hm⟩ | ⟨letters, letters', rfl, -⟩ | ⟨-, hm⟩
    · left
      by_contra hpoint
      refine hdigits ⟨numeral, numeral', ht, hm ▸ hhead, fun hlast => hpoint ?_⟩
      exact ⟨numeral, numeral', ht, hm ▸ hhead, hlast⟩
    · exact .inr ⟨⟨letters, ht⟩, hname ⟨letters, rfl⟩⟩
    · exact absurd (hm ▸ hhead) (hus.not_relation "=")
  · rintro ⟨hs, hcollide⟩
    rcases hcollide with ⟨numeral, numeral', ht, hu, hpoint⟩ | ⟨⟨letters, ht⟩, hname⟩
    · obtain hm : m.token = .number numeral' := by simpa [hu] using hhead.symm
      refine ⟨_, ht, ⟨hs, ?_⟩, by rw [hm]; rfl, by simp⟩
      rw [← Bool.not_eq_true, hmeet]
      rintro ⟨numeral'', _, ht', -, hpoint'⟩
      obtain rfl : numeral = numeral'' := by simpa using ht.symm.trans ht'
      exact hpoint' hpoint
    · obtain ⟨letters', us', rfl, hlen⟩ := id hname
      obtain hm : m.token = .word letters' := by simpa using hhead.symm
      refine ⟨_, ht, ⟨hs, ?_⟩, by rw [hm]; rfl, fun _ => hname⟩
      rw [← Bool.not_eq_true, hmeet]
      simp [ht]

end Lays

namespace Laid

variable {style : Style} {cs ds : List Char} {ts us : List Token} {p q : Prop}

/-- A parenthesis does not turn letters into the name of a function. -/
lemma placeParen (h : Laid style.spacedFactors cs ts p) (h' : Laid style.spacedFactors ds us q)
    (hts : ts ≠ []) (hparen : us.head? = some .leftParen) :
    Laid style.spacedFactors (style.placeFactor cs.reverse ds).reverse (ts ++ us) (p ∧ q) := by
  obtain ⟨ls, h⟩ := h
  obtain ⟨ms, h'⟩ := h'
  have hhead : ds.head? = some '(' := by
    rw [h'.head?_eq hparen]
    rfl
  have hmeet : Style.digitsMeet cs.reverse ds = false := by
    rw [← Bool.not_eq_true, h.digitsMeet_iff h', hparen]
    simp
  rw [Style.placeFactor_eq (h.text_ne_nil hts) _ rfl, if_pos hhead, hmeet, Bool.or_false]
  cases hs : style.spacedFactors with
  | true =>
      rw [hs] at h h'
      have := h.appendParen 1 h' hts hparen (h.noRuns rfl).looseEnd
      exact ⟨_, by simpa [Style.splitLetters_blank] using this⟩
  | false =>
      rw [hs] at h h'
      obtain ⟨ls', hls', hloose⟩ := h.split
      have := hls'.appendParen 0 h' hts hparen hloose
      exact ⟨_, by simpa using this⟩

/-- **One more factor** is kept apart from those before it, unless no spaces are left and it
collides with the last of them. -/
theorem place (h : Laid style.spacedFactors cs ts p) (h' : Laid style.spacedFactors ds us q)
    (hts : ts ≠ []) (hus : OpensFactor us) :
    Laid style.spacedFactors (style.placeFactor cs.reverse ds).reverse (ts ++ us)
      ((p ∧ q) ∧ ¬ (style.spacedFactors = false ∧ collide ts us = true)) := by
  by_cases hparen : us.head? = some .leftParen
  · refine (h.placeParen h' hts hparen).congr (and_iff_left ?_).symm
    rintro ⟨-, hcollide⟩
    obtain ⟨us', rfl⟩ := List.head?_eq_some_iff.mp hparen
    unfold collide at hcollide
    split at hcollide <;> simp_all
  obtain ⟨ls, h⟩ := h
  obtain ⟨ms, h'⟩ := h'
  have hhead : ds.head? ≠ some '(' := by
    intro hhead
    obtain ⟨u, hu, hlegible, hc⟩ := h'.exists_of_head? hhead
    exact hparen ((eq_leftParen_iff hlegible (List.mem_of_head? hc)).mp rfl ▸ hu)
  rw [Style.placeFactor_eq (h.text_ne_nil hts) _ rfl, if_neg hhead]
  refine ⟨_, h.append _ h' hts hus.ne_nil ?_ ?_⟩
  · intro hs _ _ _ _
    simp [hs]
  · rw [h.apart_append_iff _ h' hus.ne_nil fun _ _ => hparen, h.clashes_iff h' hus _ rfl]

variable {α : Type} {f : α → List Char} {g : α → List Token} {r : α → Prop}

lemma placeAll : ∀ (as : List α) {cs : List Char} {ts : List Token} {p : Prop},
    Laid style.spacedFactors cs ts p → ts ≠ [] →
    (∀ a ∈ as, Laid style.spacedFactors (f a) (g a) (r a)) → (∀ a ∈ as, OpensFactor (g a)) →
    Laid style.spacedFactors ((as.map f).foldl style.placeFactor cs.reverse).reverse
      (ts ++ as.flatMap g) ((p ∧ ∀ a ∈ as, r a) ∧
        ¬ (style.spacedFactors = false ∧ collideAny (ts :: as.map g) = true))
  | [], cs, ts, p, h, _, _, _ => by simpa [collideAny] using h
  | a :: as, cs, ts, p, h, hts, has, hopens => by
      obtain ⟨ha, has⟩ := List.forall_mem_cons.mp has
      obtain ⟨hopen, hopens⟩ := List.forall_mem_cons.mp hopens
      have := placeAll as (h.place ha hts hopen) (by simp [hts]) has hopens
      rw [List.reverse_reverse, collideAny_append hopen.ne_nil] at this
      rw [List.map_cons, List.foldl_cons, List.flatMap_cons, ← List.append_assoc, List.map_cons,
        collideAny, Bool.or_eq_true]
      refine this.congr ?_
      rw [List.forall_mem_cons]
      tauto

/-- **Factors beside each other** are kept apart, unless no spaces are left and one of them collides
with the next one. -/
theorem juxtapose (a : α) (as : List α)
    (h : ∀ b ∈ a :: as, Laid style.spacedFactors (f b) (g b) (r b))
    (hopens : ∀ b ∈ a :: as, OpensFactor (g b)) :
    Laid style.spacedFactors (style.juxtapose ((a :: as).map f)) ((a :: as).flatMap g)
      ((∀ b ∈ a :: as, r b) ∧
        ¬ (style.spacedFactors = false ∧ collideAny ((a :: as).map g) = true)) := by
  obtain ⟨ha, has⟩ := List.forall_mem_cons.mp h
  obtain ⟨hopen, hopens⟩ := List.forall_mem_cons.mp hopens
  have hall := placeAll as ha hopen.ne_nil has hopens
  have hfirst : style.placeFactor [] (f a) = (f a).reverse := rfl
  rw [Style.juxtapose, List.map_cons, List.foldl_cons, hfirst, List.flatMap_cons, List.map_cons,
    List.forall_mem_cons]
  exact hall

end Laid

end MathExpr
