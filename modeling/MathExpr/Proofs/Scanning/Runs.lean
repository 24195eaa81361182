import Mathlib.Control.Monad.Basic
import Mathlib.Tactic.Lemma
import MathExpr.Proofs.Printing.Gaps

/-!
# Which texts have tokens, and which tokens they have

Which texts are taken apart into tokens is said here without the scan: all characters have to be
ones that expressions are written with, and the longest runs of digits and points have to be
numerals.  The tokens are then spelled by the text without its white space, and none of them could
be longer.  In any other text the leftmost offence decides about the error.

* `Text.WholeRun` — the longest runs of characters of a kind.
* `Token.isReadable`, `Token.WellWritten` — what characters and runs have to be like.
* `Token.Offends`, `Token.refusal`, `Token.FirstOffence` — what a text is refused for.
* `Token.Takes`, `Token.takes_of_first` — what one step of the scan takes.
* `Token.scan_induction` — induction along the scan of any text, be it refused or not.
* `Token.Tokenizes` — what the tokens of a text have to do with it.
* `Token.Scanned`, **`Token.Scanned.tokenizes`** — that this is so of all texts that have tokens.
* `Token.Judged`, **`Token.judged_ofChars`** — that the leftmost offence decides about the others.
* **`Token.ofText_exact`** — which texts have tokens, which these are, and why others have none.
-/

namespace MathExpr

namespace Text

/-- A run of characters that `p` picks, which goes on neither to the left nor to the right. -/
structure WholeRun (p : Char → Bool) (before run after : List Char) : Prop where
  ne_nil : run ≠ []
  picked : ∀ c ∈ run, p c = true
  left : ∀ c ∈ before.getLast?, p c = false
  right : ∀ c ∈ after.head?, p c = false

end Text

namespace Token

open Text

/-! ## What texts have to be like -/

/-- The signs that expressions are written with. -/
def signs : List Char :=
  ['+', '-', '*', '/', '^', '_', '(', ')', '|', ',', '<', '>', '=', '!']

/-- The characters that expressions are written with. -/
def isReadable (c : Char) : Bool :=
  isWhiteSpace c || isAlphabetic c || c.isDigit || c == '.' || signs.contains c

/-- The runs of digits and points that are numerals: they have a digit, and at most one point. -/
def WellWritten (run : List Char) : Prop :=
  (∃ c ∈ run, c.isDigit = true) ∧ run.count '.' ≤ 1

/-- What begins with `c` is no part of an expression: a character that is not used, or a whole run
of digits and points that is no numeral. -/
inductive Offends (before : List Char) (c : Char) : List Char → Prop
  | character {after : List Char} : isReadable c = false → Offends before c after
  | run {run after : List Char} : WholeRun isNumeralChar before (c :: run) after →
      ¬ WellWritten (c :: run) → Offends before c (run ++ after)

/-- Why it is refused: as a numeral if it begins like one, and otherwise for its first character. -/
def refusal (c : Char) (after : List Char) : ReadError :=
  if c.isDigit || c == '.' && after.head?.any Char.isDigit then .malformedNumber
  else .unexpectedCharacter c

/-- No offence begins in the text `cs`, which stands between `context` and `rest`. -/
def Clean (context cs rest : List Char) : Prop :=
  ∀ before c after, cs = before ++ c :: after → ¬ Offends (context ++ before) c (after ++ rest)

/-- The leftmost offence in a text. -/
structure FirstOffence (cs before : List Char) (c : Char) (after : List Char) : Prop where
  text_eq : cs = before ++ c :: after
  offends : Offends before c after
  clean : Clean [] before (c :: after)

/-! ## What the tokens of a text have to be like -/

/-- The tokens are spelled by the text without its white space. -/
def Spells (ts : List Token) (cs : List Char) : Prop :=
  ts.flatMap spelling = cs.filter fun c => !isWhiteSpace c

/-- What the tokens of a text have to do with it.  Nothing of it is lost, numerals and words are
whole runs, and relations are taken before their first characters alone. -/
structure Tokenizes (ts : List Token) (cs : List Char) : Prop where
  spells : Spells ts cs
  number : ∀ us numeral vs, ts = us ++ .number numeral :: vs →
    ∃ before after, cs = before ++ numeral.toList ++ after ∧ Spells us before ∧ Spells vs after ∧
      WholeRun isNumeralChar before numeral.toList after
  word : ∀ us letters vs, ts = us ++ .word letters :: vs →
    ∃ before after, cs = before ++ letters ++ after ∧ Spells us before ∧ Spells vs after ∧
      WholeRun isAlphabetic before letters after
  relation : ∀ symbol ∈ ["<=", ">=", "!="], ∀ before after,
    cs = before ++ symbol.toList ++ after →
    ∃ us vs, ts = us ++ .relation symbol :: vs ∧ Spells us before ∧ Spells vs after

variable {c : Char} {cs rest context before after : List Char} {t : Token} {ts us : List Token}

/-! ## One step of the scan -/

/-- The next character could not be part of the token. -/
def Exhausts : Token → List Char → Prop
  | .number _, rest => ∀ c ∈ rest.head?, isNumeralChar c = false
  | .word _, rest => ∀ c ∈ rest.head?, isAlphabetic c = false
  | .bang, rest => rest.head? ≠ some '='
  | .relation symbol, rest => symbol = "<" ∨ symbol = ">" → rest.head? ≠ some '='
  | _, _ => True

/-- A token is taken from the front of a text, as long as it can be. -/
structure Takes (cs : List Char) (t : Token) (rest : List Char) : Prop where
  legible : t.Legible
  text_eq : cs = t.spelling ++ rest
  exhausts : t.Exhausts rest

lemma head?_dropWhile {p : Char → Bool} (cs : List Char) :
    ∀ c ∈ (cs.dropWhile p).head?, p c = false := by
  intro c hc
  have := List.head?_dropWhile_not p cs
  rw [hc] at this
  simpa using this

/-- A character that no equality sign completes is a token by itself, or none. -/
lemma ofSign_single (h : ¬ (c = '<' ∨ c = '>' ∨ c = '=' ∨ c = '!')) (cs : List Char) :
    ofSign c cs = match ofChar? c with
      | some t => .ok (t, cs)
      | none => .error (.unexpectedCharacter c) := by
  rw [ofSign]
  all_goals grind

/-- What is a single fixed character is neither of the tokens that could be longer. -/
lemma takes_of_ofChar? (h : ofChar? c = some t) (cs : List Char) : Takes (c :: cs) t cs := by
  unfold ofChar? at h
  split at h
  all_goals
    cases h
    try exact ⟨⟨trivial, by simp⟩, rfl, trivial⟩

lemma legible_relation {symbol : String} (h : symbol ∈ relationSymbols) :
    (relation symbol).Legible :=
  ⟨trivial, by rintro _ ⟨⟩; exact h⟩

lemma takes_of_ofSign (h : ofSign c cs = .ok (t, rest)) : Takes (c :: cs) t rest := by
  by_cases hc : c = '<' ∨ c = '>' ∨ c = '=' ∨ c = '!'
  · by_cases hcs : ∃ us, cs = '=' :: us
    · obtain ⟨us, rfl⟩ := hcs
      rcases hc with rfl | rfl | rfl | rfl
      all_goals
        cases h
        exact ⟨legible_relation (by decide), rfl, by simp [Exhausts]⟩
    · rw [not_exists] at hcs
      have hhead : cs.head? ≠ some '=' := fun hhead =>
        hcs _ (List.cons_head?_tail (Option.mem_def.mpr hhead)).symm
      rcases hc with rfl | rfl | rfl | rfl
      all_goals
        simp only [ofSign, Except.ok.injEq, Prod.mk.injEq] at h
        obtain ⟨rfl, rfl⟩ := h
      · exact ⟨legible_relation (by decide), rfl, fun _ => hhead⟩
      · exact ⟨legible_relation (by decide), rfl, fun _ => hhead⟩
      · exact ⟨legible_relation (by decide), rfl, fun _ => hhead⟩
      · exact ⟨⟨trivial, by simp⟩, rfl, hhead⟩
  · rw [ofSign_single hc] at h
    split at h
    · next hchar =>
      cases h
      exact takes_of_ofChar? hchar cs
    · cases h

/-- **What one step takes** is a token that could not be longer. -/
lemma takes_of_first (h : first c cs = .ok (t, rest)) : Takes (c :: cs) t rest := by
  have hlexical := lexical_of_first h
  unfold first at h
  split at h
  · split at h
    · cases h
    · cases h
      refine ⟨⟨hlexical, by simp⟩, ?_, head?_dropWhile _⟩
      rw [spelling, String.toList_ofList, List.takeWhile_append_dropWhile]
  · split at h
    · cases h
      exact ⟨⟨hlexical, by simp⟩, List.takeWhile_append_dropWhile.symm, head?_dropWhile _⟩
    · exact takes_of_ofSign h

/-- Induction along the scan of a text: a blank is dropped, and anything else begins with a token or
is refused. -/
theorem scan_induction {motive : List Char → Prop} (nil : motive [])
    (blank : ∀ {c cs}, isWhiteSpace c = true → motive cs → motive (c :: cs))
    (refused : ∀ {c cs error}, isWhiteSpace c = false → first c cs = .error error →
      motive (c :: cs))
    (token : ∀ {c cs t rest}, isWhiteSpace c = false → first c cs = .ok (t, rest) → motive rest →
      motive (c :: cs)) :
    ∀ cs, motive cs
  | [] => nil
  | c :: cs => by
      cases hblank : isWhiteSpace c with
      | true => exact blank hblank (scan_induction nil blank refused token cs)
      | false =>
          cases hfirst : first c cs with
          | error error => exact refused hblank hfirst
          | ok piece =>
              obtain ⟨t, rest⟩ := piece
              have hle := length_le_of_first hfirst
              exact token hblank hfirst (scan_induction nil blank refused token rest)
termination_by cs => cs.length

/-! ## Where runs end -/

lemma isNumeralChar_of_isWhiteSpace (h : isWhiteSpace c = true) : isNumeralChar c = false := by
  rw [← Bool.not_eq_true]
  intro hnumeral
  rw [isWhiteSpace_of_isNumeralChar hnumeral] at h
  cases h

lemma isAlphabetic_of_isWhiteSpace (h : isWhiteSpace c = true) : isAlphabetic c = false := by
  rw [← Bool.not_eq_true]
  intro hletter
  rw [isWhiteSpace_of_isAlphabetic hletter] at h
  cases h

/-- No run of digits and points, and no run of letters, goes on from `before` into `after`. -/
def Detached (before after : List Char) : Prop :=
  ∀ p ∈ [isNumeralChar, isAlphabetic],
    ∀ c ∈ before.getLast?, p c = true → ∀ d ∈ after.head?, p d = false

lemma Detached.nil (after : List Char) : Detached [] after := by
  rintro p _ c ⟨⟩

/-- White space ends all runs. -/
lemma Detached.blank (hc : isWhiteSpace c = true) (before after : List Char) :
    Detached (before ++ [c]) after := by
  intro p hp d hd hpd
  obtain rfl : c = d := by simpa using hd
  rcases List.mem_pair.mp hp with rfl | rfl
  · exact absurd hpd (by rw [isNumeralChar_of_isWhiteSpace hc]; decide)
  · exact absurd hpd (by rw [isAlphabetic_of_isWhiteSpace hc]; decide)

/-- A run of such characters does not go on to the left. -/
lemma Detached.left {p : Char → Bool} {run : List Char} (h : Detached before (run ++ after))
    (hp : p ∈ [isNumeralChar, isAlphabetic]) (hne : run ≠ []) (hrun : ∀ c ∈ run, p c = true) :
    ∀ c ∈ before.getLast?, p c = false := by
  intro c hc
  rw [← Bool.not_eq_true]
  intro hpc
  cases run with
  | nil => exact hne rfl
  | cons d run =>
      have hd : p d = false := h p hp c hc hpc d rfl
      rw [hrun d (List.mem_cons_self ..)] at hd
      cases hd

/-- Neither goes on behind a token that was taken. -/
lemma Takes.detached (h : Takes cs t rest) (before : List Char) :
    Detached (before ++ t.spelling) rest := by
  intro p hp c hc hpc d hd
  have hmem : c ∈ t.spelling := by
    rw [List.getLast?_append_of_ne_nil _ (spelling_ne_nil h.legible)] at hc
    exact List.mem_of_getLast? hc
  have hexhausts := h.exhausts
  rcases List.mem_pair.mp hp with rfl | rfl
  · obtain ⟨numeral, rfl⟩ := (isNumeralChar_iff h.legible hmem).mp hpc
    exact hexhausts d hd
  · obtain ⟨letters, rfl⟩ := (isAlphabetic_iff h.legible hmem).mp hpc
    exact hexhausts d hd

/-! ## The tokens of a text -/

/-- Tokens are spelled without white space. -/
lemma isWhiteSpace_of_mem_spelling (h : t.Legible) (hc : c ∈ t.spelling) :
    isWhiteSpace c = false := by
  obtain ⟨hlexical, hsymbol⟩ := h
  cases t with
  | number numeral => exact isWhiteSpace_of_isNumeralChar (hlexical.2.1 c hc)
  | word letters => exact isWhiteSpace_of_isAlphabetic (hlexical.2 c hc)
  | relation symbol =>
      have hsymbols : ∀ symbol ∈ relationSymbols, symbol.toList.any isWhiteSpace = false := by
        decide
      exact eq_false_of_ne_true
        (List.any_eq_false.mp (hsymbols symbol (hsymbol symbol rfl)) c hc)
  | _ =>
      obtain rfl := List.mem_singleton.mp hc
      decide

namespace Spells

lemma nil : Spells [] [] := rfl

lemma blank (h : Spells ts cs) (hc : isWhiteSpace c = true) : Spells ts (c :: cs) := by
  rw [Spells, List.filter_cons_of_neg (by simp [hc]), ← h]

lemma token (h : Spells ts cs) (ht : t.Legible) : Spells (t :: ts) (t.spelling ++ cs) := by
  have hspelling : t.spelling.filter (fun c => !isWhiteSpace c) = t.spelling := by
    rw [List.filter_eq_self]
    intro c hc
    rw [isWhiteSpace_of_mem_spelling ht hc]
    rfl
  rw [Spells, List.flatMap_cons, List.filter_append, hspelling, ← h]

end Spells

/-- How a text is taken apart: blanks are dropped, and tokens are taken as long as they can be. -/
inductive Scanned : List Char → List Token → Prop
  | nil : Scanned [] []
  | blank {c : Char} {cs : List Char} {ts : List Token} : isWhiteSpace c = true → Scanned cs ts →
      Scanned (c :: cs) ts
  | token {cs rest : List Char} {t : Token} {ts : List Token} : Takes cs t rest →
      Scanned rest ts → Scanned cs (t :: ts)

lemma scanned_of_ofChars (cs : List Char) (h : ofChars cs = .ok ts) : Scanned cs ts :=
  ofChars_induction (motive := Scanned) .nil .blank
    (fun hfirst hscanned => .token (takes_of_first hfirst) hscanned) cs h

namespace Scanned

/-- **Nothing is lost.**  The tokens are spelled by the text without its white space. -/
theorem spells (h : Scanned cs ts) : Spells ts cs := by
  induction h with
  | nil => exact .nil
  | blank hc _ ih => exact ih.blank hc
  | token htakes _ ih =>
      rw [htakes.text_eq]
      exact ih.token htakes.legible

/-- **Each token has its place**, where no run goes on into it, and where it could not be longer. -/
theorem exists_place (h : Scanned cs ts) (hcontext : Detached context cs) {t : Token}
    {us vs : List Token} (hts : ts = us ++ t :: vs) :
    ∃ before after, cs = before ++ t.spelling ++ after ∧ Spells us before ∧ Spells vs after ∧
      Detached (context ++ before) (t.spelling ++ after) ∧ t.Legible ∧ t.Exhausts after := by
  induction h generalizing context us with
  | nil => simp at hts
  | @blank c cs ts hc _ ih =>
      obtain ⟨before, after, rfl, hus, hvs, hdetached, ht⟩ :=
        ih (Detached.blank hc context cs) hts
      refine ⟨c :: before, after, rfl, hus.blank hc, hvs, ?_, ht⟩
      rwa [List.append_assoc, List.singleton_append] at hdetached
  | @token cs rest u ts htakes hscanned ih =>
      cases us with
      | nil =>
          obtain ⟨rfl, rfl⟩ := List.cons.inj hts
          refine ⟨[], rest, htakes.text_eq, .nil, hscanned.spells, ?_, htakes.legible,
            htakes.exhausts⟩
          rw [List.append_nil, ← htakes.text_eq]
          exact hcontext
      | cons v us =>
          obtain ⟨rfl, htail⟩ := List.cons.inj hts
          obtain ⟨before, after, rfl, hus, hvs, hdetached, ht⟩ := ih (htakes.detached context) htail
          refine ⟨u.spelling ++ before, after, ?_, hus.token htakes.legible, hvs, ?_, ht⟩
          · rw [htakes.text_eq, List.append_assoc, List.append_assoc, List.append_assoc]
          · rwa [← List.append_assoc]

/-- A whole run is found as a token of its own. -/
lemma exists_wholeRun {p : Char → Bool} {us vs : List Token} (h : Scanned cs (us ++ t :: vs))
    (hp : p ∈ [isNumeralChar, isAlphabetic]) (hpicked : ∀ c ∈ t.spelling, p c = true)
    (hright : ∀ rest, t.Exhausts rest → ∀ c ∈ rest.head?, p c = false) :
    ∃ before after, cs = before ++ t.spelling ++ after ∧ Spells us before ∧ Spells vs after ∧
      WholeRun p before t.spelling after := by
  obtain ⟨before, after, hcs, hus, hvs, hdetached, hlegible, hexhausts⟩ :=
    h.exists_place (Detached.nil cs) rfl
  have hne := spelling_ne_nil hlegible
  exact ⟨before, after, hcs, hus, hvs,
    ⟨hne, hpicked, hdetached.left hp hne hpicked, hright after hexhausts⟩⟩

lemma legible (h : Scanned cs ts) : ∀ t ∈ ts, t.Legible := by
  induction h with
  | nil => exact List.forall_mem_nil _
  | blank _ _ ih => exact ih
  | token htakes _ ih => exact List.forall_mem_cons.mpr ⟨htakes.legible, ih⟩

end Scanned

lemma forall_completable {p : Char → Prop} (h : p '<' ∧ p '>' ∧ p '!') :
    ∀ d ∈ ['<', '>', '!'], p d := by
  simpa using h

/-- A token with a sign that an equality sign could complete has nothing else in it. -/
lemma Legible.of_completable {d : Char} {run : List Char} (h : t.Legible)
    (hd : d ∈ ['<', '>', '!']) (hspelling : t.spelling = before ++ d :: run) :
    before = [] ∧ (run = [] ∧ (t = .bang ∨ t = .relation "<" ∨ t = .relation ">") ∨
      run = ['='] ∧ t = .relation (String.ofList [d, '='])) := by
  have hkinds : ∀ d ∈ ['<', '>', '!'], isNumeralChar d = false ∧ isAlphabetic d = false :=
    forall_completable (by decide)
  have hsymbols : ∀ d ∈ ['<', '>', '!'], ∀ symbol ∈ relationSymbols, d ∈ symbol.toList →
      symbol.toList = [d] ∧ (symbol = "<" ∨ symbol = ">") ∨
      symbol.toList = [d, '='] ∧ symbol = String.ofList [d, '='] ∧ d ≠ '=' :=
    forall_completable (by decide)
  obtain ⟨hnumeral, hletter⟩ := hkinds d hd
  have hmem : d ∈ t.spelling := by simp [hspelling]
  obtain ⟨hlexical, hsymbol⟩ := h
  cases t with
  | number numeral => simp [hlexical.2.1 d hmem] at hnumeral
  | word letters => simp [hlexical.2 d hmem] at hletter
  | relation symbol =>
      rw [spelling] at hspelling
      rcases hsymbols d hd symbol (hsymbol symbol rfl) hmem with
        ⟨hsingle, hrelation⟩ | ⟨hpair, hrelation, hne⟩
      · rw [hsingle, eq_comm, List.append_eq_singleton_iff] at hspelling
        grind
      · rw [hpair] at hspelling
        cases before <;> grind
  | _ => cases before <;> simp_all [spelling]

/-- An equality sign that follows such a sign is taken with it. -/
lemma Takes.of_completable {d : Char} {run : List Char} (h : Takes cs t rest)
    (hd : d ∈ ['<', '>', '!']) (hspelling : t.spelling = before ++ d :: run)
    (hrest : run ++ rest = '=' :: after) :
    before = [] ∧ t = .relation (String.ofList [d, '=']) ∧ rest = after := by
  have hexhausts := h.exhausts
  obtain ⟨hbefore, ⟨rfl, ht⟩ | ⟨rfl, ht⟩⟩ := h.legible.of_completable hd hspelling
  · have hhead : rest.head? ≠ some '=' := by
      rcases ht with rfl | rfl | rfl
      · exact hexhausts
      · exact hexhausts (.inl rfl)
      · exact hexhausts (.inr rfl)
    rw [← List.nil_append rest, hrest] at hhead
    exact absurd rfl hhead
  · exact ⟨hbefore, ht, (List.cons.inj hrest).2⟩

/-- **Relations of two characters are found wherever they stand.** -/
theorem Scanned.relation {d : Char} (h : Scanned cs ts) (hd : d ∈ ['<', '>', '!'])
    (hcs : cs = before ++ d :: '=' :: after) :
    ∃ us vs, ts = us ++ .relation (String.ofList [d, '=']) :: vs ∧ Spells us before ∧
      Spells vs after := by
  induction h generalizing before with
  | nil => simp at hcs
  | @blank c cs ts hc _ ih =>
      cases before with
      | nil =>
          have hsigns : ∀ d ∈ ['<', '>', '!'], isWhiteSpace d = false :=
            forall_completable (by decide)
          obtain ⟨rfl, -⟩ := List.cons.inj hcs
          rw [hsigns c hd] at hc
          cases hc
      | cons b before =>
          obtain ⟨rfl, htail⟩ := List.cons.inj hcs
          obtain ⟨us, vs, rfl, hus, hvs⟩ := ih htail
          exact ⟨us, vs, rfl, hus.blank hc, hvs⟩
  | @token cs rest t ts htakes hscanned ih =>
      rw [htakes.text_eq, List.append_eq_append_iff] at hcs
      have hbehind : ∀ mid, before = t.spelling ++ mid → rest = mid ++ d :: '=' :: after →
          ∃ us vs, t :: ts = us ++ .relation (String.ofList [d, '=']) :: vs ∧ Spells us before ∧
            Spells vs after := by
        rintro mid rfl hrest
        obtain ⟨us, vs, rfl, hus, hvs⟩ := ih hrest
        exact ⟨t :: us, vs, rfl, hus.token htakes.legible, hvs⟩
      rcases hcs with ⟨mid, hbefore, hrest⟩ | ⟨mid, hspelling, hrest⟩
      · exact hbehind mid hbefore hrest
      · cases mid with
        | nil =>
            rw [List.append_nil] at hspelling
            exact hbehind [] (by rw [hspelling, List.append_nil]) hrest.symm
        | cons e mid =>
            obtain ⟨rfl, hequals⟩ := List.cons.inj hrest
            obtain ⟨rfl, rfl, rfl⟩ := htakes.of_completable hd hspelling hequals.symm
            exact ⟨[], ts, rfl, .nil, hscanned.spells⟩

theorem Scanned.tokenizes (h : Scanned cs ts) : Tokenizes ts cs where
  spells := h.spells
  number := by
    rintro us numeral vs rfl
    have hlexical := (h.legible (.number numeral) (by simp)).1
    exact h.exists_wholeRun (by simp) hlexical.2.1 fun _ hrest => hrest
  word := by
    rintro us letters vs rfl
    have hlexical := (h.legible (.word letters) (by simp)).1
    exact h.exists_wholeRun (by simp) hlexical.2 fun _ hrest => hrest
  relation := by
    intro symbol hsymbol before after hcs
    have hfound : ∀ d ∈ ['<', '>', '!'], symbol.toList = [d, '='] →
        ∃ us vs, ts = us ++ .relation symbol :: vs ∧ Spells us before ∧ Spells vs after := by
      intro d hd htext
      obtain rfl : symbol = String.ofList [d, '='] := by rw [← htext, String.ofList_toList]
      rw [htext, List.append_assoc] at hcs
      exact h.relation hd hcs
    simp only [List.mem_cons, List.not_mem_nil, or_false] at hsymbol
    rcases hsymbol with rfl | rfl | rfl
    · exact hfound '<' (by simp) rfl
    · exact hfound '>' (by simp) rfl
    · exact hfound '!' (by simp) rfl

/-! ## Where a text is refused -/

lemma IsNumeral.wellWritten (h : IsNumeral cs) : WellWritten cs :=
  ⟨h.exists_isDigit, h.2.2⟩

lemma isReadable_of_mem_spelling (h : t.Legible) (hc : c ∈ t.spelling) : isReadable c = true := by
  obtain ⟨hlexical, hsymbol⟩ := h
  cases t with
  | number numeral =>
      have hnumeral := hlexical.2.1 c hc
      rw [isNumeralChar, Bool.or_eq_true] at hnumeral
      rcases hnumeral with hnumeral | hnumeral <;> simp [isReadable, hnumeral]
  | word letters => simp [isReadable, hlexical.2 c hc]
  | relation symbol =>
      have hsymbols : ∀ symbol ∈ relationSymbols, symbol.toList.all isReadable = true := by
        decide
      exact List.all_eq_true.mp (hsymbols symbol (hsymbol symbol rfl)) c hc
  | _ =>
      obtain rfl := List.mem_singleton.mp hc
      decide

namespace Clean

lemma nil (context rest : List Char) : Clean context [] rest := by
  simp [Clean]

lemma append {ds : List Char} (h : Clean context cs (ds ++ rest))
    (h' : Clean (context ++ cs) ds rest) : Clean context (cs ++ ds) rest := by
  intro before c after htext
  obtain ⟨mid, hbefore, hds⟩ | ⟨mid, hcs, hds⟩ := List.append_eq_append_iff.mp htext
  · rw [hbefore, ← List.append_assoc]
    exact h' mid c after hds
  · cases mid with
    | nil =>
        rw [List.append_nil] at hcs
        have := h' [] c after hds.symm
        rwa [List.append_nil, hcs] at this
    | cons d mid =>
        obtain ⟨rfl, rfl⟩ := List.cons.inj hds
        have := h before c mid hcs
        rwa [← List.append_assoc] at this

/-- No offence begins with a blank. -/
lemma blank (hc : isWhiteSpace c = true) (context rest : List Char) : Clean context [c] rest := by
  intro before d after htext hoffends
  cases before with
  | cons b before => simp at htext
  | nil =>
      obtain ⟨rfl, -⟩ := List.cons.inj htext
      generalize after ++ rest = behind at hoffends
      cases hoffends with
      | character hreadable => simp [isReadable, hc] at hreadable
      | run hwhole _ =>
          have hnumeral := hwhole.picked c (List.mem_cons_self ..)
          rw [isNumeralChar_of_isWhiteSpace hc] at hnumeral
          cases hnumeral

/-- No offence begins in a token that is taken. -/
lemma token (h : Takes cs t rest) (context : List Char) : Clean context t.spelling rest := by
  intro before c after hspelling hoffends
  have hmem : c ∈ t.spelling := by simp [hspelling]
  generalize hbehind : after ++ rest = behind at hoffends
  cases hoffends with
  | character hc =>
      rw [isReadable_of_mem_spelling h.legible hmem] at hc
      cases hc
  | @run run after' hwhole hbad =>
      have hc := hwhole.picked c (List.mem_cons_self ..)
      obtain ⟨numeral, rfl⟩ := (isNumeralChar_iff h.legible hmem).mp hc
      obtain ⟨⟨hlexical, -⟩, -, hexhausts⟩ := h
      rw [spelling] at hspelling
      rw [Lexical, hspelling] at hlexical
      -- the run is all of the numeral, since it is whole
      obtain rfl : before = [] := by
        rcases List.eq_nil_or_concat before with rfl | ⟨before, d, rfl⟩
        · rfl
        · have hd := hwhole.left d (by simp)
          rw [hlexical.2.1 d (by simp)] at hd
          cases hd
      obtain rfl : after = run := by
        have hafter : ∀ d ∈ after, isNumeralChar d = true := fun d hd =>
          hlexical.2.1 d (by simp [hd])
        have hrun : ∀ d ∈ run, isNumeralChar d = true := fun d hd =>
          hwhole.picked d (List.mem_cons_of_mem c hd)
        rw [← takeWhile_run hafter hexhausts, hbehind, takeWhile_run hrun hwhole.right]
      exact hbad hlexical.wellWritten

end Clean

/-- A character is refused as the beginning of a numeral, or as one that begins nothing. -/
lemma refusal_eq (c : Char) (cs : List Char) :
    refusal c cs =
      if startsNumeral (c :: cs) then .malformedNumber else .unexpectedCharacter c := by
  have hstarts : (c.isDigit || c == '.' && cs.head?.any Char.isDigit) =
      startsNumeral (c :: cs) := by
    cases cs <;> simp [startsNumeral]
  rw [refusal, hstarts]

/-- What begins with no sign is refused for its first character. -/
lemma of_ofSign_error {error : ReadError} (h : ofSign c cs = .error error) :
    c ∉ signs ∧ error = .unexpectedCharacter c := by
  by_cases hc : c = '<' ∨ c = '>' ∨ c = '=' ∨ c = '!'
  · rcases hc with rfl | rfl | rfl | rfl
    all_goals
      unfold ofSign at h
      grind
  · rw [ofSign_single hc] at h
    split at h
    · cases h
    · next hchar =>
      cases h
      have hsigns : (signs.all fun c =>
          decide (c = '<' ∨ c = '>' ∨ c = '=' ∨ c = '!') || (ofChar? c).isSome) = true := by
        decide
      refine ⟨fun hmem => ?_, rfl⟩
      have hsign := List.all_eq_true.mp hsigns c hmem
      rw [hchar, Option.isSome_none, Bool.or_false, decide_eq_true_eq] at hsign
      exact hc hsign

/-- A run that begins with a point and no digit behind it is no numeral. -/
lemma not_wellWritten_of_point (h : startsNumeral ('.' :: cs) ≠ true) :
    ¬ WellWritten ('.' :: cs.takeWhile isNumeralChar) := by
  rintro ⟨hdigit, hpoints⟩
  have hsingle : ¬ ∃ c ∈ ['.'], c.isDigit = true := by
    rintro ⟨c, hc, hdigit⟩
    obtain rfl := List.mem_singleton.mp hc
    cases hdigit
  cases cs with
  | nil => exact hsingle hdigit
  | cons d cs =>
      by_cases hd : isNumeralChar d = true
      · have hpoint : d = '.' := by
          have hdigit : d.isDigit ≠ true := fun hdigit => h (by simp [startsNumeral, hdigit])
          simpa [isNumeralChar, hdigit] using hd
        rw [List.takeWhile_cons_of_pos hd, hpoint, List.count_cons_self, List.count_cons_self]
          at hpoints
        omega
      · rw [List.takeWhile_cons_of_neg hd] at hdigit
        exact hsingle hdigit

/-- The run of digits and points in front of a text is an offence, if it is no numeral. -/
lemma offends_of_run (hcontext : Detached context (c :: cs)) (hc : isNumeralChar c = true)
    (hbad : ¬ WellWritten (c :: cs.takeWhile isNumeralChar)) : Offends context c cs := by
  have hpicked : ∀ d ∈ c :: cs.takeWhile isNumeralChar, isNumeralChar d = true :=
    List.forall_mem_cons.mpr ⟨hc, fun d hd => List.all_eq_true.mp List.all_takeWhile d hd⟩
  have hsplit := List.takeWhile_append_dropWhile (p := isNumeralChar) (l := cs)
  rw [← hsplit, ← List.cons_append] at hcontext
  rw [← hsplit]
  exact .run ⟨List.cons_ne_nil _ _, hpicked,
    hcontext.left (by simp) (List.cons_ne_nil _ _) hpicked, head?_dropWhile cs⟩ hbad

/-- **What one step refuses** is an offence. -/
lemma offends_of_first {error : ReadError} (hblank : isWhiteSpace c = false)
    (hcontext : Detached context (c :: cs)) (h : first c cs = .error error) :
    Offends context c cs ∧ error = refusal c cs := by
  rw [refusal_eq]
  unfold first at h
  split at h
  · next hstart =>
    have hc := isNumeralChar_of_startsNumeral hstart
    split at h
    · next hpoints =>
      cases h
      rw [List.takeWhile_cons_of_pos hc] at hpoints
      have hbad : ¬ WellWritten (c :: cs.takeWhile isNumeralChar) := fun hgood =>
        absurd hgood.2 (by omega)
      exact ⟨offends_of_run hcontext hc hbad, (if_pos hstart).symm⟩
    · cases h
  · next hstart =>
    split at h
    · cases h
    · next hletter =>
      rw [if_neg hstart]
      obtain ⟨hsigns, rfl⟩ := of_ofSign_error h
      refine ⟨?_, rfl⟩
      by_cases hpoint : c = '.'
      · subst hpoint
        exact offends_of_run hcontext (by decide) (not_wellWritten_of_point hstart)
      · have hdigit : c.isDigit = false := by
          rw [← Bool.not_eq_true]
          intro hdigit
          exact hstart (by cases cs <;> simp [startsNumeral, hdigit])
        refine .character ?_
        simp [isReadable, hblank, hletter, hdigit, hpoint, hsigns]

/-- What comes of a text behind `context`: tokens if there is no offence in it, and otherwise the
error of the leftmost one. -/
inductive Judged (context cs : List Char) : Except ReadError (List Token) → Prop
  | accepted {ts : List Token} : Clean context cs [] → Judged context cs (.ok ts)
  | refused {before : List Char} {c : Char} {after : List Char} : cs = before ++ c :: after →
      Offends (context ++ before) c after → Clean context before (c :: after) →
      Judged context cs (.error (refusal c after))

/-- Text without an offence in it leaves the judgement to what is behind it. -/
lemma Judged.behind {front : List Char} {result : Except ReadError (List Token)}
    (h : Judged (context ++ front) cs result) (hfront : Clean context front cs)
    (f : List Token → List Token) : Judged context (front ++ cs) (result.map f) := by
  cases h with
  | accepted hclean =>
      refine .accepted (Clean.append ?_ hclean)
      rwa [List.append_nil]
  | @refused before c after htext hoffends hclean =>
      subst htext
      rw [List.append_assoc] at hoffends
      exact .refused (List.append_assoc ..).symm hoffends (hfront.append hclean)

/-- **The leftmost offence decides.** -/
theorem judged_ofChars (cs : List Char) :
    ∀ {context : List Char}, Detached context cs → Judged context cs (ofChars cs) := by
  -- whether a whole run begins here depends on what is in front, so that varies with the text
  induction cs using scan_induction with
  | nil =>
      intro context _
      rw [ofChars_nil]
      exact .accepted (.nil context [])
  | @blank c cs hblank ih =>
      intro context _
      have hjudged := ih (Detached.blank hblank context cs)
      rw [ofChars_blank hblank]
      have := hjudged.behind (.blank hblank context cs) id
      rwa [List.singleton_append, Except.map_id] at this
  | @refused c cs error hblank hfirst =>
      intro context hcontext
      obtain ⟨hoffends, rfl⟩ := offends_of_first hblank hcontext hfirst
      rw [ofChars_first hblank, hfirst]
      refine .refused (List.nil_append _).symm ?_ (.nil context _)
      rwa [List.append_nil]
  | @token c cs t rest hblank hfirst ih =>
      intro context _
      have htakes := takes_of_first hfirst
      have hjudged := ih (htakes.detached context)
      rw [ofChars_first hblank, hfirst, htakes.text_eq]
      exact hjudged.behind (.token htakes context) (t :: ·)

namespace FirstOffence

variable {before' after' : List Char} {c' : Char}

lemma not_clean (h : FirstOffence cs before c after) : ¬ Clean [] cs [] := by
  intro hclean
  have := hclean before c after h.text_eq
  rw [List.append_nil] at this
  exact this h.offends

/-- No text in front of a leftmost offence has the place of another one. -/
lemma before_ne (h : FirstOffence cs before c after) (h' : FirstOffence cs before' c' after')
    (mid : List Char) : before' ≠ before ++ c :: mid := by
  rintro rfl
  have htext := h.text_eq.symm.trans h'.text_eq
  rw [List.append_assoc, List.append_cancel_left_eq] at htext
  obtain ⟨-, rfl⟩ := List.cons.inj htext
  exact h'.clean before c mid rfl h.offends

/-- There is one leftmost offence only. -/
lemma unique (h : FirstOffence cs before c after) (h' : FirstOffence cs before' c' after') :
    before = before' ∧ c = c' ∧ after = after' := by
  obtain ⟨mid, hbefore, hmid⟩ | ⟨mid, hbefore, hmid⟩ :=
    List.append_eq_append_iff.mp (h.text_eq.symm.trans h'.text_eq)
  · cases mid with
    | nil => simp_all
    | cons d mid =>
        obtain ⟨rfl, -⟩ := List.cons.inj hmid
        exact absurd hbefore (h.before_ne h' mid)
  · cases mid with
    | nil => simp_all
    | cons d mid =>
        obtain ⟨rfl, -⟩ := List.cons.inj hmid
        exact absurd hbefore (h'.before_ne h mid)

end FirstOffence

namespace Judged

variable {result : Except ReadError (List Token)}

lemma ok_iff (h : Judged [] cs result) : (∃ ts, result = .ok ts) ↔ Clean [] cs [] := by
  cases h with
  | accepted hclean => exact ⟨fun _ => hclean, fun _ => ⟨_, rfl⟩⟩
  | refused htext hoffends hclean =>
      exact ⟨nofun, fun hall => absurd hall (FirstOffence.mk htext hoffends hclean).not_clean⟩

lemma error_iff (h : Judged [] cs result) (error : ReadError) :
    result = .error error ↔
      ∃ before c after, FirstOffence cs before c after ∧ error = refusal c after := by
  cases h with
  | accepted hclean => exact ⟨nofun, fun ⟨_, _, _, hfirst, _⟩ => absurd hclean hfirst.not_clean⟩
  | refused htext hoffends hclean =>
      have hfirst := FirstOffence.mk htext hoffends hclean
      constructor
      · rintro ⟨⟩
        exact ⟨_, _, _, hfirst, rfl⟩
      · rintro ⟨before, c, after, hfirst', rfl⟩
        obtain ⟨rfl, rfl, rfl⟩ := hfirst.unique hfirst'
        rfl

end Judged

/-- A text without an offence is one of readable characters and numerals. -/
lemma clean_iff : Clean [] cs [] ↔ (∀ c ∈ cs, isReadable c = true) ∧
    ∀ before run after, cs = before ++ run ++ after → WholeRun isNumeralChar before run after →
      WellWritten run := by
  constructor
  · intro hclean
    refine ⟨fun c hc => ?_, fun before run after htext hwhole => ?_⟩
    · obtain ⟨before, after, htext⟩ := List.append_of_mem hc
      rw [← Bool.not_eq_false]
      exact fun hreadable => hclean before c after htext (.character hreadable)
    · cases run with
      | nil => exact absurd rfl hwhole.ne_nil
      | cons c run =>
          by_contra hbad
          rw [List.append_assoc, List.cons_append] at htext
          refine hclean before c (run ++ after) htext ?_
          rw [List.append_nil]
          exact .run hwhole hbad
  · rintro ⟨hreadable, hruns⟩ before c behind htext hoffends
    rw [List.append_nil] at hoffends
    cases hoffends with
    | character hc =>
        rw [hreadable c (by simp [htext])] at hc
        cases hc
    | run hwhole hbad => exact hbad (hruns before _ _ (by simp [htext]) hwhole)

/-- **Scanning is exact.**
* A text has tokens just if all its characters are ones that expressions are written with, and all
  its whole runs of digits and points are numerals.
* The tokens are spelled by the text without its white space.  Numerals and words are whole runs,
  and relations of two characters are found wherever they stand.
* Another text is refused for its leftmost offence, as a malformed number if that begins like a
  numeral, and else for its first character. -/
theorem ofText_exact (text : String) :
    ((∃ ts, ofText text = .ok ts) ↔
      (∀ c ∈ text.toList, isReadable c = true) ∧
      ∀ before run after, text.toList = before ++ run ++ after →
        WholeRun isNumeralChar before run after → WellWritten run) ∧
    (∀ ts, ofText text = .ok ts → Tokenizes ts text.toList) ∧
    ∀ error, ofText text = .error error ↔
      ∃ before c after, FirstOffence text.toList before c after ∧ error = refusal c after := by
  have hjudged := judged_ofChars text.toList (Detached.nil text.toList)
  rw [ofText, ← clean_iff]
  exact ⟨hjudged.ok_iff, fun ts hts => (scanned_of_ofChars _ hts).tokenizes, hjudged.error_iff⟩

/-- A point is part of a numeral, or an offence. -/
example :
    ofText "x!=2.<=.5" = .ok [.word ['x'], .relation "!=", .number "2.", .relation "<=",
      .number ".5"] ∧
    ofText "x . ?" = .error (.unexpectedCharacter '.') ∧
    ofText "x..5" = .error (.unexpectedCharacter '.') ∧
    ofText "x.5.?" = .error .malformedNumber := by
  decide +kernel

end Token

end MathExpr
