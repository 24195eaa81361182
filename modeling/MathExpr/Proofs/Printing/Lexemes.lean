import Mathlib.Tactic.Lemma
import MathExpr.Expr.Basic
import MathExpr.Token.Scan

/-!
# Lexemes

Text is taken apart into the longest numerals and words there are.  A printed piece of text
therefore keeps its tokens only where the next character cannot be one more of its last token, and
printing takes care that this is so.

* `Text.isAlphabetic_eq_contains` — letters are told by their table alone.
* `Token.ofChars_blank`, `Token.ofChars_first` — how scanning goes on.
* `Token.IsNumeral`, `Token.IsWord` — the texts of numerals and of words.
* `Token.Separates` — what may follow any piece of text.
* `Token.Scans` — the tokens of a piece of text, whatever separate text follows it.
* `Token.Scans.append` and its neighbours — how such pieces are put together.
* `Token.ofChars_induction` — induction along the scan of a text.
* `Token.lexical_of_ofChars` — scanning makes nothing but such numerals and words.
-/

namespace MathExpr

/-! ## Characters -/

namespace Text

variable {c : Char}

lemma CodePointRanges.contains_iff {ranges : CodePointRanges} :
    ranges.contains c = true ↔ ∃ range ∈ ranges, range.1 ≤ c.toNat ∧ c.toNat ≤ range.2 := by
  simp [CodePointRanges.contains]

/-- Beyond its two ASCII ranges the table starts above ASCII. -/
lemma alphabeticRanges_ascii : ∀ range ∈ alphabeticRanges,
    range = (0x41, 0x5A) ∨ range = (0x61, 0x7A) ∨ 128 ≤ range.1 := by
  decide +kernel

/-- The table alone gives the same answers. -/
lemma isAlphabetic_eq_contains (c : Char) : isAlphabetic c = alphabeticRanges.contains c := by
  unfold isAlphabetic
  split
  · next h =>
    have alpha : c.isAlpha = true ↔
        (0x41 ≤ c.toNat ∧ c.toNat ≤ 0x5A) ∨ (0x61 ≤ c.toNat ∧ c.toNat ≤ 0x7A) := by
      delta Char.isAlpha Char.isUpper Char.isLower
      simp [UInt32.le_iff_toNat_le]
    rw [Bool.eq_iff_iff, alpha, CodePointRanges.contains_iff]
    constructor
    · rintro (h | h)
      · exact ⟨(0x41, 0x5A), .head _, h⟩
      · exact ⟨(0x61, 0x7A), .tail _ (.head _), h⟩
    · rintro ⟨range, hmem, hrange⟩
      rcases alphabeticRanges_ascii range hmem with rfl | rfl | hlow
      · exact .inl hrange
      · exact .inr hrange
      · omega
  · rfl

/-- Letters come after the signs and the digits. -/
lemma le_toNat_of_isAlphabetic (h : isAlphabetic c = true) : 0x41 ≤ c.toNat := by
  rw [isAlphabetic_eq_contains, CodePointRanges.contains_iff] at h
  obtain ⟨range, hmem, hrange⟩ := h
  have hlow : ∀ range ∈ alphabeticRanges, 0x41 ≤ range.1 := by decide +kernel
  exact Nat.le_trans (hlow range hmem) hrange.1

/-- No letter is white space. -/
lemma isWhiteSpace_of_isAlphabetic (h : isAlphabetic c = true) : isWhiteSpace c = false := by
  rw [isAlphabetic_eq_contains, CodePointRanges.contains_iff] at h
  obtain ⟨range, hmem, hrange⟩ := h
  have hdisjoint : ∀ blank ∈ whiteSpaceRanges, ∀ range ∈ alphabeticRanges,
      blank.2 < range.1 ∨ range.2 < blank.1 := by decide +kernel
  rw [← Bool.not_eq_true, isWhiteSpace, CodePointRanges.contains_iff]
  rintro ⟨blank, hblank, hc⟩
  have := hdisjoint blank hblank range hmem
  omega

end Text

namespace Token

open Text

variable {c : Char} {cs ds letters rest : List Char} {t : Token} {ts us : List Token}

lemma ofChars_nil : ofChars [] = .ok [] := by
  rw [ofChars]

/-- Leading white space is dropped. -/
lemma ofChars_blank (h : isWhiteSpace c = true) (cs : List Char) :
    ofChars (c :: cs) = ofChars cs := by
  rw [ofChars, if_pos h]

/-- Anything else begins with a token. -/
lemma ofChars_first (h : isWhiteSpace c = false) (cs : List Char) :
    ofChars (c :: cs) = (first c cs).bind fun (t, rest) => (ofChars rest).map (t :: ·) := by
  rw [ofChars, if_neg (by simp [h])]
  split <;> simp_all [Except.bind]

/-- The characters of numerals lie side by side, apart from a sign. -/
lemma toNat_of_isNumeralChar (h : isNumeralChar c = true) : 46 ≤ c.toNat ∧ c.toNat ≤ 57 := by
  simp only [isNumeralChar, Bool.or_eq_true, beq_iff_eq] at h
  rcases h with h | rfl
  · simp only [Char.isDigit, Bool.and_eq_true, decide_eq_true_eq, ge_iff_le,
      UInt32.le_iff_toNat_le] at h
    exact ⟨Nat.le_trans (by decide) h.1, h.2⟩
  · decide

lemma isWhiteSpace_of_isNumeralChar (h : isNumeralChar c = true) : isWhiteSpace c = false := by
  have hdisjoint : ∀ blank ∈ whiteSpaceRanges, blank.2 < 46 ∨ 57 < blank.1 := by decide +kernel
  have hc := toNat_of_isNumeralChar h
  rw [← Bool.not_eq_true, isWhiteSpace, CodePointRanges.contains_iff]
  rintro ⟨blank, hblank, hblank'⟩
  have := hdisjoint blank hblank
  omega

lemma isNumeralChar_of_isAlphabetic (h : isAlphabetic c = true) : isNumeralChar c = false := by
  have hlow := le_toNat_of_isAlphabetic h
  rw [← Bool.not_eq_true]
  intro hc
  have := toNat_of_isNumeralChar hc
  omega

lemma startsNumeral_of_not (h : isNumeralChar c = false) (cs : List Char) :
    startsNumeral (c :: cs) = false := by
  rw [← Bool.not_eq_true]
  intro hc
  simp [isNumeralChar_of_startsNumeral hc] at h

/-! ## Numerals, words and signs -/

/-- The texts that are scanned as one numeral. -/
def IsNumeral (cs : List Char) : Prop :=
  startsNumeral cs = true ∧ (∀ c ∈ cs, isNumeralChar c = true) ∧ cs.count '.' ≤ 1

instance : Decidable (IsNumeral cs) :=
  decidable_of_iff (startsNumeral cs ∧ cs.all isNumeralChar ∧ cs.count '.' ≤ 1) (by
    rw [IsNumeral, List.all_eq_true])

/-- A numeral has a digit at its beginning, or behind a point there. -/
lemma IsNumeral.exists_isDigit (h : IsNumeral cs) : ∃ c ∈ cs, c.isDigit = true := by
  obtain ⟨hstart, -, -⟩ := h
  match cs with
  | [c] => exact ⟨c, by simp, hstart⟩
  | c :: d :: cs =>
      rw [startsNumeral, Bool.or_eq_true, Bool.and_eq_true] at hstart
      rcases hstart with hc | ⟨-, hd⟩
      · exact ⟨c, by simp, hc⟩
      · exact ⟨d, by simp, hd⟩

/-- The texts that are scanned as one word. -/
def IsWord (letters : List Char) : Prop :=
  letters ≠ [] ∧ ∀ c ∈ letters, isAlphabetic c = true

instance : Decidable (IsWord letters) :=
  decidable_of_iff (letters ≠ [] ∧ letters.all isAlphabetic) (by
    rw [IsWord, List.all_eq_true])

/-- The text does not begin with a character that could prolong the last token in front of it. -/
def Separates (rest : List Char) : Prop :=
  ∀ c ∈ rest.head?, isAlphabetic c = false ∧ isNumeralChar c = false ∧ c ≠ '='

instance : Decidable (Separates rest) :=
  decidable_of_iff (rest.head?.all fun c => !isAlphabetic c && !isNumeralChar c && c != '=') (by
    cases rest <;> simp [Separates, and_assoc])

lemma Separates.nil : Separates [] := by
  simp [Separates]

lemma Separates.append (hne : cs ≠ []) (h : Separates cs) (ds : List Char) :
    Separates (cs ++ ds) := by
  cases cs with
  | nil => exact absurd rfl hne
  | cons c cs => exact h

lemma Separates.cons (h : Separates [c]) (ds : List Char) : Separates (c :: ds) :=
  h.append (by simp) ds

/-- A piece of text has the tokens `ts`, whatever separate text follows it. -/
def Scans (cs : List Char) (ts : List Token) : Prop :=
  ∀ rest, Separates rest → ofChars (cs ++ rest) = (ofChars rest).map (ts ++ ·)

lemma takeWhile_run {p : Char → Bool} (hcs : ∀ c ∈ cs, p c = true)
    (hrest : ∀ c ∈ rest.head?, p c = false) : (cs ++ rest).takeWhile p = cs := by
  rw [List.takeWhile_append_of_pos hcs]
  cases rest with
  | nil => simp
  | cons d rest => simp [hrest d rfl]

lemma dropWhile_run {p : Char → Bool} (hcs : ∀ c ∈ cs, p c = true)
    (hrest : ∀ c ∈ rest.head?, p c = false) : (cs ++ rest).dropWhile p = rest := by
  rw [List.dropWhile_append_of_pos hcs]
  cases rest with
  | nil => rfl
  | cons d rest => simp [hrest d rfl]

lemma startsNumeral_append (h : startsNumeral cs = true) (rest : List Char) :
    startsNumeral (cs ++ rest) = true := by
  match cs, rest with
  | [c], [] => exact h
  | [c], d :: rest =>
      rw [startsNumeral] at h
      simp [startsNumeral, h]
  | c :: d :: cs, rest => exact h

namespace Scans

lemma nil : Scans [] [] := fun rest _ => by
  cases h : ofChars rest <;> simp [h, Except.map]

/-- A piece of text has its tokens also by itself. -/
lemma ofChars_eq (h : Scans cs ts) : ofChars cs = .ok ts := by
  have := h [] .nil
  rw [List.append_nil, ofChars_nil] at this
  simpa [Except.map] using this

/-- Text with tokens is not empty. -/
lemma ne_nil (h : Scans cs ts) (hts : ts ≠ []) : cs ≠ [] := by
  rintro rfl
  have hnil := h.ofChars_eq
  rw [ofChars_nil, Except.ok.injEq] at hnil
  exact hts hnil.symm

/-- Two pieces of text, the second of which is separate from the first. -/
lemma append (h : Scans cs ts) (h' : Scans ds us) (hne : ds ≠ []) (hds : Separates ds) :
    Scans (cs ++ ds) (ts ++ us) := fun rest hrest => by
  rw [List.append_assoc, h (ds ++ rest) (hds.append hne rest), h' rest hrest]
  cases ofChars rest <;> simp [Except.map]

/-- What begins with one token goes on as the text after it. -/
lemma of_first (cs ds : List Char) (hblank : isWhiteSpace c = false)
    (hfirst : ∀ rest, Separates rest → first c (cs ++ (ds ++ rest)) = .ok (t, ds ++ rest))
    (h : Scans ds us) : Scans (c :: cs ++ ds) (t :: us) := fun rest hrest => by
  rw [List.append_assoc, List.cons_append, ofChars_first hblank, hfirst rest hrest]
  simp only [Except.bind]
  rw [h rest hrest]
  cases ofChars rest <;> simp [Except.map]

/-- A blank is no token. -/
lemma blank (h : Scans ds us) : Scans (' ' :: ds) us := fun rest hrest => by
  rw [List.cons_append, ofChars_blank (by decide), h rest hrest]

/-- A numeral. -/
lemma numeral (h : IsNumeral cs) : Scans cs [.number (String.ofList cs)] := by
  obtain ⟨hstart, hchars, hpoints⟩ := h
  cases cs with
  | nil => simp [startsNumeral] at hstart
  | cons c cs =>
      have hblank := isWhiteSpace_of_isNumeralChar (hchars c (by simp))
      have hfirst : ∀ rest, Separates rest →
          first c (cs ++ ([] ++ rest)) = .ok (.number (String.ofList (c :: cs)), [] ++ rest) := by
        intro rest hrest
        have hboundary : ∀ d ∈ rest.head?, isNumeralChar d = false := fun d hd => (hrest d hd).2.1
        unfold first
        rw [List.nil_append, ← List.cons_append, if_pos (startsNumeral_append hstart rest),
          takeWhile_run hchars hboundary, dropWhile_run hchars hboundary, if_neg (by omega)]
      simpa using of_first cs [] hblank hfirst nil

/-- A word. -/
lemma word (h : IsWord letters) : Scans letters [.word letters] := by
  obtain ⟨hne, hletters⟩ := h
  cases letters with
  | nil => exact absurd rfl hne
  | cons c letters =>
      have hc := hletters c (by simp)
      have hnumeral := isNumeralChar_of_isAlphabetic hc
      have hfirst : ∀ rest, Separates rest →
          first c (letters ++ ([] ++ rest)) = .ok (.word (c :: letters), [] ++ rest) := by
        intro rest hrest
        have hboundary : ∀ d ∈ rest.head?, isAlphabetic d = false := fun d hd => (hrest d hd).1
        unfold first
        rw [startsNumeral_of_not hnumeral, if_neg (by decide), if_pos hc, List.nil_append,
          ← List.cons_append, takeWhile_run hletters hboundary, dropWhile_run hletters hboundary]
      simpa using of_first letters [] (isWhiteSpace_of_isAlphabetic hc) hfirst nil

/-- A character that is a token by itself. -/
lemma sign (hc : ofChar? c = some t) (h : Scans ds us) : Scans (c :: ds) (t :: us) := by
  have hc' : isWhiteSpace c = false ∧ isNumeralChar c = false ∧ isAlphabetic c = false ∧
      ∀ cs, ofSign c cs = .ok (t, cs) := by
    unfold ofChar? at hc
    split at hc
    all_goals
      cases hc
      try exact ⟨by decide, by decide, by decide, fun cs => by simp [ofSign, ofChar?]⟩
  obtain ⟨hblank, hnumeral, hletter, hsign⟩ := hc'
  refine of_first [] ds hblank (fun rest _ => ?_) h
  rw [first, List.nil_append, startsNumeral_of_not hnumeral, if_neg (by decide), hletter,
    if_neg (by decide), hsign]

/-- A factorial sign, which nothing separate makes a part of `!=`. -/
lemma bang : Scans ['!'] [.bang] := by
  refine of_first [] [] (by decide) (fun rest hrest => ?_) nil
  rw [first, startsNumeral_of_not (by decide), if_neg (by decide),
    show isAlphabetic '!' = false by decide, if_neg (by decide)]
  cases rest with
  | nil => rfl
  | cons d rest =>
      have hd : d ≠ '=' := (hrest d rfl).2.2
      simp [ofSign, hd]

/-- A relation symbol, which a blank keeps from taking in what follows. -/
lemma relation {op : Operator} {symbol : String} (hop : op.relationSymbol? = some symbol)
    (h : Scans ds us) : Scans (symbol.toList ++ ' ' :: ds) (.relation symbol :: us) := by
  have hsigns : ∃ c cs, symbol.toList = c :: cs ∧ isWhiteSpace c = false ∧
      isNumeralChar c = false ∧ isAlphabetic c = false ∧
      ∀ rest, ofSign c (cs ++ ' ' :: rest) = .ok (.relation symbol, ' ' :: rest) := by
    cases op with
    | eq | lt | gt =>
        cases hop
        exact ⟨_, [], rfl, by decide, by decide, by decide, fun rest => rfl⟩
    | ne | le | ge =>
        cases hop
        exact ⟨_, ['='], rfl, by decide, by decide, by decide, fun rest => rfl⟩
    | _ => cases hop
  obtain ⟨c, cs, hsymbol, hblank, hnumeral, hletter, hsign⟩ := hsigns
  rw [hsymbol]
  refine of_first cs (' ' :: ds) hblank (fun rest _ => ?_) (blank h)
  rw [first, startsNumeral_of_not hnumeral, if_neg (by decide), hletter, if_neg (by decide),
    List.cons_append, hsign]

end Scans

/-! ## What scanning makes -/

/-- Numerals and words are spelled as such; the other tokens have no texts of their own. -/
def Lexical : Token → Prop
  | .number numeral => IsNumeral numeral.toList
  | .word letters => IsWord letters
  | _ => True

lemma lexical_of_ofSign (h : ofSign c cs = .ok (t, rest)) : t.Lexical := by
  have hsign : ∀ {c : Char} {t : Token}, ofChar? c = some t → t.Lexical := by
    intro c t h
    unfold ofChar? at h
    split at h <;> cases h <;> trivial
  unfold ofSign at h
  split at h
  case h_8 =>
    split at h
    · next hc =>
      cases h
      exact hsign hc
    · cases h
  all_goals
    cases h
    trivial

lemma startsNumeral_takeWhile (h : startsNumeral cs = true) :
    startsNumeral (cs.takeWhile isNumeralChar) = true := by
  match cs with
  | [c] =>
      have hc := isNumeralChar_of_startsNumeral h
      simpa [hc] using h
  | c :: d :: cs =>
      have hc := isNumeralChar_of_startsNumeral h
      rw [startsNumeral, Bool.or_eq_true] at h
      by_cases hd : isNumeralChar d = true
      · simpa [hc, hd, startsNumeral] using h
      · rcases h with h | h
        · simp [hc, hd, startsNumeral, h]
        · simp_all [isNumeralChar]

lemma lexical_of_first (h : first c cs = .ok (t, rest)) : t.Lexical := by
  unfold first at h
  split at h
  · next hstart =>
    split at h
    · cases h
    · next hpoints =>
      cases h
      rw [Lexical, String.toList_ofList]
      refine ⟨startsNumeral_takeWhile hstart, fun d hd => ?_, by omega⟩
      exact List.all_eq_true.mp List.all_takeWhile d hd
  · split at h
    · next hc =>
      cases h
      refine ⟨by simp [hc], fun d hd => ?_⟩
      exact List.all_eq_true.mp List.all_takeWhile d hd
    · exact lexical_of_ofSign h

/-- Induction along the scan of a text that has tokens: a blank is dropped, and anything else begins
with a token. -/
theorem ofChars_induction {motive : List Char → List Token → Prop} (nil : motive [] [])
    (blank : ∀ {c cs ts}, isWhiteSpace c = true → motive cs ts → motive (c :: cs) ts)
    (token : ∀ {c cs t rest ts}, first c cs = .ok (t, rest) → motive rest ts →
      motive (c :: cs) (t :: ts)) :
    ∀ (cs : List Char) {ts : List Token}, ofChars cs = .ok ts → motive cs ts
  | [], ts, h => by
      rw [ofChars_nil] at h
      cases h
      exact nil
  | c :: cs, ts, h => by
      cases hblank : isWhiteSpace c with
      | true =>
          rw [ofChars_blank hblank] at h
          exact blank hblank (ofChars_induction nil blank token cs h)
      | false =>
          rw [ofChars_first hblank] at h
          cases hfirst : first c cs with
          | error error => simp [hfirst, Except.bind] at h
          | ok piece =>
              obtain ⟨t, rest⟩ := piece
              have hle := length_le_of_first hfirst
              cases hrest : ofChars rest with
              | error error => simp [hfirst, hrest, Except.bind, Except.map] at h
              | ok us =>
                  simp only [hfirst, hrest, Except.bind, Except.map, Except.ok.injEq] at h
                  subst h
                  exact token hfirst (ofChars_induction nil blank token rest hrest)
termination_by cs => cs.length

/-- Every token of a text is spelled as tokens of its kind are. -/
theorem lexical_of_ofChars (cs : List Char) {ts : List Token} (h : ofChars cs = .ok ts) :
    ∀ t ∈ ts, t.Lexical := by
  refine ofChars_induction (motive := fun _ ts => ∀ t ∈ ts, t.Lexical) (by simp)
    (fun _ ih => ih) (fun hfirst ih => ?_) cs h
  exact List.forall_mem_cons.mpr ⟨lexical_of_first hfirst, ih⟩

end Token

end MathExpr
