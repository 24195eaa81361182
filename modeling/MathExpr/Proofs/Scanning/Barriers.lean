import MathExpr.Proofs.Scanning.Runs

/-!
# White space between tokens

Scanning looks one character ahead, and numerals and words run on as far as they can.  Still no
character behind white space has a say in what stands in front of it: a text is scanned piece by
piece, and the first piece that is refused decides about the error.  So tokens that are spelled out
with white space in between are found again.

* `Token.first_append` — separate text changes nothing about the token in front of it.
* **`Token.ofChars_append`** — hence a text and separate text behind it are scanned one by one.
* `Token.Spaced` — the texts that spell out tokens with white space between them.
* **`Token.ofText_blank`** — white space is a barrier, and scanning undoes spelling.
-/

namespace MathExpr.Token

open Text

variable {c : Char} {cs rest : List Char} {t : Token} {ts : List Token}

/-! ## Separate text -/

lemma takeWhile_append_of_head? {p : Char → Bool} (hrest : ∀ c ∈ rest.head?, p c = false)
    (cs : List Char) : (cs ++ rest).takeWhile p = cs.takeWhile p := by
  induction cs with
  | nil => exact takeWhile_run (List.forall_mem_nil _) hrest
  | cons c cs ih => rw [List.cons_append, List.takeWhile_cons, List.takeWhile_cons, ih]

lemma dropWhile_append_of_head? {p : Char → Bool} (hrest : ∀ c ∈ rest.head?, p c = false)
    (cs : List Char) : (cs ++ rest).dropWhile p = cs.dropWhile p ++ rest := by
  induction cs with
  | nil => exact dropWhile_run (List.forall_mem_nil _) hrest
  | cons c cs ih =>
      rw [List.cons_append, List.dropWhile_cons, List.dropWhile_cons, ih]
      split <;> rfl

namespace Separates

lemma not_isNumeralChar (h : Separates rest) : ∀ c ∈ rest.head?, isNumeralChar c = false :=
  fun c hc => (h c hc).2.1

lemma not_isAlphabetic (h : Separates rest) : ∀ c ∈ rest.head?, isAlphabetic c = false :=
  fun c hc => (h c hc).1

/-- White space separates. -/
lemma of_isWhiteSpace (hc : isWhiteSpace c = true) (rest : List Char) : Separates (c :: rest) := by
  rintro _ ⟨⟩
  refine ⟨isAlphabetic_of_isWhiteSpace hc, isNumeralChar_of_isWhiteSpace hc, ?_⟩
  rintro rfl
  cases hc

end Separates

lemma startsNumeral_append_separate (h : Separates rest) (c : Char) (cs : List Char) :
    startsNumeral (c :: (cs ++ rest)) = startsNumeral (c :: cs) := by
  match cs, rest with
  | _ :: _, _ => rfl
  | [], [] => rfl
  | [], d :: rest =>
      -- a point in front of separate text has no digit behind it
      have hd : d.isDigit = false := by
        have hnumeral := h.not_isNumeralChar d rfl
        rw [isNumeralChar, Bool.or_eq_false_iff] at hnumeral
        exact hnumeral.1
      simp [startsNumeral, hd]

lemma ofSign_append (h : Separates rest) (c : Char) (cs : List Char) :
    ofSign c (cs ++ rest) = (ofSign c cs).map fun p => (p.1, p.2 ++ rest) := by
  by_cases hc : c = '<' ∨ c = '>' ∨ c = '=' ∨ c = '!'
  · by_cases hcs : ∃ us, cs = '=' :: us
    · obtain ⟨us, rfl⟩ := hcs
      rcases hc with rfl | rfl | rfl | rfl <;> rfl
    · have hequals : ∀ us, cs ++ rest ≠ '=' :: us := by
        rintro us hus
        cases cs with
        | nil =>
            rw [List.nil_append] at hus
            exact (h '=' (by rw [hus]; rfl)).2.2 rfl
        | cons d cs => exact hcs ⟨cs, by rw [(List.cons.inj hus).1]⟩
      rw [not_exists] at hcs
      -- the equations of a single character ask for `hcs` and `hequals`
      rcases hc with rfl | rfl | rfl | rfl <;> simp [ofSign, Except.map]
  · rw [ofSign_single hc, ofSign_single hc]
    cases ofChar? c <;> rfl

/-- The token that a text begins with does not depend on separate text behind the text. -/
lemma first_append (h : Separates rest) (c : Char) (cs : List Char) :
    first c (cs ++ rest) = (first c cs).map fun p => (p.1, p.2 ++ rest) := by
  unfold first
  rw [startsNumeral_append_separate h, ← List.cons_append,
    takeWhile_append_of_head? h.not_isNumeralChar, dropWhile_append_of_head? h.not_isNumeralChar,
    takeWhile_append_of_head? h.not_isAlphabetic, dropWhile_append_of_head? h.not_isAlphabetic,
    ofSign_append h]
  split_ifs <;> rfl

/-- **Separate text is scanned by itself.**  Of two errors the one in front decides. -/
theorem ofChars_append (h : Separates rest) (cs : List Char) :
    ofChars (cs ++ rest) = (ofChars cs).bind fun ts => (ofChars rest).map (ts ++ ·) := by
  induction cs using scan_induction with
  | nil =>
      rw [List.nil_append, ofChars_nil]
      cases ofChars rest <;> rfl
  | blank hblank ih => rw [List.cons_append, ofChars_blank hblank, ofChars_blank hblank, ih]
  | refused hblank hfirst =>
      rw [List.cons_append, ofChars_first hblank, ofChars_first hblank, first_append h, hfirst]
      rfl
  | @token c cs t rest' hblank hfirst ih =>
      rw [List.cons_append, ofChars_first hblank, ofChars_first hblank, first_append h, hfirst]
      simp only [Except.map, Except.bind] at ih ⊢
      rw [ih]
      cases ofChars rest' with
      | error error => rfl
      | ok us => cases ofChars rest <;> rfl

/-- A text has the tokens that it has in front of separate text. -/
lemma scans_iff : Scans cs ts ↔ ofChars cs = .ok ts := by
  refine ⟨Scans.ofChars_eq, fun h rest hrest => ?_⟩
  rw [ofChars_append hrest, h]
  rfl

/-! ## White space between tokens -/

/-- A token is found in its spelling, and nothing else. -/
lemma ofChars_spelling (h : t.Legible) : ofChars t.spelling = .ok [t] := by
  have hscannable : Lexeme.Scannable [⟨0, t⟩] :=
    ⟨List.forall_mem_singleton.mpr h, .singleton _⟩
  have htext : Lexeme.text [⟨0, t⟩] = t.spelling := List.append_nil _
  have hscan := Lexeme.ofChars_text hscannable
  rw [htext] at hscan
  cases htokens : ofChars t.spelling with
  | error error =>
      rw [htokens] at hscan
      cases hscan
  | ok us =>
      rw [htokens] at hscan
      exact congrArg Except.ok (Option.some.inj hscan)

/-- The legible tokens are those that scanning makes. -/
theorem legible_iff : t.Legible ↔ ∃ cs ts, ofChars cs = .ok ts ∧ t ∈ ts := by
  constructor
  · intro h
    exact ⟨t.spelling, [t], ofChars_spelling h, List.mem_singleton_self t⟩
  · rintro ⟨cs, ts, hts, ht⟩
    exact (scanned_of_ofChars cs hts).legible t ht

/-- The text spells the tokens one after the other, with white space between any two of them. -/
inductive Spaced : List Token → List Char → Prop
  | nil : Spaced [] []
  | single (t : Token) : Spaced [t] t.spelling
  | cons (t : Token) {u : Token} {us : List Token} {blanks text : List Char} : blanks ≠ [] →
      (∀ c ∈ blanks, isWhiteSpace c = true) → Spaced (u :: us) text →
      Spaced (t :: u :: us) (t.spelling ++ (blanks ++ text))

lemma ofChars_append_blanks {blanks : List Char} (hblanks : ∀ c ∈ blanks, isWhiteSpace c = true)
    (cs : List Char) : ofChars (blanks ++ cs) = ofChars cs := by
  induction blanks with
  | nil => rfl
  | cons c blanks ih =>
      obtain ⟨hc, hblanks⟩ := List.forall_mem_cons.mp hblanks
      rw [List.cons_append, ofChars_blank hc, ih hblanks]

/-- **Scanning undoes spelling**, as long as white space keeps the tokens apart. -/
theorem Spaced.ofChars_eq {text : List Char} (h : Spaced ts text) (hts : ∀ t ∈ ts, t.Legible) :
    ofChars text = .ok ts := by
  induction h with
  | nil => exact ofChars_nil
  | single t => exact ofChars_spelling (hts t (List.mem_singleton_self t))
  | @cons t u us blanks text hne hblanks _ ih =>
      obtain ⟨ht, hus⟩ := List.forall_mem_cons.mp hts
      have hseparates : Separates (blanks ++ text) := by
        cases blanks with
        | nil => exact absurd rfl hne
        | cons c blanks => exact .of_isWhiteSpace (hblanks c (List.mem_cons_self ..)) _
      rw [ofChars_append hseparates, ofChars_spelling ht, ofChars_append_blanks hblanks, ih hus]
      rfl

/-- **White space is a barrier, and scanning undoes spelling.**
* A text with white space in it is refused if what stands in front of the white space is, and
  otherwise if what stands behind it is, for the same reason.  Else its tokens are those of the one
  followed by those of the other.
* Tokens that are spelled with white space between them are the tokens of the text. -/
theorem ofText_blank :
    (∀ (a b : String) (w : Char), isWhiteSpace w = true →
      ofText (a ++ String.singleton w ++ b) = do
        let ts ← ofText a
        let us ← ofText b
        return ts ++ us) ∧
    ∀ (ts : List Token) (text : String), (∀ t ∈ ts, t.Legible) → Spaced ts text.toList →
      ofText text = .ok ts := by
  refine ⟨fun a b w hw => ?_, fun ts text hts htext => htext.ofChars_eq hts⟩
  have htext : (a ++ String.singleton w ++ b).toList = a.toList ++ w :: b.toList := by simp
  rw [ofText, htext, ofChars_append (.of_isWhiteSpace hw _), ofChars_blank hw]
  change _ = (ofChars a.toList).bind fun ts => (ofChars b.toList).bind fun us => .ok (ts ++ us)
  rfl

/-- A factorial sign and an equality sign make a relation only without white space in between. -/
theorem ofText_blank_bang :
    isWhiteSpace '\t' = true ∧
    ofText ("x!" ++ String.singleton '\t' ++ "= 2") =
      .ok [.word ['x'], .bang, .relation "=", .number "2"] ∧
    ofText ("1.2.3" ++ String.singleton '\t' ++ "?") = .error .malformedNumber ∧
    (∀ t ∈ [bang, relation "="], t.Legible) ∧ Spaced [.bang, .relation "="] "!\n =".toList ∧
    ofText "!\n =" = .ok [.bang, .relation "="] := by
  have hlegible : ∀ t ∈ [bang, relation "="], t.Legible := by
    intro t ht
    rcases List.mem_pair.mp ht with rfl | rfl
    · exact ⟨trivial, nofun⟩
    · exact legible_relation (by decide)
  have hblanks : ∀ c ∈ ['\n', ' '], isWhiteSpace c = true := by
    intro c hc
    rcases List.mem_pair.mp hc with rfl | rfl <;> decide
  have hspaced : Spaced [.bang, .relation "="] "!\n =".toList :=
    @Spaced.cons .bang (.relation "=") [] _ _ (List.cons_ne_nil _ _) hblanks
      (.single (.relation "="))
  refine ⟨by decide, ?_, ?_, hlegible, hspaced, ofText_blank.2 _ _ hlegible hspaced⟩
  · rw [ofText_blank.1 "x!" "= 2" '\t' (by decide)]
    decide +kernel
  · rw [ofText_blank.1 "1.2.3" "?" '\t' (by decide)]
    decide +kernel

end MathExpr.Token
