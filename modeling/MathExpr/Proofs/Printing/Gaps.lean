import Mathlib.Data.List.Chain
import Mathlib.Tactic.Lemma
import MathExpr.Proofs.Printing.Lexemes

/-!
# Gaps between tokens

Where no blank is left between them, some tokens run together: numerals make a longer numeral, words
a longer word, and a factorial sign in front of an equality sign makes another relation.  How a text
is scanned is told here from its tokens and the gaps between them, so that nobody has to look at
its characters.

* `Lexeme`, `Lexeme.text` — tokens with blanks in front of them, and their text.
* `Token.meets`, `Token.fuse` — which tokens run together, and to what.
* `Lexeme.scan` — the tokens of the text, some of them run together.
* **`Lexeme.ofChars_text`** — scanning the text finds just these.
-/

namespace MathExpr

/-! ## Pieces of text -/

/-- A token behind a number of blanks. -/
structure Lexeme where
  gap : ℕ
  token : Token

/-- The text of lexemes. -/
def Lexeme.text : List Lexeme → List Char
  | [] => []
  | l :: ls => List.replicate l.gap ' ' ++ (l.token.spelling ++ text ls)

namespace Token

/-- The symbols of relations. -/
def relationSymbols : List String :=
  ["=", "!=", "<", "<=", ">", ">="]

/-- A relation has one of these symbols, and other tokens are spelled as tokens of their kind. -/
def Legible (t : Token) : Prop :=
  t.Lexical ∧ ∀ symbol, t = .relation symbol → symbol ∈ relationSymbols

/-- Whether a token runs into the next one, if no blank is between them. -/
def meets : Token → Token → Bool
  | .number _, .number _ => true
  | .word _, .word _ => true
  | .bang, .relation symbol => symbol = "="
  | _, _ => false

/-- Tokens after a token that runs into the first of them.  A numeral has room for one point. -/
def fuse : Token → List Token → Option (List Token)
  | .number numeral, .number numeral' :: ts =>
    if 1 < (numeral.toList ++ numeral'.toList).count '.' then none
    else some (.number (String.ofList (numeral.toList ++ numeral'.toList)) :: ts)
  | .word letters, .word letters' :: ts => some (.word (letters ++ letters') :: ts)
  | .bang, .relation _ :: ts => some (.relation "!=" :: ts)
  | t, ts => some (t :: ts)

end Token

open Token

namespace Lexeme

/-- Whether a token runs into the first of the lexemes behind it. -/
def adjoins (t : Token) : List Lexeme → Bool
  | [] => false
  | l :: _ => l.gap = 0 && t.meets l.token

/-- The tokens that the text of lexemes has, if it has any. -/
def scan : List Lexeme → Option (List Token)
  | [] => some []
  | l :: ls => (scan ls).bind fun ts =>
    if adjoins l.token ls then l.token.fuse ts else some (l.token :: ts)

end Lexeme

/-! ## Scanning one token -/

namespace Token

open Text

/-- There are three kinds of tokens that run together. -/
lemma exists_of_meets {t u : Token} (h : t.meets u = true) :
    (∃ numeral numeral', t = .number numeral ∧ u = .number numeral') ∨
      (∃ letters letters', t = .word letters ∧ u = .word letters') ∨
      t = .bang ∧ u = .relation "=" := by
  cases t <;> cases u <;> simp_all [meets]

variable {c : Char} {cs letters rest : List Char} {t : Token}

lemma ofChars_blanks (n : ℕ) (cs : List Char) :
    ofChars (List.replicate n ' ' ++ cs) = ofChars cs := by
  induction n with
  | zero => rfl
  | succ n ih => rw [List.replicate_succ, List.cons_append, ofChars_blank (by decide), ih]

/-- A word takes in all letters that follow it. -/
lemma ofChars_word (h : IsWord letters) (rest : List Char) :
    ofChars (letters ++ rest) = (ofChars (rest.dropWhile isAlphabetic)).map
      (.word (letters ++ rest.takeWhile isAlphabetic) :: ·) := by
  obtain ⟨hne, hletters⟩ := h
  cases letters with
  | nil => exact absurd rfl hne
  | cons c letters =>
      have hc := hletters c (by simp)
      have hfirst : first c (letters ++ rest) =
          .ok (.word (c :: letters ++ rest.takeWhile isAlphabetic),
            rest.dropWhile isAlphabetic) := by
        rw [first, startsNumeral_of_not (isNumeralChar_of_isAlphabetic hc), if_neg (by decide),
          if_pos hc, ← List.cons_append, List.takeWhile_append_of_pos hletters,
          List.dropWhile_append_of_pos hletters]
      rw [List.cons_append, ofChars_first (isWhiteSpace_of_isAlphabetic hc), hfirst]
      rfl

/-- A numeral takes in all digits and points that follow it. -/
lemma ofChars_number (h : IsNumeral cs) (rest : List Char) :
    ofChars (cs ++ rest) =
      if 1 < (cs ++ rest.takeWhile isNumeralChar).count '.' then .error .malformedNumber
      else (ofChars (rest.dropWhile isNumeralChar)).map
        (.number (String.ofList (cs ++ rest.takeWhile isNumeralChar)) :: ·) := by
  obtain ⟨hstart, hchars, _⟩ := h
  cases cs with
  | nil => simp [startsNumeral] at hstart
  | cons c cs =>
      have hstart' := startsNumeral_append hstart rest
      rw [List.cons_append, ofChars_first (isWhiteSpace_of_isNumeralChar (hchars c (by simp))),
        first, ← List.cons_append, if_pos hstart', List.takeWhile_append_of_pos hchars,
        List.dropWhile_append_of_pos hchars]
      split <;> rfl

/-- What does not begin with a letter, a digit or a point begins with a sign. -/
lemma ofChars_sign (hblank : isWhiteSpace c = false) (hnumeral : isNumeralChar c = false)
    (hletter : isAlphabetic c = false)
    (hsign : ofSign c (cs ++ rest) = .ok (t, rest)) :
    ofChars (c :: cs ++ rest) = (ofChars rest).map (t :: ·) := by
  rw [List.cons_append, ofChars_first hblank, first, startsNumeral_of_not hnumeral,
    if_neg (by decide), hletter, if_neg (by decide), hsign]
  rfl

lemma ofChars_bang (h : rest.head? ≠ some '=') :
    ofChars ('!' :: rest) = (ofChars rest).map (.bang :: ·) := by
  rw [← List.singleton_append]
  refine ofChars_sign (by decide) (by decide) (by decide) ?_
  cases rest with
  | nil => rfl
  | cons c rest =>
      have hc : c ≠ '=' := by simpa using h
      simp [ofSign, hc]

lemma ofChars_relation (symbol : String)
    (hsymbol : symbol ∈ relationSymbols) (h : rest.head? ≠ some '=') :
    ofChars (symbol.toList ++ rest) = (ofChars rest).map (.relation symbol :: ·) := by
  have hsign : ∀ c cs, symbol.toList = c :: cs → isWhiteSpace c = false →
      isNumeralChar c = false → isAlphabetic c = false →
      ofSign c (cs ++ rest) = .ok (.relation symbol, rest) →
      ofChars (symbol.toList ++ rest) = (ofChars rest).map (.relation symbol :: ·) := by
    intro c cs hcs hblank hnumeral hletter hsign
    rw [hcs, ofChars_sign hblank hnumeral hletter hsign]
  have hrest : ∀ us, rest ≠ '=' :: us := by
    rintro us rfl
    simp at h
  simp only [relationSymbols, List.mem_cons, List.not_mem_nil, or_false] at hsymbol
  rcases hsymbol with rfl | rfl | rfl | rfl | rfl | rfl
  · exact hsign '=' [] rfl (by decide) (by decide) (by decide) (by simp [ofSign])
  · exact hsign '!' ['='] rfl (by decide) (by decide) (by decide) rfl
  · exact hsign '<' [] rfl (by decide) (by decide) (by decide) (by simp [ofSign])
  · exact hsign '<' ['='] rfl (by decide) (by decide) (by decide) rfl
  · exact hsign '>' [] rfl (by decide) (by decide) (by decide) (by simp [ofSign])
  · exact hsign '>' ['='] rfl (by decide) (by decide) (by decide) rfl

/-! Two tokens that run together. -/

/-- Two numerals.  Too many points in the second one are too many for both. -/
lemma ofChars_number_number {numeral numeral' : String} (h : IsNumeral numeral.toList)
    (h' : IsNumeral numeral'.toList) (cs : List Char) :
    (ofChars (numeral.toList ++ (numeral'.toList ++ cs))).toOption =
      (ofChars (numeral'.toList ++ cs)).toOption.bind (fuse (.number numeral)) := by
  rw [ofChars_number h, ofChars_number h', List.takeWhile_append_of_pos h'.2.1,
    List.dropWhile_append_of_pos h'.2.1]
  generalize numeral'.toList ++ cs.takeWhile isNumeralChar = digits
  have hcount : (numeral.toList ++ digits).count '.' =
      numeral.toList.count '.' + digits.count '.' := List.count_append
  by_cases hdigits : 1 < digits.count '.'
  · rw [if_pos hdigits, if_pos (by omega)]
    rfl
  · rw [if_neg hdigits]
    cases ofChars (cs.dropWhile isNumeralChar) with
    | error error => split <;> rfl
    | ok ts =>
        have hfuse : fuse (.number numeral) (.number (String.ofList digits) :: ts) =
            if 1 < (numeral.toList ++ digits).count '.' then none
            else some (.number (String.ofList (numeral.toList ++ digits)) :: ts) := by
          rw [fuse, String.toList_ofList]
        refine Eq.trans ?_ hfuse.symm
        split_ifs <;> rfl

/-- Two words. -/
lemma ofChars_word_word {letters letters' : List Char} (h : IsWord letters) (h' : IsWord letters')
    (cs : List Char) : (ofChars (letters ++ (letters' ++ cs))).toOption =
      (ofChars (letters' ++ cs)).toOption.bind (fuse (.word letters)) := by
  rw [ofChars_word h, ofChars_word h', List.takeWhile_append_of_pos h'.2,
    List.dropWhile_append_of_pos h'.2]
  cases ofChars (cs.dropWhile Text.isAlphabetic) <;> simp [Except.map, Except.toOption, fuse]

/-- A factorial sign and an equality sign, which is not part of a longer relation. -/
lemma ofChars_bang_equals {cs : List Char} (h : cs.head? ≠ some '=') :
    (ofChars ('!' :: '=' :: cs)).toOption = (ofChars ('=' :: cs)).toOption.bind (fuse .bang) := by
  have hequals : ofChars ('=' :: cs) = (ofChars cs).map (.relation "=" :: ·) :=
    ofChars_relation "=" (by decide) h
  have hdiffers : ofChars ('!' :: '=' :: cs) = (ofChars cs).map (.relation "!=" :: ·) :=
    ofChars_relation "!=" (by decide) h
  rw [hequals, hdiffers]
  cases ofChars cs <;> simp [Except.map, Except.toOption, fuse]

/-! The characters of a token tell which kind of token it is. -/

lemma spelling_ne_nil (h : t.Legible) : t.spelling ≠ [] := by
  obtain ⟨hlexical, hsymbol⟩ := h
  cases t with
  | number numeral =>
      intro hnil
      have hstart : startsNumeral numeral.toList = true := hlexical.1
      rw [show numeral.toList = [] from hnil] at hstart
      cases hstart
  | word letters => exact hlexical.1
  | relation symbol =>
      have := hsymbol symbol rfl
      simp only [relationSymbols, List.mem_cons, List.not_mem_nil, or_false] at this
      rcases this with rfl | rfl | rfl | rfl | rfl | rfl <;> exact List.cons_ne_nil _ _
  | _ => exact List.cons_ne_nil _ _

/-- The characters of relations are none of letters and numerals. -/
lemma not_isAlphabetic_of_relation {symbol : String}
    (hsymbol : symbol ∈ relationSymbols) (hc : c ∈ symbol.toList) :
    isAlphabetic c = false ∧ isNumeralChar c = false := by
  have hsign : c = '=' ∨ c = '!' ∨ c = '<' ∨ c = '>' := by
    simp only [relationSymbols, List.mem_cons, List.not_mem_nil, or_false] at hsymbol
    rcases hsymbol with rfl | rfl | rfl | rfl | rfl | rfl <;> simp at hc <;> tauto
  rcases hsign with rfl | rfl | rfl | rfl <;> decide

lemma isAlphabetic_iff (h : t.Legible) (hc : c ∈ t.spelling) :
    isAlphabetic c = true ↔ ∃ letters, t = .word letters := by
  obtain ⟨hlexical, hsymbol⟩ := h
  cases t with
  | number numeral =>
      have hdigit : isNumeralChar c = true := hlexical.2.1 c hc
      refine iff_of_false (fun hletter => ?_) (by simp)
      simp [isNumeralChar_of_isAlphabetic hletter] at hdigit
  | word letters => exact iff_of_true (hlexical.2 c hc) ⟨letters, rfl⟩
  | relation symbol =>
      have := (not_isAlphabetic_of_relation (hsymbol symbol rfl) hc).1
      simp [this]
  | _ =>
      obtain rfl := List.mem_singleton.mp hc
      exact iff_of_false (by decide) (by simp)

lemma isNumeralChar_iff (h : t.Legible) (hc : c ∈ t.spelling) :
    isNumeralChar c = true ↔ ∃ numeral, t = .number numeral := by
  obtain ⟨hlexical, hsymbol⟩ := h
  cases t with
  | number numeral => exact iff_of_true (hlexical.2.1 c hc) ⟨numeral, rfl⟩
  | word letters =>
      have := isNumeralChar_of_isAlphabetic (hlexical.2 c hc)
      simp [this]
  | relation symbol =>
      have := (not_isAlphabetic_of_relation (hsymbol symbol rfl) hc).2
      simp [this]
  | _ =>
      obtain rfl := List.mem_singleton.mp hc
      exact iff_of_false (by decide) (by simp)

lemma eq_leftParen_iff (h : t.Legible) (hc : c ∈ t.spelling) : c = '(' ↔ t = .leftParen := by
  constructor
  · rintro rfl
    obtain ⟨hlexical, hsymbol⟩ := h
    cases t with
    | number numeral => exact absurd (hlexical.2.1 '(' hc) (by decide)
    | word letters => exact absurd (hlexical.2 '(' hc) (by decide)
    | relation symbol =>
        have hchars : ∀ symbol ∈ relationSymbols, '(' ∉ symbol.toList := by decide
        exact absurd hc (hchars symbol (hsymbol symbol rfl))
    | leftParen => rfl
    | _ => exact absurd (List.mem_singleton.mp hc) (by decide)
  · rintro rfl
    exact List.mem_singleton.mp hc

/-- The characters that prolong a token, if they follow it without a blank. -/
def prolongs : Token → Char → Bool
  | .number _, c => isNumeralChar c
  | .word _, c => isAlphabetic c
  | .bang, c | .relation _, c => c == '='
  | _, _ => false

lemma prolongs_eq_false (hletter : isAlphabetic c = false) (hnumeral : isNumeralChar c = false)
    (hequals : c ≠ '=') (t : Token) : t.prolongs c = false := by
  cases t <;> simp [prolongs, hletter, hnumeral, hequals]

/-- Only one token begins like an equality sign. -/
lemma eq_relation_of_head? (h : t.Legible) (hc : t.spelling.head? = some '=') :
    t = .relation "=" := by
  obtain ⟨hlexical, hsymbol⟩ := h
  cases t with
  | number numeral => exact absurd (hlexical.2.1 '=' (List.mem_of_mem_head? hc)) (by decide)
  | word letters => exact absurd (hlexical.2 '=' (List.mem_of_mem_head? hc)) (by decide)
  | relation symbol =>
      have hfirst : ∀ symbol ∈ relationSymbols,
          symbol.toList.head? = some '=' → symbol = "=" := by
        decide
      rw [hfirst symbol (hsymbol symbol rfl) hc]
  | _ => cases hc

/-- A token that begins with such a character runs together with the one in front of it, relations
apart. -/
lemma meets_of_prolongs {u : Token} (h : t.Legible) (hc : t.spelling.head? = some c)
    (hu : u.prolongs c = true) (hrelation : ∀ symbol symbol', u = .relation symbol →
      t ≠ .relation symbol') : u.meets t = true := by
  have hmem := List.mem_of_mem_head? hc
  cases u with
  | number =>
      obtain ⟨numeral, rfl⟩ := (isNumeralChar_iff h hmem).mp hu
      rfl
  | word =>
      obtain ⟨letters, rfl⟩ := (isAlphabetic_iff h hmem).mp hu
      rfl
  | bang =>
      obtain rfl : c = '=' := by simpa [prolongs] using hu
      rw [eq_relation_of_head? h hc]
      rfl
  | relation symbol =>
      obtain rfl : c = '=' := by simpa [prolongs] using hu
      exact absurd (eq_relation_of_head? h hc) (hrelation symbol "=" rfl)
  | _ => cases hu

end Token

/-! ## Scanning all of them -/

namespace Lexeme

/-- Lexemes whose text can be scanned.  No two relations are side by side. -/
structure Scannable (ls : List Lexeme) : Prop where
  legible : ∀ l ∈ ls, l.token.Legible
  relations : (ls.map token).IsChain fun t u =>
    ∀ symbol symbol', t = .relation symbol → u ≠ .relation symbol'

variable {l : Lexeme} {ls : List Lexeme}

lemma Scannable.tail (h : Scannable (l :: ls)) : Scannable ls :=
  ⟨(List.forall_mem_cons.mp h.legible).2, h.relations.tail⟩

/-- Unless a token runs into the next one, no character prolongs it. -/
lemma Scannable.not_prolongs (h : Scannable (l :: ls)) (hadjoins : adjoins l.token ls = false) :
    ∀ c ∈ (text ls).head?, l.token.prolongs c = false := by
  intro c hc
  cases ls with
  | nil => simp [text] at hc
  | cons l' ls =>
      rw [← Bool.not_eq_true]
      intro hprolongs
      have hl' := h.legible l' (by simp)
      cases hgap : l'.gap with
      | zero =>
          have hhead : l'.token.spelling.head? = some c := by
            cases hspelling : l'.token.spelling with
            | nil => exact absurd hspelling (spelling_ne_nil hl')
            | cons d ds => simpa [text, hgap, hspelling] using hc
          have hmeets := meets_of_prolongs hl' hhead hprolongs
            (List.isChain_cons_cons.mp h.relations).1
          simp [adjoins, hgap, hmeets] at hadjoins
      | succ n =>
          obtain rfl : c = ' ' := by simpa [text, hgap, List.replicate_succ] using hc.symm
          rw [prolongs_eq_false (by decide) (by decide) (by decide)] at hprolongs
          cases hprolongs

/-- A token that does not run into the next one is scanned as it is. -/
lemma ofChars_of_not_adjoins (h : Scannable (l :: ls)) (hadjoins : adjoins l.token ls = false) :
    ofChars (l.token.spelling ++ text ls) = (ofChars (text ls)).map (l.token :: ·) := by
  have hrest := h.not_prolongs hadjoins
  have hl := h.legible l (by simp)
  obtain ⟨gap, t⟩ := l
  cases t with
  | number numeral =>
      have hnumeral : ∀ c ∈ (text ls).head?, isNumeralChar c = false := hrest
      have htake : ([] ++ text ls).takeWhile isNumeralChar = [] := takeWhile_run (by simp) hnumeral
      have hdrop : ([] ++ text ls).dropWhile isNumeralChar = text ls :=
        dropWhile_run (by simp) hnumeral
      rw [List.nil_append] at htake hdrop
      have hpoints := hl.1.2.2
      rw [spelling, ofChars_number hl.1, htake, hdrop, List.append_nil, if_neg (by omega),
        String.ofList_toList]
  | word letters =>
      have hletter : ∀ c ∈ (text ls).head?, Text.isAlphabetic c = false := hrest
      have htake : ([] ++ text ls).takeWhile Text.isAlphabetic = [] :=
        takeWhile_run (by simp) hletter
      have hdrop : ([] ++ text ls).dropWhile Text.isAlphabetic = text ls :=
        dropWhile_run (by simp) hletter
      rw [List.nil_append] at htake hdrop
      rw [spelling, ofChars_word hl.1, htake, hdrop, List.append_nil]
  | bang =>
      refine ofChars_bang fun hhead => ?_
      simpa [prolongs] using hrest '=' hhead
  | relation symbol =>
      refine ofChars_relation symbol (hl.2 symbol rfl) fun hhead => ?_
      simpa [prolongs] using hrest '=' hhead
  | _ => exact ofChars_sign (by decide) (by decide) (by decide) rfl

/-- A token that runs into the next one is scanned as one with it. -/
lemma ofChars_of_adjoins (h : Scannable (l :: ls)) (hadjoins : adjoins l.token ls = true) :
    (ofChars (l.token.spelling ++ text ls)).toOption =
      (ofChars (text ls)).toOption.bind l.token.fuse := by
  have hl := h.legible l (by simp)
  obtain ⟨gap, t⟩ := l
  cases ls with
  | nil => cases hadjoins
  | cons l' ls =>
      have hl' := h.legible l' (by simp)
      obtain ⟨gap', t'⟩ := l'
      obtain ⟨rfl, hmeets⟩ : gap' = 0 ∧ t.meets t' = true := by simpa [adjoins] using hadjoins
      rw [text, List.replicate_zero, List.nil_append]
      rcases exists_of_meets hmeets with
        ⟨numeral, numeral', rfl, rfl⟩ | ⟨letters, letters', rfl, rfl⟩ | ⟨rfl, rfl⟩
      · exact ofChars_number_number hl.1 hl'.1 (text ls)
      · exact ofChars_word_word hl.1 hl'.1 (text ls)
      · have halone : adjoins (.relation "=") ls = false := by
          cases ls <;> simp [adjoins, meets]
        exact ofChars_bang_equals fun hhead => by
          simpa [prolongs] using h.tail.not_prolongs halone '=' hhead

/-- **Scanning finds the tokens and runs some of them together.** -/
theorem ofChars_text : ∀ {ls : List Lexeme}, Scannable ls → (ofChars (text ls)).toOption = scan ls
  | [], _ => by rw [text, ofChars_nil]; rfl
  | l :: ls, h => by
      have ih := ofChars_text h.tail
      rw [text, ofChars_blanks, scan, ← ih]
      cases hadjoins : adjoins l.token ls with
      | true => simp [ofChars_of_adjoins h hadjoins]
      | false =>
          rw [ofChars_of_not_adjoins h hadjoins]
          cases ofChars (text ls) <;> simp [Except.map, Except.toOption]

end Lexeme

end MathExpr
