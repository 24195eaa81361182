import MathExpr.Proofs.Decimals.Exponents
import MathExpr.Proofs.LikeTerms.Keys

/-!
# Digits and values classify alike

Whether a number is whole is told from its digits, and its value is read by other rules, which round
and which can fail.  Where there is a value, both agree, unless there are so many significant places
that they are counted as none.  The digits of a number inside of what was read from text always
tell, be there a value or not.

* `Text.Miscounted` — the numerals whose places are counted as none, although there are some.
* `Decimal.isWholeText?_of_ofText?` — of all others what the digits say is true of the value.
* `Decimal.isWholeText?_of_miscounted` — of these it is not.
* `Expr.exists_ofText?_of_value?` — signs do not matter for this.
* `Text.isPlainNumeral_of_isNumeral` — the numerals of a text are plain.
* **`Expr.Parsed.isNumeral_of_numeral?`** — hence so is the numeral of a number that is read.
* **`Expr.classifies_alike`** — the two classifications.
-/

namespace MathExpr

/-! ## Numerals -/

namespace Text

variable {cs : List Char}

/-- The numerals of a text have neither signs nor exponents. -/
lemma isPlainNumeral_of_isNumeral (h : Token.IsNumeral cs) : IsPlainNumeral cs := by
  refine ⟨fun c hc => ?_, h.2.2, h.exists_isDigit⟩
  have := h.2.1 c hc
  rwa [Token.isNumeralChar, Bool.or_eq_true, beq_iff_eq] at this

/-- The significant places of a plain numeral are counted as none, although there are some. -/
def Miscounted (cs : List Char) : Prop :=
  (∀ c ∈ cs, c ≠ 'e' ∧ c ≠ 'E') ∧
    ∃ k, IsLeast (Decimal.places (numeralValue cs)) k ∧ 0 < k ∧ 2 ^ 32 ∣ k

end Text

namespace Decimal

open Text

variable {text : String} {x : Decimal}

/-- How digits and value come from a plain numeral with `k` significant places. -/
lemma isWholeText?_of_plain {k : ℕ} (hmark : ∀ c ∈ trim text.toList, c ≠ 'e' ∧ c ≠ 'E')
    (hk : IsLeast (places (numeralValue (trim text.toList))) k) (h : ofText? text = some x) :
    isWholeText? text = some (decide (k = 0)) ∧ (x.isWhole = true ↔ 2 ^ 32 ∣ k) := by
  obtain ⟨htext, hwhole⟩ := ofText?_of_plain hmark
  obtain ⟨n, hn, hx⟩ := Option.bind_eq_some_iff.mp (htext ▸ h)
  have hplaces := n.isLeast_significantPlaces
  rw [Numeral.value_of_ofChars? hn] at hplaces
  rw [hwhole, hn, Option.map_some, hk.unique hplaces]
  refine ⟨?_, isWhole_of_ofPlain? hx⟩
  rw [Option.some.injEq, Bool.eq_iff_iff, decide_eq_true_eq]
  exact n.isWhole_iff

/-- What the digits of a numeral say is true of its value, unless its places are miscounted. -/
lemma isWholeText?_of_ofText? (hcount : ¬ Miscounted (trim text.toList))
    (h : ofText? text = some x) : isWholeText? text = some x.isWhole := by
  by_cases hmark : (trim text.toList).any isExponentMark = true
  · simp only [ofText?, if_pos hmark] at h
    simp only [isWholeText?, if_pos hmark, h, Option.map_some]
  · have hplain : ∀ c ∈ trim text.toList, c ≠ 'e' ∧ c ≠ 'E' := by
      intro c hc
      rw [any_isExponentMark_iff] at hmark
      exact ⟨fun he => hmark ⟨c, hc, .inl he⟩, fun he => hmark ⟨c, hc, .inr he⟩⟩
    obtain ⟨k, hk⟩ := exists_isLeast_places_numeralValue (trim text.toList)
    obtain ⟨hdigits, hvalue⟩ := isWholeText?_of_plain hplain hk h
    rw [hdigits, Option.some.injEq, Bool.eq_iff_iff, decide_eq_true_eq, hvalue]
    constructor
    · rintro rfl
      exact dvd_zero _
    · intro hdvd
      by_contra hne
      exact hcount ⟨hplain, k, hk, Nat.pos_of_ne_zero hne, hdvd⟩

/-- A numeral whose places are miscounted is taken for a whole number, which its digits are not. -/
lemma isWholeText?_of_miscounted (hcount : Miscounted (trim text.toList))
    (h : ofText? text = some x) : isWholeText? text = some false ∧ x.isWhole = true := by
  obtain ⟨hplain, k, hk, hpos, hdvd⟩ := hcount
  obtain ⟨hdigits, hvalue⟩ := isWholeText?_of_plain hplain hk h
  rw [hdigits, decide_eq_false (Nat.ne_of_gt hpos)]
  exact ⟨rfl, hvalue.mpr hdvd⟩

/-- Of points, digits and minus signs nothing is dropped, and nothing of them is an exponent. -/
lemma ofText?_of_chars (h : ∀ c ∈ text.toList, Token.isNumeralChar c = true ∨ c = '-') :
    ofText? text = (Numeral.ofChars? text.toList).bind ofPlain? ∧
      isWholeText? text = (Numeral.ofChars? text.toList).map Numeral.isWhole := by
  have htrim : trim text.toList = text.toList := by
    refine trim_eq_self fun c hc => ?_
    rcases h c hc with hc | rfl
    · exact Token.isWhiteSpace_of_isNumeralChar hc
    · decide
  have hmark : ∀ c ∈ trim text.toList, c ≠ 'e' ∧ c ≠ 'E' := by
    intro c hc
    rcases h c (mem_of_mem_trim hc) with hc | rfl
    · exact ⟨ne_of_isNumeralChar hc (by decide), ne_of_isNumeralChar hc (by decide)⟩
    · decide
  have hread := ofText?_of_plain hmark
  rwa [htrim] at hread

/-- The digits of a plain numeral tell, be it too long for a decimal or not. -/
lemma exists_isWholeText? (h : IsPlainNumeral text.toList) : ∃ b, isWholeText? text = some b := by
  obtain ⟨n, hn⟩ := Numeral.exists_ofChars?_iff.mpr h
  refine ⟨n.isWhole, ?_⟩
  rw [(ofText?_of_chars fun c hc => .inl (isNumeralChar_of_isPlainNumeral h c hc)).2, hn,
    Option.map_some]

end Decimal

/-! ## Numbers -/

namespace Expr

open Decimal

variable {e : Expr} {x : Decimal} {numeral : String}

/-- The significant places of a number are counted as none, although there are some. -/
def Miscounted (e : Expr) : Prop :=
  ∃ numeral, e.numeral? = some numeral ∧ Text.Miscounted (Text.trim numeral.toList)

/-- Signs do not change whether the value of a number is whole. -/
lemma exists_ofText?_of_value? (hnumeral : e.numeral? = some numeral) (hx : e.value? = some x) :
    ∃ y, ofText? numeral = some y ∧ y.isWhole = x.isWhole := by
  fun_induction numeral? e generalizing x with
  | case1 text =>
      cases hnumeral
      exact ⟨x, hx, rfl⟩
  | case2 e _ _ ih =>
      obtain ⟨y, hy, rfl⟩ := Option.map_eq_some_iff.mp hx
      obtain ⟨z, hz, hwhole⟩ := ih hnumeral hy
      exact ⟨z, hz, hwhole⟩
  | case3 => cases hnumeral

/-- **The numeral of a number that is read** is one of its text. -/
theorem Parsed.isNumeral_of_numeral? {n : Category} (h : Parsed n e)
    (hnumeral : e.numeral? = some numeral) : Token.IsNumeral numeral.toList := by
  induction h with
  | number h =>
      cases hnumeral
      exact h
  | negExponent _ ih | neg _ ih => exact ih hnumeral
  | relation hop => cases ‹Operator› <;> cases hop <;> cases hnumeral
  | operand _ ih | base _ ih | exponent _ ih | factor _ ih | unsigned _ ih | signed _ ih
  | term _ ih | side _ ih => exact ih hnumeral
  | _ => cases hnumeral

/-- So are the numerals of the numbers inside of what is read. -/
lemma isNumeral_of_mem_subterms {text : String} {t : Expr} (hparse : parse text = .ok t)
    (he : e ∈ t.subterms) (hnumeral : e.numeral? = some numeral) :
    Token.IsNumeral numeral.toList := by
  obtain ⟨sign, a, rfl, m, ha⟩ := (parsed_of_parse hparse).everywhere_parsed e he
  cases sign with
  | plus | minus => exact ha.isNumeral_of_numeral? hnumeral

lemma isInteger_of_numeral? (h : e.numeral? = some numeral) :
    e.isInteger = decide (isWholeText? numeral = some true) := by
  rw [isInteger, h, Option.bind_some]

lemma isFractional_of_numeral? (h : e.numeral? = some numeral) :
    e.isFractional = decide (isWholeText? numeral = some false) := by
  rw [isFractional, h, Option.bind_some]

/-- **Digits and values classify alike**, if the places of a number are counted as they are.

* No expression is whole and fractional, and only numbers are one of both.
* A number with a value is whole if its value is, and fractional otherwise; only a number whose
  places are counted as none is fractional with a whole value.
* A number that is read from text, however long, is one of both. -/
theorem classifies_alike (e : Expr) :
    ¬ (e.isInteger = true ∧ e.isFractional = true) ∧
    (e.isInteger = true ∨ e.isFractional = true → e.isNumber = true) ∧
    (∀ x, e.isNumber = true → e.value? = some x →
      (¬ e.Miscounted → (e.isInteger = true ↔ x.toRat.isInt = true) ∧
        (e.isFractional = true ↔ x.toRat.isInt = false)) ∧
      (e.Miscounted → e.isInteger = false ∧ e.isFractional = true ∧ x.toRat.isInt = true)) ∧
    ∀ text t, parse text = .ok t → e ∈ t.subterms → e.isNumber = true →
      e.isFractional = !e.isInteger := by
  cases hnumeral : e.numeral? with
  | none =>
      have hnumber : e.isNumber = false := by rw [isNumber, hnumeral, Option.isSome_none]
      have hinteger : e.isInteger = false := by rw [isInteger, hnumeral]; rfl
      have hfractional : e.isFractional = false := by rw [isFractional, hnumeral]; rfl
      simp [hnumber, hinteger, hfractional]
  | some numeral =>
      have hnumber : e.isNumber = true := by rw [isNumber, hnumeral, Option.isSome_some]
      rw [isInteger_of_numeral? hnumeral, isFractional_of_numeral? hnumeral]
      refine ⟨?_, fun _ => hnumber, fun x _ hx => ⟨fun hcount => ?_, ?_⟩, ?_⟩
      · rw [decide_eq_true_eq, decide_eq_true_eq]
        rintro ⟨hwhole, hfractional⟩
        rw [hwhole] at hfractional
        cases hfractional
      · obtain ⟨y, hy, hwhole⟩ := exists_ofText?_of_value? hnumeral hx
        have hcount' : ¬ Text.Miscounted (Text.trim numeral.toList) := fun h =>
          hcount ⟨numeral, hnumeral, h⟩
        simp [isWholeText?_of_ofText? hcount' hy, hwhole, isInt_toRat]
      · rintro ⟨numeral', hnumeral', hcount⟩
        obtain rfl := Option.some.inj (hnumeral.symm.trans hnumeral')
        obtain ⟨y, hy, hwhole⟩ := exists_ofText?_of_value? hnumeral hx
        obtain ⟨hdigits, hvalue⟩ := isWholeText?_of_miscounted hcount hy
        rw [hdigits, isInt_toRat, ← hwhole]
        exact ⟨rfl, rfl, hvalue⟩
      · intro text t hparse he _
        obtain ⟨whole, hwhole⟩ := exists_isWholeText?
          (Text.isPlainNumeral_of_isNumeral (isNumeral_of_mem_subterms hparse he hnumeral))
        cases whole <;> simp [hwhole]

/-- A one in the last place that is counted makes a fractional number with a whole value. -/
theorem classifies_alike_miscounted :
    let e := number (Numeral.textOneBehind (2 ^ 32 - 1))
    let x : Decimal := ⟨false, 0, maxScale, by decide, Nat.le_refl _⟩
    e.isNumber = true ∧ e.value? = some x ∧ e.Miscounted ∧ x.toRat.isInt = true ∧
      e.isInteger = false ∧ e.isFractional = true := by
  have hcount : 2 ^ 32 - 1 + 1 = 2 ^ 32 := rfl
  have hplaces : maxScale ≤ 2 ^ 32 - 1 := by decide
  -- nothing is evaluated at this number of zeros
  generalize 2 ^ 32 - 1 = zeros at hcount hplaces ⊢
  intro e x
  have hvalue : e.value? = some x := value?_textOneBehind hplaces (dvd_of_eq hcount.symm)
  have hmiscounted : e.Miscounted := by
    refine ⟨_, rfl, ?_⟩
    rw [Numeral.trim_textOneBehind]
    exact ⟨Numeral.ne_mark_textOneBehind zeros, _, Numeral.isLeast_textOneBehind zeros,
      Nat.succ_pos _, dvd_of_eq hcount.symm⟩
  obtain ⟨-, -, hagree, -⟩ := classifies_alike e
  obtain ⟨hinteger, hfractional, hwhole⟩ := (hagree x rfl hvalue).2 hmiscounted
  exact ⟨rfl, hvalue, hmiscounted, hwhole, hinteger, hfractional⟩

/-- A subtracted number with zeros behind its point is read as the negation of a whole number. -/
example :
    parse "x - 2.00" = .ok (.add [.var "x", .neg (number "2.00") { subtracted := true }]) ∧
      (Expr.neg (number "2.00")).value? = some ⟨true, 200, 2, by decide, by decide⟩ ∧
      (Expr.neg (number "2.00")).isInteger = true := by
  decide +kernel

end Expr

end MathExpr
