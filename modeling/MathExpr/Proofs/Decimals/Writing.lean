import MathExpr.Proofs.Decimals.Classification

/-!
# Written decimals are read again

A decimal is written with as many places as its scale says, so none of its digits is lost, and they
all fit when the text is read.  Its sign is another matter.  A plain numeral has none, so the text
of a signed decimal is not read at all, although it counts as a number when it stands in one.

* `Decimal.rounded?_of_fits` — a numeral whose digits fit is taken as it is.
* `Decimal.ofDigitChars_lastDigits` — the digits that are written are those of the mantissa.
* `Decimal.exists_ofChars?_toChars` — they are all that is read.
* **`Decimal.ofText?_toText`**, **`Decimal.isWholeText?_toText`** — a text is read as the decimal
  that was written, sign and scale included, unless it has a minus sign.
* `Expr.ofDecimal` — the number that a decimal is written as.
* **`Expr.value?_ofDecimal`** — when its value is the decimal.
-/

namespace MathExpr

namespace Decimal

open Text

variable {x : Decimal} {n : Numeral}

/-! ## Numerals that fit -/

lemma le_foldl_digits (ds : List (Fin 10)) (m : ℕ) :
    m ≤ ds.foldl (fun n d => 10 * n + d.val) m := by
  induction ds generalizing m with
  | nil => exact Nat.le_refl m
  | cons d ds ih => exact Nat.le_trans (by omega) (ih (10 * m + d.val))

/-- Places are taken as long as they fit. -/
lemma appendPlaces_of_fits {ds : List (Fin 10)}
    (hm : ds.foldl (fun n d => 10 * n + d.val) x.mantissa < mantissaLimit)
    (hs : x.scale + ds.length ≤ maxScale) :
    x.appendPlaces ds = some ⟨x.negative, ds.foldl (fun n d => 10 * n + d.val) x.mantissa,
      x.scale + ds.length, hm, hs⟩ := by
  induction ds generalizing x with
  | nil => rfl
  | cons d ds ih =>
      have hscale : x.scale + (d :: ds).length = x.scale + 1 + ds.length := by
        rw [List.length_cons]
        omega
      have hfits : x.scale < maxScale ∧ 10 * x.mantissa + d < mantissaLimit :=
        ⟨by omega, Nat.lt_of_le_of_lt (le_foldl_digits ds _) hm⟩
      rw [appendPlaces, dif_pos hfits, ih hm (hscale ▸ hs)]
      simp only [hscale, List.foldl_cons]

/-- A numeral whose digits fit is taken as it is. -/
lemma rounded?_of_fits (hm : Numeral.digitsValue (n.integer ++ n.fraction) < mantissaLimit)
    (hs : n.fraction.length ≤ maxScale) :
    rounded? n =
      some ⟨false, Numeral.digitsValue (n.integer ++ n.fraction), n.fraction.length, hm, hs⟩ := by
  have hvalue : Numeral.digitsValue (n.integer ++ n.fraction) =
      n.fraction.foldl (fun n d => 10 * n + d.val) (Numeral.digitsValue n.integer) :=
    List.foldl_append
  have hinteger : Numeral.digitsValue n.integer < mantissaLimit :=
    Nat.lt_of_le_of_lt (le_foldl_digits _ _) (hvalue ▸ hm)
  rw [rounded?, dif_pos hinteger, appendPlaces_of_fits (hvalue ▸ hm) (by simpa using hs)]
  simp [hvalue]

/-! ## Digits that are written -/

/-- The digits in front of the point. -/
lemma isDigit_of_mem_front (x : Decimal) :
    ∀ c ∈ Nat.toDigits 10 (x.mantissa / Nat.pow 10 x.scale), c.isDigit = true := fun _ =>
  Nat.isDigit_of_mem_toDigits (by decide) (by decide)

/-- The digits behind it. -/
lemma isDigit_of_mem_lastDigits (m k : ℕ) : ∀ c ∈ lastDigits m k, c.isDigit = true := by
  fun_induction lastDigits m k with
  | case1 => nofun
  | case2 m k ih =>
      refine List.forall_mem_append.mpr ⟨ih, List.forall_mem_singleton.mpr ?_⟩
      rw [Nat.isDigit_digitChar]
      exact decide_eq_true (Nat.mod_lt m (by decide))

lemma length_lastDigits (m k : ℕ) : (lastDigits m k).length = k := by
  fun_induction lastDigits m k with
  | case1 => rfl
  | case2 m k ih => rw [List.length_append, ih, List.length_singleton]

/-- Behind the rest of a number, its last digits give the number. -/
lemma ofDigitChars_lastDigits (m k : ℕ) :
    Nat.ofDigitChars 10 (lastDigits m k) (m / Nat.pow 10 k) = m := by
  fun_induction lastDigits m k with
  | case1 m => exact Nat.div_one m
  | case2 m k ih =>
      have hrest : m / Nat.pow 10 (k + 1) = m / 10 / Nat.pow 10 k := by
        rw [Nat.div_div_eq_div_mul, Nat.mul_comm]
        rfl
      rw [Nat.ofDigitChars_append, hrest, ih,
        Nat.ofDigitChars_cons_digitChar_of_lt_ten (Nat.mod_lt m (by decide)), Nat.ofDigitChars_nil]
      exact Nat.div_add_mod m 10

/-- In front of the point stand the digits of the rest, and behind it the last digits. -/
lemma parts_toChars (h : x.negative = false) :
    integerPart x.toChars = Nat.toDigits 10 (x.mantissa / Nat.pow 10 x.scale) ∧
      fractionPart x.toChars = lastDigits x.mantissa x.scale := by
  have hfront : ∀ c ∈ Nat.toDigits 10 (x.mantissa / Nat.pow 10 x.scale), decide (c ≠ '.') = true :=
    fun c hc => decide_eq_true (ne_point_of_isDigit (isDigit_of_mem_front x c hc))
  have hplaces : ∀ c ∈ (if x.scale = 0 then [] else '.' :: lastDigits x.mantissa x.scale).head?,
      decide (c ≠ '.') = false := by
    split
    · nofun
    · rintro c ⟨⟩
      rfl
  simp only [integerPart, fractionPart, toChars, h, Bool.false_eq_true, if_false, List.nil_append]
  rw [Token.takeWhile_run hfront hplaces, Token.dropWhile_run hfront hplaces]
  refine ⟨rfl, ?_⟩
  split
  · next hscale =>
    rw [hscale]
    rfl
  · rfl

/-- The digits that are written are read, and nothing else. -/
lemma exists_ofChars?_toChars (h : x.negative = false) :
    ∃ n, Numeral.ofChars? x.toChars = some n ∧
      Numeral.digitsValue (n.integer ++ n.fraction) = x.mantissa ∧
      n.fraction.length = x.scale := by
  obtain ⟨hfront, hplaces⟩ := parts_toChars h
  obtain ⟨ds, hds⟩ := Numeral.exists_digits? (isDigit_of_mem_front x)
  obtain ⟨es, hes⟩ := Numeral.exists_digits? (isDigit_of_mem_lastDigits x.mantissa x.scale)
  have hne : ds ++ es ≠ [] := by
    rw [← List.length_pos_iff, List.length_append, Numeral.length_of_digits? hds]
    exact Nat.add_pos_left Nat.length_toDigits_pos _
  refine ⟨⟨ds, es⟩, Numeral.ofChars?_eq_some_iff.mpr ⟨?_, ?_, hne⟩, ?_, ?_⟩
  · rw [hfront, hds]
  · rw [hplaces, hes]
  · rw [Numeral.digitsValue_of_digits? (Numeral.digits?_append hds hes), Nat.ofDigitChars_append,
      Nat.ofDigitChars_ten_toDigits, ofDigitChars_lastDigits]
  · rw [Numeral.length_of_digits? hes, length_lastDigits]

/-! ## Texts that are written -/

/-- Digits, points and minus signs are all that is written, so it is read as it stands. -/
lemma ofText?_toText_of_chars (x : Decimal) :
    ofText? x.toText = (Numeral.ofChars? x.toChars).bind ofPlain? ∧
      isWholeText? x.toText = (Numeral.ofChars? x.toChars).map Numeral.isWhole := by
  have hdigit {c : Char} (h : c.isDigit = true) : Token.isNumeralChar c = true ∨ c = '-' :=
    .inl (isNumeralChar_of_isDigit h)
  have htext : x.toText.toList = x.toChars := String.toList_ofList
  rw [← htext]
  refine ofText?_of_chars fun c hc => ?_
  simp only [htext, toChars, List.mem_append] at hc
  rcases hc with (hsign | hfront) | hplaces
  · split at hsign
    · exact .inr (List.mem_singleton.mp hsign)
    · cases hsign
  · exact hdigit (isDigit_of_mem_front x c hfront)
  · split at hplaces
    · cases hplaces
    · rcases List.mem_cons.mp hplaces with rfl | hplaces
      · exact .inl rfl
      · exact hdigit (isDigit_of_mem_lastDigits _ _ c hplaces)

/-- With a minus sign a text is no plain numeral. -/
lemma ofChars?_toChars_of_negative (h : x.negative = true) : Numeral.ofChars? x.toChars = none := by
  rw [Option.eq_none_iff_forall_ne_some]
  intro n hn
  have hplain := Numeral.exists_ofChars?_iff.mp ⟨n, hn⟩
  have hminus : '-' ∈ x.toChars := by simp [toChars, h]
  exact absurd (hplain.1 '-' hminus) (by decide)

/-- Without one it is a plain numeral of the same value, and all of its digits fit. -/
lemma exists_rounded?_toChars (h : x.negative = false) : ∃ n,
    Numeral.ofChars? x.toChars = some n ∧ rounded? n = some x ∧ x.magnitude = n.value := by
  obtain ⟨n, hn, hmantissa, hscale⟩ := exists_ofChars?_toChars h
  refine ⟨n, hn, ?_, ?_⟩
  · rw [rounded?_of_fits (hmantissa ▸ x.mantissa_lt) (hscale ▸ x.scale_le)]
    simp [hmantissa, hscale, ← h]
  · rw [magnitude, Numeral.value, ← Numeral.digitsValue_append, hmantissa, hscale]

/-- **What is written without a sign is read again**, place by place. -/
theorem ofText?_toText (x : Decimal) : ofText? x.toText = if x.negative then none else some x := by
  rw [(ofText?_toText_of_chars x).1]
  split
  · next h => rw [ofChars?_toChars_of_negative h, Option.bind_none]
  · next h =>
    obtain ⟨n, hn, hx, hvalue⟩ := exists_rounded?_toChars (Bool.eq_false_of_not_eq_true h)
    have hlt := lt_of_holds n.isLeast_significantPlaces (hvalue ▸ holds_magnitude x)
    rw [hn, Option.bind_some, (ofPlain?_of_lt hlt).mpr ⟨hx, hvalue⟩]

/-- **Whether it is whole** is told from what is written without a sign. -/
theorem isWholeText?_toText (x : Decimal) :
    isWholeText? x.toText = if x.negative then none else some x.isWhole := by
  rw [(ofText?_toText_of_chars x).2]
  split
  · next h => rw [ofChars?_toChars_of_negative h, Option.map_none]
  · next h =>
    obtain ⟨n, hn, -, hvalue⟩ := exists_rounded?_toChars (Bool.eq_false_of_not_eq_true h)
    rw [hn, Option.map_some, ← n.isInt_value, ← hvalue, isInt_magnitude]

end Decimal

/-! ## Numbers that are written -/

namespace Expr

/-- The number that a decimal is written as. -/
def ofDecimal (x : Decimal) : Expr :=
  .number x.toText

/-- **A decimal that is written as a number is its value**, the same decimal and not just an equal
one, if it has no sign.  With a sign, be it that of a zero, the number has no value and does not
count as whole. -/
theorem value?_ofDecimal (x : Decimal) :
    (ofDecimal x).isNumber = true ∧
      (ofDecimal x).value? = (if x.negative then none else some x) ∧
      ((ofDecimal x).isInteger = true ↔ x.negative = false ∧ x.toRat.isInt = true) := by
  have hvalue : (ofDecimal x).value? = Decimal.ofText? x.toText := rfl
  have hinteger : (ofDecimal x).isInteger = decide (Decimal.isWholeText? x.toText = some true) :=
    isInteger_of_numeral? rfl
  rw [hvalue, Decimal.ofText?_toText, hinteger, Decimal.isWholeText?_toText, Decimal.isInt_toRat]
  refine ⟨rfl, rfl, ?_⟩
  cases x.negative <;> simp

/-- So a negative whole number is written as one that is none. -/
theorem value?_ofDecimal_negative :
    let x : Decimal := ⟨true, 3, 0, by decide, by decide⟩
    ofDecimal x = number "-3" ∧ x.toRat.isInt = true ∧ (ofDecimal x).isNumber = true ∧
      (ofDecimal x).value? = none ∧ (ofDecimal x).isInteger = false := by
  intro x
  have htext : ofDecimal x = number "-3" := by decide +kernel
  have hwhole : x.toRat.isInt = true := by decide +kernel
  obtain ⟨hnumber, hvalue, hinteger⟩ := value?_ofDecimal x
  refine ⟨htext, hwhole, hnumber, hvalue, ?_⟩
  rw [← Bool.not_eq_true, hinteger]
  rintro ⟨hsign, -⟩
  cases hsign

end Expr

end MathExpr
