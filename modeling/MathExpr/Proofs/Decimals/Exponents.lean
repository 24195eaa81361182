import Mathlib.Algebra.Order.Field.Power
import MathExpr.Proofs.Decimals.Exactness
import MathExpr.Proofs.Printing.Lexemes

/-!
# Numerals with an exponent

The significand in front of an exponent mark is rounded, and nothing asks whether that changed its
value.  So what is read may be off, by half a unit of its last place at most, and it is off exactly
if no decimal has the value of the significand.  Moving the point changes nothing about this.

* `Text.IsScientific`, `Text.scientificValue` — the texts of numerals with an exponent, and what
  they denote.
* `Decimal.exists_rounded_of_ofScientific?` — how they are read.
* `Decimal.Moves`, `Decimal.Approximates.moves` — moving the point, and what is off stays off.
* `Decimal.Rounds.shiftLeft`, `Decimal.Rounds.shiftRight` — that is what an exponent does.
* **`Decimal.approximates_of_ofScientific?`** — what they are read as.
* **`Expr.value?_number_scientific`** — when that is exact, and what it means for whole numbers.
-/

namespace MathExpr

/-! ## Texts with an exponent -/

namespace Text

variable {c : Char} {cs base : List Char} {exponent : ℤ}

/-- The texts of numerals with an exponent: a plain numeral, an exponent mark, maybe a minus sign,
and ASCII digits. -/
inductive IsScientific : (cs base : List Char) → (exponent : ℤ) → Prop
  | positive {base digits : List Char} {mark : Char} : IsPlainNumeral base →
      mark = 'e' ∨ mark = 'E' → (∀ c ∈ digits, c.isDigit = true) → digits ≠ [] →
      IsScientific (base ++ mark :: digits) base (Nat.ofDigitChars 10 digits 0)
  | negative {base digits : List Char} {mark : Char} : IsPlainNumeral base →
      mark = 'e' ∨ mark = 'E' → (∀ c ∈ digits, c.isDigit = true) → digits ≠ [] →
      IsScientific (base ++ mark :: '-' :: digits) base (-Nat.ofDigitChars 10 digits 0)

/-- What a numeral with an exponent denotes. -/
def scientificValue (base : List Char) (exponent : ℤ) : ℚ :=
  numeralValue base * 10 ^ exponent

lemma scientificValue_nonneg (base : List Char) (exponent : ℤ) :
    0 ≤ scientificValue base exponent := by
  unfold scientificValue numeralValue
  positivity

lemma isNumeralChar_of_isPlainNumeral (h : IsPlainNumeral cs) :
    ∀ c ∈ cs, Token.isNumeralChar c = true := by
  intro c hc
  rw [Token.isNumeralChar, Bool.or_eq_true, beq_iff_eq]
  exact h.1 c hc

/-- No character of a numeral is one of a few others. -/
lemma ne_of_isNumeralChar {d : Char} (hc : Token.isNumeralChar c = true)
    (hd : Token.isNumeralChar d = false) : c ≠ d := by
  rintro rfl
  rw [hc] at hd
  cases hd

lemma isNumeralChar_of_isDigit (h : c.isDigit = true) : Token.isNumeralChar c = true := by
  rw [Token.isNumeralChar, h, Bool.true_or]

lemma IsScientific.isWhiteSpace_eq_false (h : IsScientific cs base exponent) :
    ∀ c ∈ cs, isWhiteSpace c = false := by
  have hblank : ∀ {ds : List Char}, (∀ c ∈ ds, c.isDigit = true) →
      ∀ c ∈ ds, isWhiteSpace c = false := fun h c hc =>
    Token.isWhiteSpace_of_isNumeralChar (isNumeralChar_of_isDigit (h c hc))
  have hbase : IsPlainNumeral base → ∀ c ∈ base, isWhiteSpace c = false := fun h c hc =>
    Token.isWhiteSpace_of_isNumeralChar (isNumeralChar_of_isPlainNumeral h c hc)
  cases h with
  | positive h hmark hdigits =>
      refine List.forall_mem_append.mpr ⟨hbase h, List.forall_mem_cons.mpr ⟨?_, hblank hdigits⟩⟩
      rcases hmark with rfl | rfl <;> decide
  | negative h hmark hdigits =>
      refine List.forall_mem_append.mpr ⟨hbase h, List.forall_mem_cons.mpr ⟨?_, ?_⟩⟩
      · rcases hmark with rfl | rfl <;> decide
      · exact List.forall_mem_cons.mpr ⟨by decide, hblank hdigits⟩

end Text

/-! ## Reading them -/

namespace Decimal

open Text

variable {q : ℚ} {x y : Decimal} {p : ℕ} {cs base digits : List Char} {exponent : ℤ}

lemma groupEndsAfter_eq_false (count : ℕ) (h : '_' ∉ cs) : groupEndsAfter count cs = false := by
  fun_induction groupEndsAfter count cs with
  | case1 cs =>
      rw [decide_eq_false_iff_not]
      exact fun hhead => h (List.mem_of_mem_head? hhead)
  | case2 => rfl
  | case3 count c cs ih => exact ih (List.not_mem_of_not_mem_cons h)

/-- A plain numeral is rounded as it is when it is a significand. -/
lemma ofSignificand?_of_isPlainNumeral (h : IsPlainNumeral base) :
    ofSignificand? base = (Numeral.ofChars? base).bind rounded? := by
  have hchars := isNumeralChar_of_isPlainNumeral h
  have hsign : splitSign base = (false, base) := by
    unfold splitSign
    split
    · next cs => exact absurd (hchars '-' (List.mem_cons_self ..)) (by decide)
    · next cs => exact absurd (hchars '+' (List.mem_cons_self ..)) (by decide)
    · rfl
  have hgroups : '_' ∉ base := fun hmem => absurd (hchars _ hmem) (by decide)
  have hfilter : base.filter (· ≠ '_') = base :=
    List.filter_eq_self.mpr fun c hc =>
      decide_eq_true (ne_of_isNumeralChar (hchars c hc) (by decide))
  have hend : ∀ n, endsAtLastPlace n base = false := by
    intro n
    rw [endsAtLastPlace, groupEndsAfter_eq_false, Bool.false_and]
    exact fun hmem => hgroups ((List.dropWhile_suffix _).mem (List.mem_of_mem_drop hmem))
  have hfront : '_' ∉ base.takeWhile (!·.isDigit) := fun hmem =>
    hgroups ((List.takeWhile_prefix _).mem hmem)
  rw [ofSignificand?, hsign]
  simp only [if_neg hfront, hfilter, hend]
  refine Option.bind_congr fun n hn => ?_
  change (rounded? n).bind (fun x => some (x.withSign false)) = rounded? n
  cases hx : rounded? n with
  | none => rfl
  | some x =>
      have hnegative := (rounds_of_rounded? hx).1
      rw [Option.bind_some, withSign, Bool.false_and, ← hnegative]

lemma magnitude?_of_isDigit (h : ∀ c ∈ digits, c.isDigit = true) (hne : digits ≠ []) :
    magnitude? digits = some (Nat.ofDigitChars 10 digits 0) := by
  have hplus : digits.head? ≠ some '+' := by
    intro hhead
    exact absurd (h _ (List.mem_of_mem_head? hhead)) (by decide)
  obtain ⟨ds, hds⟩ := Numeral.exists_digits? h
  have hempty : ¬ ds.isEmpty = true := by
    rw [List.isEmpty_iff_length_eq_zero, Numeral.length_of_digits? hds]
    exact fun hlen => hne (List.eq_nil_of_length_eq_zero hlen)
  rw [magnitude?, if_neg hplus, hds, Option.bind_eq_bind, Option.bind_some, if_neg hempty,
    Numeral.digitsValue_of_digits? hds]
  rfl

/-- Without a minus sign the point moves to the right. -/
lemma applyExponent?_of_isDigit (h : ∀ c ∈ digits, c.isDigit = true) (hne : digits ≠ [])
    (hy : x.applyExponent? digits = some y) :
    x.shiftRight? (Nat.ofDigitChars 10 digits 0) = some y ∧
      Nat.ofDigitChars 10 digits 0 ≤ maxScale := by
  unfold applyExponent? at hy
  split at hy
  · exact absurd (h '-' (List.mem_cons_self ..)) (by decide)
  · rw [magnitude?_of_isDigit h hne, Option.bind_eq_bind, Option.bind_some] at hy
    split at hy
    · next hle => exact ⟨hy, hle⟩
    · cases hy

/-- With a minus sign it moves to the left. -/
lemma applyExponent?_minus (h : ∀ c ∈ digits, c.isDigit = true) (hne : digits ≠ [])
    (hy : x.applyExponent? ('-' :: digits) = some y) :
    x.shiftLeft? (Nat.ofDigitChars 10 digits 0) = some y := by
  rw [applyExponent?, magnitude?_of_isDigit h hne, Option.bind_eq_bind, Option.bind_some] at hy
  split at hy
  · exact hy
  · cases hy

/-- The significand of a numeral with an exponent is rounded, and then its point is moved. -/
lemma exists_rounded_of_ofScientific? {mark : Char} (hbase : IsPlainNumeral base)
    (hmark : mark = 'e' ∨ mark = 'E') (hy : ofScientific? (base ++ mark :: cs) = some y) :
    ∃ n x, Numeral.ofChars? base = some n ∧ rounded? n = some x ∧
      x.applyExponent? cs = some y := by
  have hchars : ∀ c ∈ base, (!isExponentMark c) = true := by
    intro c hc
    have := isNumeralChar_of_isPlainNumeral hbase c hc
    simp [isExponentMark, ne_of_isNumeralChar this (d := 'e') (by decide),
      ne_of_isNumeralChar this (d := 'E') (by decide)]
  have hrest : ∀ c ∈ (mark :: cs).head?, (!isExponentMark c) = false := by
    rintro c ⟨⟩
    rcases hmark with rfl | rfl <;> rfl
  rw [ofScientific?, Token.takeWhile_run hchars hrest, Token.dropWhile_run hchars hrest,
    ofSignificand?_of_isPlainNumeral hbase] at hy
  obtain ⟨x, hx, hy⟩ := Option.bind_eq_some_iff.mp hy
  obtain ⟨n, hn, hx⟩ := Option.bind_eq_some_iff.mp hx
  exact ⟨n, x, hn, hx, hy⟩

/-! ## Moving the point -/

/-- What takes no places is not approximated by anything else. -/
lemma Approximates.magnitude_eq_of_isInt (h : Approximates q x) (hq : 0 ≤ q)
    (hint : q.isInt = true) : x.magnitude = q := by
  by_contra hne
  exact Nat.not_lt_zero _ (h.short hne 0 ((isInt_iff_zero_mem_places hq).mp hint))

/-- `y` is `x` with its point moved by `e` places, and stands for `q` with its point moved like
this. -/
structure Moves (q : ℚ) (e : ℤ) (x y : Decimal) : Prop where
  negative : y.negative = x.negative
  magnitude_eq : y.magnitude = x.magnitude * 10 ^ e
  approximates : Approximates (q * 10 ^ e) y

/-- With the same digits, what is off stays off by half a unit at most. -/
lemma Approximates.moves {e : ℤ} (h : Approximates q x) (hnegative : y.negative = x.negative)
    (hmantissa : y.mantissa = x.mantissa) (hscale : (y.scale : ℤ) = x.scale - e) :
    Moves q e x y := by
  have hpow : (0 : ℚ) < 10 ^ e := by positivity
  have hunit : (10 : ℚ) ^ y.scale * 10 ^ e = 10 ^ x.scale := by
    rw [← zpow_natCast, hscale, ← zpow_add₀ (by norm_num), sub_add_cancel, zpow_natCast]
  have hmove : ∀ a : ℚ, a / 10 ^ y.scale = a / 10 ^ x.scale * 10 ^ e := by
    intro a
    rw [← hunit]
    field_simp
  have hmagnitude : y.magnitude = x.magnitude * 10 ^ e := by
    rw [magnitude, magnitude, hmantissa, hmove]
  refine ⟨hnegative, hmagnitude, ?_, fun hne k hk => ?_⟩
  · rw [hmagnitude, hmove, ← sub_mul, abs_mul, abs_of_pos hpow]
    exact mul_le_mul_of_nonneg_right h.near hpow.le
  · by_contra hle
    -- then the places of `x` would have been enough
    obtain ⟨m, hm⟩ := mem_places_of_le hk (Nat.not_lt.mp hle)
    rw [hmove, mul_left_inj' hpow.ne'] at hm
    exact hne (by rw [hmagnitude, h.eq_of_mem_places ⟨m, hm⟩])

namespace Rounds

lemma shiftLeft (h : Rounds q x) (hy : x.shiftLeft? p = some y) : Moves q (-p) x y := by
  unfold shiftLeft? at hy
  split at hy
  · cases hy
    refine h.toApproximates.moves rfl rfl ?_
    push_cast
    ring
  · cases hy

/-- What is off has no room for the zeros that it takes when its point leaves the digits behind. -/
lemma magnitude_eq_of_zeros (h : Rounds q x) (hp : p ≤ maxScale) (hlt : x.scale < p)
    (hlimit : x.mantissa * Nat.pow 10 (p - x.scale) < mantissaLimit) : x.magnitude = q := by
  by_contra hne
  rcases h.full hne with hscale | hfull
  · omega
  · obtain ⟨j, hj⟩ := Nat.exists_eq_add_of_lt (Nat.sub_pos_of_lt hlt)
    have hten : 10 * x.mantissa ≤ x.mantissa * Nat.pow 10 (p - x.scale) := by
      have hpow : Nat.pow 10 (p - x.scale) = 10 * 10 ^ j := by
        rw [hj, Nat.zero_add]
        exact pow_succ' 10 j
      rw [hpow, Nat.mul_comm x.mantissa, Nat.mul_assoc]
      exact Nat.mul_le_mul_left 10 (Nat.le_mul_of_pos_left _ (by positivity))
    omega

lemma shiftRight (h : Rounds q x) (hp : p ≤ maxScale) (hy : x.shiftRight? p = some y) :
    Moves q p x y := by
  unfold shiftRight? at hy
  split at hy
  · next hle =>
    cases hy
    refine h.toApproximates.moves rfl rfl ?_
    push_cast [hle]
    ring
  · next hlt =>
    split at hy
    · next hlimit =>
      cases hy
      have hlt := Nat.not_le.mp hlt
      have hmagnitude : magnitude ⟨x.negative, x.mantissa * Nat.pow 10 (p - x.scale), 0, hlimit,
          Nat.zero_le _⟩ = x.magnitude * 10 ^ (p : ℤ) := by
        have hpow : ((Nat.pow 10 (p - x.scale) : ℕ) : ℚ) * 10 ^ x.scale = 10 ^ p := by
          have : Nat.pow 10 (p - x.scale) * 10 ^ x.scale = 10 ^ p :=
            pow_sub_mul_pow 10 (Nat.le_of_lt hlt)
          exact_mod_cast this
        rw [magnitude, magnitude, zpow_natCast, ← hpow]
        push_cast
        field_simp
      refine ⟨rfl, hmagnitude, approximates_of_eq ?_⟩
      rw [hmagnitude, h.magnitude_eq_of_zeros hp hlt hlimit]
    · cases hy

end Rounds

/-- A significand and the exponent behind it. -/
lemma exists_moves_of_ofScientific? (h : IsScientific cs base exponent)
    (hy : ofScientific? cs = some y) :
    ∃ n x, Numeral.ofChars? base = some n ∧ rounded? n = some x ∧ Moves n.value exponent x y := by
  cases h with
  | positive hbase hmark hdigits hne =>
      obtain ⟨n, x, hn, hx, hshift⟩ := exists_rounded_of_ofScientific? hbase hmark hy
      obtain ⟨hshift, hp⟩ := applyExponent?_of_isDigit hdigits hne hshift
      exact ⟨n, x, hn, hx, (rounds_of_rounded? hx).2.shiftRight hp hshift⟩
  | negative hbase hmark hdigits hne =>
      obtain ⟨n, x, hn, hx, hshift⟩ := exists_rounded_of_ofScientific? hbase hmark hy
      have hshift := applyExponent?_minus hdigits hne hshift
      exact ⟨n, x, hn, hx, (rounds_of_rounded? hx).2.shiftLeft hshift⟩

/-- **What a numeral with an exponent is read as** is next to what it denotes, and equal to that
exactly if some decimal has the value of its significand. -/
theorem approximates_of_ofScientific? (h : IsScientific cs base exponent)
    (hy : ofScientific? cs = some y) :
    y.negative = false ∧ Approximates (scientificValue base exponent) y ∧
      (y.magnitude = scientificValue base exponent ↔ Holds (numeralValue base)) := by
  obtain ⟨n, x, hn, hx, hmoves⟩ := exists_moves_of_ofScientific? h hy
  have hpow : (10 ^ exponent : ℚ) ≠ 0 := by positivity
  rw [scientificValue, ← Numeral.value_of_ofChars? hn]
  refine ⟨hmoves.negative.trans (rounds_of_rounded? hx).1, hmoves.approximates, ?_⟩
  rw [hmoves.magnitude_eq, mul_left_inj' hpow, magnitude_eq_iff_holds hx]

lemma any_isExponentMark (h : IsScientific cs base exponent) : cs.any isExponentMark = true := by
  rw [List.any_eq_true]
  cases h with
  | positive _ hmark | negative _ hmark =>
      refine ⟨_, List.mem_append_right _ (List.mem_cons_self ..), ?_⟩
      rcases hmark with rfl | rfl <;> rfl

/-- With an exponent mark a text is not read as a plain numeral. -/
lemma ofText?_of_isScientific {text : String} (h : IsScientific text.toList base exponent) :
    ofText? text = ofScientific? text.toList ∧
      isWholeText? text = (ofScientific? text.toList).map isWhole := by
  have hmark := any_isExponentMark h
  have htrim := trim_eq_self h.isWhiteSpace_eq_false
  simp only [ofText?, isWholeText?, htrim, if_pos hmark, and_self]

end Decimal

/-! ## Numerals with an exponent as numbers -/

namespace Expr

open Decimal Text

/-- **Numerals with an exponent are read next to what they denote.**

* What is read is off by half a unit of its last place at most, and exact if and only if some
  decimal has the value of the significand.
* A number that is called whole is whole if and only if this is so.
* A number that is called fractional is fractional, be what was read exact or not. -/
theorem value?_number_scientific {text : String} {base : List Char} {exponent : ℤ}
    (h : IsScientific text.toList base exponent) :
    (∀ x, (number text).value? = some x →
      |x.toRat - scientificValue base exponent| ≤ 1 / 2 / 10 ^ x.scale ∧
        (x.toRat = scientificValue base exponent ↔ Holds (numeralValue base))) ∧
    ((number text).isInteger = true →
      ((scientificValue base exponent).isInt = true ↔ Holds (numeralValue base))) ∧
    ((number text).isFractional = true → (scientificValue base exponent).isInt = false) := by
  obtain ⟨hvalue, hwhole⟩ := ofText?_of_isScientific h
  have hnonneg := scientificValue_nonneg base exponent
  -- both tests of a number look at the decimal that is read
  have hread : ∀ {whole : Bool}, isWholeText? text = some whole →
      ∃ y, y.magnitude.isInt = whole ∧ Approximates (scientificValue base exponent) y ∧
        (y.magnitude = scientificValue base exponent ↔ Holds (numeralValue base)) := by
    intro whole hw
    rw [hwhole] at hw
    obtain ⟨y, hy, hw⟩ := Option.map_eq_some_iff.mp hw
    obtain ⟨hnegative, happrox, hexact⟩ := approximates_of_ofScientific? h hy
    refine ⟨y, ?_, happrox, hexact⟩
    rw [← toRat_of_unsigned hnegative, isInt_toRat, hw]
  refine ⟨fun x hx => ?_, fun hinteger => ?_, fun hfractional => ?_⟩
  · obtain ⟨hnegative, happrox, hexact⟩ := approximates_of_ofScientific? h (hvalue.symm.trans hx)
    rw [toRat_of_unsigned hnegative]
    exact ⟨happrox.near, hexact⟩
  · obtain ⟨y, hy, happrox, hexact⟩ := hread (of_decide_eq_true hinteger)
    rw [← hexact]
    exact ⟨happrox.magnitude_eq_of_isInt hnonneg, fun heq => heq ▸ hy⟩
  · obtain ⟨y, hy, happrox, -⟩ := hread (of_decide_eq_true hfractional)
    rw [← Bool.not_eq_true]
    intro hint
    rw [happrox.magnitude_eq_of_isInt hnonneg hint, hint] at hy
    cases hy

/-- More nines behind the point than a decimal has places. -/
def nines : List Char :=
  "0.99999999999999999999999999999".toList

/-- They are rounded to one, which is taken for a whole number. -/
theorem value?_number_scientific_nines :
    IsScientific (String.ofList (nines ++ ['e', '0'])).toList nines 0 ∧
      (number (String.ofList (nines ++ ['e', '0']))).value? =
        some ⟨false, 10000000000000000000000000000, 28, by decide, by decide⟩ ∧
      (number (String.ofList (nines ++ ['e', '0']))).isInteger = true ∧
      toRat ⟨false, 10000000000000000000000000000, 28, by decide, by decide⟩ ≠
        scientificValue nines 0 ∧
      ¬ Holds (numeralValue nines) ∧ (scientificValue nines 0).isInt = false := by
  have hscientific : IsScientific (String.ofList (nines ++ ['e', '0'])).toList nines 0 := by
    rw [String.toList_ofList]
    exact .positive (by decide +kernel) (.inl rfl) (List.forall_mem_singleton.mpr rfl) (by simp)
  have hvalue : (number (String.ofList (nines ++ ['e', '0']))).value? =
      some ⟨false, 10000000000000000000000000000, 28, by decide, by decide⟩ := by decide +kernel
  have hinteger : (number (String.ofList (nines ++ ['e', '0']))).isInteger = true := by
    decide +kernel
  have hne : toRat ⟨false, 10000000000000000000000000000, 28, by decide, by decide⟩ ≠
      scientificValue nines 0 := by decide +kernel
  obtain ⟨hread, hwhole, -⟩ := value?_number_scientific hscientific
  have hholds : ¬ Holds (numeralValue nines) := fun h => hne ((hread _ hvalue).2.mpr h)
  refine ⟨hscientific, hvalue, hinteger, hne, hholds, ?_⟩
  rw [← Bool.not_eq_true]
  exact fun hint => hholds ((hwhole hinteger).mp hint)

end Expr

end MathExpr
