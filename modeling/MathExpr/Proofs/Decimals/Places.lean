import Mathlib.Algebra.Field.Rat
import Mathlib.Algebra.Order.Ring.Rat
import Mathlib.Data.Rat.Lemmas
import Mathlib.Order.Bounds.Basic
import Mathlib.Tactic.FieldSimp
import Mathlib.Tactic.Linarith
import Mathlib.Tactic.Positivity
import Mathlib.Tactic.Ring
import MathExpr.Decimal.Reading

/-!
# The places of numerals and decimals

Numerals and decimals denote rational numbers.  How many places a number needs after the point is a
matter of its value alone, and both sides find it by leaving out the zeros at the end.  So comparing
these two counts can tell whether a decimal has the value of a numeral.

* `Decimal.places` — the numbers of places with which a rational number can be written.
* `Decimal.isLeast_places` — digits that do not end with a zero need all of theirs.
* `Decimal.magnitude`, `Decimal.toRat` — what a decimal denotes, without and with its sign.
* **`Decimal.isLeast_reducedScale`** — the least number of places of a decimal.
* `Numeral.fractionValue`, `Numeral.value` — what a numeral denotes.
* **`Numeral.isLeast_significantPlaces`** — the least number of places of a numeral.
* `Decimal.isInt_toRat`, `Numeral.isInt_value` — none are needed by what is called whole.
-/

namespace MathExpr

namespace Decimal

variable {q : ℚ} {m k l : ℕ}

/-! ## Places of rational numbers -/

/-- The numbers of places after the point with which `q` can be written. -/
def places (q : ℚ) : Set ℕ :=
  {k | ∃ m : ℕ, q = m / 10 ^ k}

/-- Further places are filled with zeros. -/
lemma mem_places_of_le (h : k ∈ places q) (hle : k ≤ l) : l ∈ places q := by
  obtain ⟨m, rfl⟩ := h
  obtain ⟨j, rfl⟩ := Nat.exists_eq_add_of_le hle
  refine ⟨m * 10 ^ j, ?_⟩
  rw [pow_add]
  push_cast
  field_simp

/-- Digits that do not end with a zero need all of their places. -/
lemma isLeast_places (h : k = 0 ∨ m % 10 ≠ 0) : IsLeast (places (m / 10 ^ k)) k := by
  refine ⟨⟨m, rfl⟩, ?_⟩
  rintro l ⟨a, ha⟩
  by_contra hlt
  obtain ⟨j, rfl⟩ := Nat.exists_eq_add_of_lt (Nat.not_le.mp hlt)
  rw [div_eq_div_iff (by positivity) (by positivity)] at ha
  have hm : m * 10 ^ l = 10 * (a * 10 ^ j) * 10 ^ l := by
    have : m * 10 ^ l = a * 10 ^ (l + j + 1) := by exact_mod_cast ha
    rw [this]
    ring
  have := Nat.eq_of_mul_eq_mul_right (by positivity) hm
  omega

/-- A number that is not negative is whole if it needs no places. -/
lemma isInt_iff_zero_mem_places (hq : 0 ≤ q) : q.isInt = true ↔ 0 ∈ places q := by
  have hint : q.isInt = true ↔ (q.num : ℚ) = q := by
    rw [Rat.isInt, beq_iff_eq, Rat.den_eq_one_iff]
  constructor
  · intro h
    obtain ⟨m, hm⟩ := Int.eq_ofNat_of_zero_le (Rat.num_nonneg.mpr hq)
    refine ⟨m, ?_⟩
    rw [pow_zero, div_one, ← hint.mp h, hm]
    rfl
  · rintro ⟨m, rfl⟩
    rw [hint, pow_zero, div_one]
    rfl

/-! ## Decimals -/

variable {x : Decimal}

/-- What a decimal denotes, apart from its sign. -/
def magnitude (x : Decimal) : ℚ :=
  x.mantissa / 10 ^ x.scale

/-- What a decimal denotes. -/
def toRat (x : Decimal) : ℚ :=
  if x.negative then -x.magnitude else x.magnitude

lemma magnitude_nonneg (x : Decimal) : 0 ≤ x.magnitude := by
  unfold magnitude
  positivity

lemma toRat_of_unsigned (h : x.negative = false) : x.toRat = x.magnitude := by
  rw [toRat, h]
  rfl

/-- Leaving out zeros at the end leaves as many places as are needed. -/
lemma isLeast_withoutZeros (m k : ℕ) : IsLeast (places (m / 10 ^ k)) (withoutZeros m k) := by
  fun_induction withoutZeros m k with
  | case1 m => exact isLeast_places (.inl rfl)
  | case2 m k hzero ih =>
      have hm : (m : ℚ) = 10 * (m / 10 : ℕ) := by
        exact_mod_cast (Nat.mul_div_cancel' (Nat.dvd_of_mod_eq_zero hzero)).symm
      have hvalue : (m : ℚ) / 10 ^ (k + 1) = (m / 10 : ℕ) / 10 ^ k := by
        rw [hm, pow_succ]
        field_simp
      rw [hvalue]
      exact ih
  | case3 m k hdigit => exact isLeast_places (.inr hdigit)

/-- **The reduced scale** of a decimal is the least number of places that its value needs. -/
theorem isLeast_reducedScale (x : Decimal) : IsLeast (places x.magnitude) x.reducedScale :=
  isLeast_withoutZeros x.mantissa x.scale

lemma reducedScale_le (x : Decimal) : x.reducedScale ≤ x.scale :=
  (isLeast_reducedScale x).2 ⟨x.mantissa, rfl⟩

lemma isInt_neg (q : ℚ) : (-q).isInt = q.isInt := by
  rw [Rat.isInt, Rat.isInt, Rat.den_neg_eq_den]

/-- A decimal is whole if it is apart from its sign. -/
lemma isInt_magnitude (x : Decimal) : x.magnitude.isInt = x.isWhole := by
  have hpow : Nat.pow 10 x.scale = 10 ^ x.scale := rfl
  rw [Bool.eq_iff_iff, isInt_iff_zero_mem_places x.magnitude_nonneg, isWhole, decide_eq_true_eq,
    hpow]
  constructor
  · rintro ⟨a, ha⟩
    rw [pow_zero, div_one, magnitude, div_eq_iff (by positivity)] at ha
    have hmantissa : x.mantissa = a * 10 ^ x.scale := by exact_mod_cast ha
    rw [hmantissa, Nat.mul_mod_left]
  · intro h
    obtain ⟨a, ha⟩ := Nat.dvd_of_mod_eq_zero h
    refine ⟨a, ?_⟩
    rw [pow_zero, div_one, magnitude, ha]
    push_cast
    field_simp

/-- A decimal is whole if its value is. -/
lemma isInt_toRat (x : Decimal) : x.toRat.isInt = x.isWhole := by
  rw [← isInt_magnitude, toRat]
  split
  · exact isInt_neg _
  · rfl

end Decimal

/-! ## Numerals -/

namespace Numeral

open Decimal

variable {d : Fin 10} {ds es : List (Fin 10)}

/-- What digits behind the point denote. -/
def fractionValue : List (Fin 10) → ℚ
  | [] => 0
  | d :: ds => (d.val + fractionValue ds) / 10

/-- What a numeral denotes. -/
def value (n : Numeral) : ℚ :=
  digitsValue n.integer + fractionValue n.fraction

@[simp] lemma fractionValue_nil : fractionValue [] = 0 := rfl

@[simp] lemma fractionValue_cons (d : Fin 10) (ds : List (Fin 10)) :
    fractionValue (d :: ds) = (d.val + fractionValue ds) / 10 := rfl

lemma fractionValue_nonneg (ds : List (Fin 10)) : 0 ≤ fractionValue ds := by
  induction ds with
  | nil => rfl
  | cons d ds ih =>
      rw [fractionValue_cons]
      positivity

lemma digit_le (d : Fin 10) : (d.val : ℚ) ≤ 9 := by
  exact_mod_cast Nat.le_of_lt_succ d.isLt

lemma fractionValue_lt_one (ds : List (Fin 10)) : fractionValue ds < 1 := by
  induction ds with
  | nil => exact zero_lt_one
  | cons d ds ih =>
      have := digit_le d
      rw [fractionValue_cons]
      linarith

lemma fractionValue_eq_zero_iff : fractionValue ds = 0 ↔ ∀ d ∈ ds, d = 0 := by
  induction ds with
  | nil => simp
  | cons d ds ih =>
      have hd : (0 : ℚ) ≤ d.val := by positivity
      have hds := fractionValue_nonneg ds
      rw [List.forall_mem_cons, ← ih, fractionValue_cons, div_eq_zero_iff]
      constructor
      · rintro (h | h)
        · refine ⟨?_, by linarith⟩
          have hval : (d.val : ℚ) = 0 := by linarith
          exact Fin.ext (Nat.cast_eq_zero.mp hval)
        · norm_num at h
      · rintro ⟨rfl, h⟩
        left
        rw [h]
        norm_num

/-- As many places as stand in front of further digits suffice only if these are zeros. -/
lemma fractionValue_eq_zero_of_mem_places {m k : ℕ}
    (h : k ∈ places ((m + fractionValue ds) / 10 ^ k)) : fractionValue ds = 0 := by
  have hnonneg := fractionValue_nonneg ds
  have hlt := fractionValue_lt_one ds
  obtain ⟨a, ha⟩ := h
  rw [div_left_inj' (by positivity)] at ha
  have hle : m ≤ a := by
    have : (m : ℚ) ≤ a := by linarith
    exact_mod_cast this
  have hge : a < m + 1 := by
    have : (a : ℚ) < m + 1 := by linarith
    exact_mod_cast this
  obtain rfl : a = m := by omega
  linarith

/-- Zeros at the end do not matter. -/
lemma fractionValue_append_zeros (h : ∀ e ∈ es, e = 0) :
    fractionValue (ds ++ es) = fractionValue ds := by
  induction ds with
  | nil => rw [List.nil_append, fractionValue_eq_zero_iff.mpr h, fractionValue_nil]
  | cons d ds ih => rw [List.cons_append, fractionValue_cons, ih, fractionValue_cons]

lemma digitsValue_concat (ds : List (Fin 10)) (d : Fin 10) :
    digitsValue (ds ++ [d]) = 10 * digitsValue ds + d := by
  rw [digitsValue, List.foldl_append]
  rfl

/-- The digits of a numeral without its point, over a power of ten. -/
lemma digitsValue_append (ds es : List (Fin 10)) :
    (digitsValue (ds ++ es) : ℚ) / 10 ^ es.length = digitsValue ds + fractionValue es := by
  induction es generalizing ds with
  | nil => simp
  | cons e es ih =>
      have hmove : ds ++ e :: es = ds ++ [e] ++ es := by simp
      rw [hmove, List.length_cons, pow_succ, ← div_div, ih, digitsValue_concat, fractionValue_cons]
      push_cast
      ring

/-- **The significant places** of a numeral are as many as its value needs. -/
theorem isLeast_significantPlaces (n : Numeral) : IsLeast (places n.value) n.significantPlaces := by
  -- what is left of the fraction without the zeros at its end, and these zeros
  set kept := (n.fraction.reverse.dropWhile (· = 0)).reverse with hkept
  set zeros := (n.fraction.reverse.takeWhile (· = 0)).reverse with hzeros
  have hsplit : n.fraction = kept ++ zeros := by
    rw [hkept, hzeros, ← List.reverse_append, List.takeWhile_append_dropWhile, List.reverse_reverse]
  have hzero : ∀ e ∈ zeros, e = 0 := by
    intro e he
    rw [hzeros, List.mem_reverse] at he
    simpa using List.all_eq_true.mp List.all_takeWhile e he
  have hvalue : n.value = digitsValue (n.integer ++ kept) / 10 ^ kept.length := by
    rw [value, hsplit, fractionValue_append_zeros hzero, digitsValue_append]
  have hplaces : n.significantPlaces = kept.length := by
    rw [significantPlaces, hkept, List.length_reverse]
  rw [hvalue, hplaces]
  apply isLeast_places
  rcases List.eq_nil_or_concat kept with hnil | ⟨ds, d, hconcat⟩
  · left
    rw [hnil, List.length_nil]
  · right
    have hd : d ≠ 0 := by
      have hhead : (n.fraction.reverse.dropWhile (· = 0)).head? = some d := by
        rw [← List.getLast?_reverse, ← hkept, hconcat, List.concat_eq_append, List.getLast?_concat]
      have := List.head?_dropWhile_not (· = 0) n.fraction.reverse
      rw [hhead] at this
      simpa using this
    rw [hconcat, List.concat_eq_append, ← List.append_assoc, digitsValue_concat]
    have := d.isLt
    have : d.val ≠ 0 := fun h => hd (Fin.ext h)
    omega

lemma value_nonneg (n : Numeral) : 0 ≤ n.value := by
  have := fractionValue_nonneg n.fraction
  unfold value
  positivity

/-- A numeral is whole if its value is. -/
lemma isInt_value (n : Numeral) : n.value.isInt = n.isWhole := by
  rw [Bool.eq_iff_iff, isInt_iff_zero_mem_places n.value_nonneg, isWhole, List.all_eq_true]
  simp only [decide_eq_true_eq, ← fractionValue_eq_zero_iff]
  have hvalue : n.value = (digitsValue n.integer + fractionValue n.fraction) / 10 ^ 0 := by
    rw [value, pow_zero, div_one]
  constructor
  · intro h
    rw [hvalue] at h
    exact fractionValue_eq_zero_of_mem_places h
  · intro h
    refine ⟨digitsValue n.integer, ?_⟩
    rw [value, h, add_zero, pow_zero, div_one]

end Numeral

end MathExpr
