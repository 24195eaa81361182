import Mathlib.Algebra.Order.Group.Unbundled.Abs
import Mathlib.Tactic.LinearCombination
import MathExpr.Proofs.Decimals.Places

/-!
# What rounding a numeral does

A decimal takes the digits of a numeral as long as they fit, and the first one that does not fit
rounds it.  So what comes out is next to the value of the numeral, and if it is not that value, then
there was no room for another place.

* `Decimal.Holds` — the rational numbers that some decimal has as its value.
* `Decimal.Approximates`, `Decimal.Rounds` — how a decimal is related to what it was rounded from.
* `Decimal.Stops`, `Decimal.exists_stops` — where the digits that fit end.
* `Decimal.rounds_of_roundBy` — what the next digit does.
* **`Decimal.rounds_of_rounded?`** — a numeral is rounded to a decimal next to it.
* **`Decimal.exists_rounded?`** — and to one of its own value, if there is one.
-/

namespace MathExpr.Decimal

open Numeral

variable {q : ℚ} {x y : Decimal} {d : Fin 10} {ds : List (Fin 10)} {n : Numeral}

/-! ## Values of decimals -/

/-- Some decimal has the value `q`: without zeros at their end its digits fit, and its places
too. -/
def Holds (q : ℚ) : Prop :=
  ∃ m k : ℕ, q = m / 10 ^ k ∧ IsLeast (places q) k ∧ k ≤ maxScale ∧ m < mantissaLimit

lemma holds_magnitude (x : Decimal) : Holds x.magnitude := by
  have hleast := isLeast_reducedScale x
  obtain ⟨m, hm⟩ := hleast.1
  have hscale := reducedScale_le x
  refine ⟨m, x.reducedScale, hm, hleast, Nat.le_trans hscale x.scale_le, ?_⟩
  rw [magnitude, div_eq_div_iff (by positivity) (by positivity)] at hm
  have hdigits : m * 10 ^ x.scale = x.mantissa * 10 ^ x.reducedScale := by exact_mod_cast hm.symm
  have hpow : 10 ^ x.reducedScale ≤ 10 ^ x.scale := Nat.pow_le_pow_right (by decide) hscale
  have hle : m * 10 ^ x.scale ≤ x.mantissa * 10 ^ x.scale :=
    hdigits.trans_le (Nat.mul_le_mul_left _ hpow)
  exact Nat.lt_of_le_of_lt (Nat.le_of_mul_le_mul_right hle (by positivity)) x.mantissa_lt

/-! ## Approximations -/

/-- A decimal is off by half a unit of its last place at most, and has fewer places than are needed
where it is off at all. -/
structure Approximates (q : ℚ) (x : Decimal) : Prop where
  near : |x.magnitude - q| ≤ 1 / 2 / 10 ^ x.scale
  short : x.magnitude ≠ q → ∀ k ∈ places q, x.scale < k

/-- Where it is off, there was no room for another place. -/
structure Rounds (q : ℚ) (x : Decimal) : Prop extends Approximates q x where
  full : x.magnitude ≠ q → x.scale = maxScale ∨ mantissaLimit ≤ 10 * x.mantissa

lemma approximates_of_eq (h : x.magnitude = q) : Approximates q x where
  near := by
    rw [h, sub_self, abs_zero]
    positivity
  short := fun hne => absurd h hne

lemma Approximates.eq_of_mem_places (h : Approximates q x) (hmem : x.scale ∈ places q) :
    x.magnitude = q := by
  by_contra hne
  exact Nat.lt_irrefl _ (h.short hne _ hmem)

lemma abs_div_sub_div_le {a b : ℚ} (k : ℕ) (h : |a - b| ≤ 1 / 2) :
    |a / 10 ^ k - b / 10 ^ k| ≤ 1 / 2 / 10 ^ k := by
  have hpos : (0 : ℚ) < 10 ^ k := by positivity
  rw [← sub_div, abs_div, abs_of_pos hpos]
  exact div_le_div_of_nonneg_right h hpos.le

/-! ## Where digits stop to fit -/

/-- What digits behind a decimal add to it. -/
def extended (x : Decimal) (ds : List (Fin 10)) : ℚ :=
  (x.mantissa + fractionValue ds) / 10 ^ x.scale

lemma extended_of_eq_zero (h : fractionValue ds = 0) : x.extended ds = x.magnitude := by
  rw [extended, h, add_zero, magnitude]

/-- The places of a decimal suffice for more digits only if these are zeros. -/
lemma fractionValue_eq_zero {k : ℕ} (h : k ∈ places (x.extended ds)) (hk : k ≤ x.scale) :
    fractionValue ds = 0 :=
  fractionValue_eq_zero_of_mem_places (mem_places_of_le h hk)

/-- There is no room behind `x` for the digit `d`. -/
def Full (x : Decimal) (d : Fin 10) : Prop :=
  ¬ (x.scale < maxScale ∧ 10 * x.mantissa + d < mantissaLimit)

/-- What is made of a decimal whose digits fit and of those that do not. -/
def finish (x : Decimal) : List (Fin 10) → Option Decimal
  | [] => some x
  | d :: _ => roundBy d x

/-- The digits that fit are in `y`, and `rest` is what is left of them. -/
structure Stops (x : Decimal) (ds : List (Fin 10)) (y : Decimal) (rest : List (Fin 10)) :
    Prop where
  negative : y.negative = x.negative
  value : y.extended rest = x.extended ds
  full : ∀ d ∈ rest.head?, y.Full d
  result : x.appendPlaces ds = y.finish rest

/-- Taking digits stops somewhere. -/
lemma exists_stops (x : Decimal) (ds : List (Fin 10)) : ∃ y rest, Stops x ds y rest := by
  fun_induction appendPlaces x ds with
  | case1 x => exact ⟨x, [], rfl, rfl, nofun, rfl⟩
  | case2 x d ds h ih =>
      obtain ⟨y, rest, hstops⟩ := ih
      refine ⟨y, rest, hstops.negative, hstops.value.trans ?_, hstops.full, ?_⟩
      · rw [extended, extended, fractionValue_cons, pow_succ]
        push_cast
        field_simp
        ring
      · rw [← hstops.result, appendPlaces, dif_pos h]
  | case3 x d ds h =>
      refine ⟨x, d :: ds, rfl, rfl, ?_, ?_⟩
      · rintro e ⟨⟩
        exact h
      · rw [appendPlaces, dif_neg h, finish]

/-! ## The digit that does not fit -/

section NextDigit

lemma mantissaLimit_eq : mantissaLimit = 79228162514264337593543950336 := rfl

/-- A small digit is left out. -/
lemma rounds_down (hfull : x.Full d) (hd : d.val < 5) (ds : List (Fin 10)) :
    Rounds (x.extended (d :: ds)) x where
  near := by
    have hnonneg := fractionValue_nonneg (d :: ds)
    have hlt := fractionValue_lt_one ds
    have hcons := fractionValue_cons d ds
    have hdown : (d.val : ℚ) ≤ 4 := by exact_mod_cast Nat.le_of_lt_succ hd
    refine abs_div_sub_div_le x.scale (abs_le.mpr ⟨?_, ?_⟩)
    · linarith
    · linarith
  short hne k hk := by
    by_contra hle
    exact hne (extended_of_eq_zero (fractionValue_eq_zero hk (Nat.not_lt.mp hle))).symm
  full _ := by
    have := x.scale_le
    have := mantissaLimit_eq
    unfold Full at hfull
    omega

variable (hd : 5 ≤ d.val)

include hd

lemma le_fractionValue (ds : List (Fin 10)) : 1 / 2 ≤ fractionValue (d :: ds) := by
  have hnonneg := fractionValue_nonneg ds
  have hup : (5 : ℚ) ≤ d.val := by exact_mod_cast hd
  rw [fractionValue_cons]
  linarith

lemma fractionValue_ne_zero (ds : List (Fin 10)) : fractionValue (d :: ds) ≠ 0 := by
  have := le_fractionValue hd ds
  intro hzero
  linarith

/-- A large digit counts as one more. -/
lemma rounds_up (hfull : x.Full d) (hm : x.mantissa + 1 < mantissaLimit) (ds : List (Fin 10)) :
    Rounds (x.extended (d :: ds)) ⟨x.negative, x.mantissa + 1, x.scale, hm, x.scale_le⟩ where
  near := by
    have hle := le_fractionValue hd ds
    have hlt := fractionValue_lt_one (d :: ds)
    refine abs_div_sub_div_le x.scale (abs_le.mpr ⟨?_, ?_⟩)
    · push_cast
      linarith
    · push_cast
      linarith
  short _ k hk := by
    by_contra hle
    exact fractionValue_ne_zero hd ds (fractionValue_eq_zero hk (Nat.not_lt.mp hle))
  full _ := by
    have := x.scale_le
    have := d.isLt
    unfold Full at hfull
    simp only
    omega

/-- The largest mantissa gives up a place for it. -/
lemma rounds_carried {negative : Bool} {m k : ℕ} (hm : m < mantissaLimit) (hk : k + 1 ≤ maxScale)
    (hlimit : ¬ m + 1 < mantissaLimit) (hm' : (m + 5) / 10 < mantissaLimit) (hk' : k ≤ maxScale)
    (ds : List (Fin 10)) :
    Rounds (extended ⟨negative, m, k + 1, hm, hk⟩ (d :: ds)) ⟨negative, (m + 5) / 10, k, hm', hk'⟩
    where
  near := by
    have hle := le_fractionValue hd ds
    have hlt := fractionValue_lt_one (d :: ds)
    -- the largest mantissa ends with a five
    have hten : (10 * ((m + 5) / 10 : ℕ) : ℚ) = m + 5 := by
      have := mantissaLimit_eq
      have : 10 * ((m + 5) / 10) = m + 5 := by omega
      exact_mod_cast this
    have hclose : |(((m + 5) / 10 : ℕ) : ℚ) - (m + fractionValue (d :: ds)) / 10| ≤ 1 / 2 :=
      abs_le.mpr ⟨by linarith, by linarith⟩
    have := abs_div_sub_div_le k hclose
    rw [div_div, ← pow_succ'] at this
    exact this
  short _ l hl := by
    by_contra hle
    have : l ≤ k + 1 := Nat.le_succ_of_le (Nat.not_lt.mp hle)
    exact fractionValue_ne_zero hd ds (fractionValue_eq_zero hl this)
  full _ := by
    have := mantissaLimit_eq
    simp only
    omega

end NextDigit

/-- **Rounding by the next digit** keeps the sign, and gives what is next to all digits. -/
theorem rounds_of_roundBy (hfull : x.Full d) (h : roundBy d x = some y) (ds : List (Fin 10)) :
    y.negative = x.negative ∧ Rounds (x.extended (d :: ds)) y := by
  unfold roundBy at h
  split at h
  · next hd =>
    cases h
    exact ⟨rfl, rounds_down hfull hd ds⟩
  · next hd =>
    split at h
    · next hm =>
      cases h
      exact ⟨rfl, rounds_up (Nat.not_lt.mp hd) hfull hm ds⟩
    · next hlimit =>
      obtain ⟨negative, m, k, hm, hk⟩ := x
      cases k with
      | zero => cases h
      | succ k =>
          cases h
          exact ⟨rfl, rounds_carried (Nat.not_lt.mp hd) hm hk hlimit _ _ ds⟩

/-! ## Numerals -/

/-- What is taken of a numeral before its fraction. -/
lemma extended_integer (n : Numeral) (h : digitsValue n.integer < mantissaLimit) :
    extended ⟨false, digitsValue n.integer, 0, h, Nat.zero_le _⟩ n.fraction = n.value := by
  rw [extended, pow_zero, div_one, Numeral.value]

/-- A numeral is rounded where its digits stop to fit. -/
lemma exists_finish (n : Numeral) (h : digitsValue n.integer < mantissaLimit) :
    ∃ (y : Decimal) (rest : List (Fin 10)), y.negative = false ∧ y.extended rest = n.value ∧
      (∀ d ∈ rest.head?, y.Full d) ∧ rounded? n = y.finish rest := by
  obtain ⟨y, rest, hstops⟩ :=
    exists_stops ⟨false, digitsValue n.integer, 0, h, Nat.zero_le _⟩ n.fraction
  refine ⟨y, rest, hstops.negative, hstops.value.trans (extended_integer n h), hstops.full, ?_⟩
  rw [← hstops.result, rounded?, dif_pos h]

/-- **A numeral is rounded** to an unsigned decimal next to it. -/
theorem rounds_of_rounded? (h : rounded? n = some x) : x.negative = false ∧ Rounds n.value x := by
  by_cases hinteger : digitsValue n.integer < mantissaLimit
  · obtain ⟨y, rest, hnegative, hvalue, hfull, hresult⟩ := exists_finish n hinteger
    rw [hresult] at h
    rw [← hvalue]
    cases rest with
    | nil =>
        cases h
        have heq : x.magnitude = x.extended [] := (extended_of_eq_zero fractionValue_nil).symm
        exact ⟨hnegative, approximates_of_eq heq, fun hne => absurd heq hne⟩
    | cons d ds =>
        obtain ⟨hsign, hrounds⟩ := rounds_of_roundBy (hfull d rfl) h ds
        exact ⟨hsign.trans hnegative, hrounds⟩
  · rw [rounded?, dif_neg hinteger] at h
    cases h

/-- Digits that are left over are zeros, if some decimal has the value of them all. -/
lemma fractionValue_eq_zero_of_holds (h : Holds (x.extended (d :: ds))) (hfull : x.Full d) :
    fractionValue (d :: ds) = 0 := by
  obtain ⟨m, k, hvalue, -, hk, hm⟩ := h
  rcases Nat.lt_or_ge x.scale k with hlt | hle
  · -- otherwise there is room for one more digit
    obtain ⟨j, rfl⟩ := Nat.exists_eq_add_of_lt hlt
    refine absurd ⟨by omega, ?_⟩ hfull
    have hnonneg := fractionValue_nonneg ds
    have hdigits : (10 * x.mantissa + d.val + fractionValue ds) * 10 ^ j = m := by
      rw [extended, fractionValue_cons, div_eq_div_iff (by positivity) (by positivity), pow_succ,
        pow_add] at hvalue
      have hpos : (10 ^ x.scale : ℚ) ≠ 0 := by positivity
      apply mul_left_cancel₀ hpos
      linear_combination hvalue
    have hle : ((10 * x.mantissa + d.val : ℕ) : ℚ) ≤ m := by
      calc ((10 * x.mantissa + d.val : ℕ) : ℚ)
          ≤ 10 * x.mantissa + d.val + fractionValue ds := by
            push_cast
            linarith
        _ ≤ (10 * x.mantissa + d.val + fractionValue ds) * 10 ^ j :=
            le_mul_of_one_le_right (by positivity) (one_le_pow₀ (by norm_num))
        _ = m := hdigits
    exact Nat.lt_of_le_of_lt (by exact_mod_cast hle) hm
  · exact fractionValue_eq_zero ⟨m, hvalue⟩ hle

/-- **A numeral is rounded to its own value**, if some decimal has it. -/
theorem exists_rounded? (h : Holds n.value) : ∃ x, rounded? n = some x ∧ x.magnitude = n.value := by
  have hinteger : digitsValue n.integer < mantissaLimit := by
    obtain ⟨m, k, hvalue, -, -, hm⟩ := h
    have hfraction := fractionValue_nonneg n.fraction
    have hle : (digitsValue n.integer : ℚ) ≤ m := by
      calc (digitsValue n.integer : ℚ) ≤ n.value := by
            rw [Numeral.value]
            linarith
        _ = m / 10 ^ k := hvalue
        _ ≤ m := div_le_self (Nat.cast_nonneg m) (one_le_pow₀ (by norm_num))
    exact Nat.lt_of_le_of_lt (by exact_mod_cast hle) hm
  obtain ⟨y, rest, -, hvalue, hfull, hresult⟩ := exists_finish n hinteger
  rw [← hvalue] at h ⊢
  refine ⟨y, ?_, ?_⟩
  · rw [hresult]
    cases rest with
    | nil => rfl
    | cons d ds =>
        have hzero := fractionValue_eq_zero_of_holds h (hfull d rfl)
        obtain rfl : d = 0 := fractionValue_eq_zero_iff.mp hzero d (List.mem_cons_self ..)
        rfl
  · cases rest with
    | nil => exact (extended_of_eq_zero fractionValue_nil).symm
    | cons d ds => exact (extended_of_eq_zero (fractionValue_eq_zero_of_holds h (hfull d rfl))).symm

/-- So a numeral is rounded to another value only if no decimal has its own one. -/
lemma magnitude_eq_iff_holds (h : rounded? n = some x) : x.magnitude = n.value ↔ Holds n.value := by
  constructor
  · intro heq
    rw [← heq]
    exact holds_magnitude x
  · intro hholds
    obtain ⟨y, hy, hvalue⟩ := exists_rounded? hholds
    obtain rfl : x = y := Option.some.inj (h.symm.trans hy)
    exact hvalue

end MathExpr.Decimal
