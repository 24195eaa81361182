import MathExpr.Proofs.Decimals.Rounding

/-!
# Places are counted by a word

A plain numeral is accepted if what it was rounded to has as many places.  That tells every loss as
long as the significant places of the numeral are counted up to the last.  The count starts again at
zero when its word of 32 bits is full.  No decimal has so many places, so such a numeral is never
accepted for its value, but it is when the places left over are as many as those of what it was
rounded to.

* `Decimal.reducedScale_eq_iff` — rounding shows in the number of places.
* `Decimal.ofPlain?_eq_some_iff` — as many of them as are counted decide.
* **`Decimal.ofPlain?_of_lt`** — what is accepted while all of them are counted.
* `Decimal.lt_of_holds` — all are, if some decimal has the value.
* `Numeral.isWhole_iff`, `Decimal.isWhole_of_ofPlain?` — what is whole has no places.
* **`Decimal.ofPlain?_oneBehind`** — numerals that are taken for zero.
-/

namespace MathExpr

/-! ## The count -/

namespace Numeral

open Decimal

lemma toNat_countedPlaces (n : Numeral) : n.countedPlaces.toNat = n.significantPlaces % 2 ^ 32 :=
  UInt32.toNat_ofNat'

/-- A numeral is whole if it has no significant places. -/
lemma isWhole_iff (n : Numeral) : n.isWhole = true ↔ n.significantPlaces = 0 := by
  have hleast := n.isLeast_significantPlaces
  rw [← n.isInt_value, isInt_iff_zero_mem_places n.value_nonneg]
  constructor
  · intro h
    exact Nat.le_zero.mp (hleast.2 h)
  · intro h
    exact h ▸ hleast.1

end Numeral

namespace Decimal

variable {q : ℚ} {n : Numeral} {x : Decimal} {k : ℕ}

/-- **Rounding shows in the number of places.** -/
theorem reducedScale_eq_iff (h : rounded? n = some x) :
    x.reducedScale = n.significantPlaces ↔ x.magnitude = n.value := by
  have hleast := n.isLeast_significantPlaces
  constructor
  · intro hscale
    have hmem : x.scale ∈ places n.value :=
      mem_places_of_le hleast.1 (hscale ▸ reducedScale_le x)
    exact (rounds_of_rounded? h).2.eq_of_mem_places hmem
  · intro hvalue
    exact (hvalue ▸ isLeast_reducedScale x).unique hleast

/-- A numeral is accepted if its count is that of what it was rounded to. -/
lemma ofPlain?_eq_some_iff : ofPlain? n = some x ↔
    rounded? n = some x ∧ x.reducedScale = n.significantPlaces % 2 ^ 32 := by
  rw [ofPlain?, Option.bind_eq_bind, Option.bind_eq_some_iff, ← n.toNat_countedPlaces]
  constructor
  · rintro ⟨y, hy, h⟩
    split at h
    · next hscale =>
      cases h
      exact ⟨hy, hscale⟩
    · cases h
  · rintro ⟨h, hscale⟩
    exact ⟨x, h, if_pos hscale⟩

/-- **A count that does not start again** shows every loss. -/
theorem ofPlain?_of_lt (h : n.significantPlaces < 2 ^ 32) :
    ofPlain? n = some x ↔ rounded? n = some x ∧ x.magnitude = n.value := by
  rw [ofPlain?_eq_some_iff, Nat.mod_eq_of_lt h]
  exact and_congr_right reducedScale_eq_iff

/-- Values of decimals have few places. -/
lemma lt_of_holds (hk : IsLeast (places q) k) (h : Holds q) : k < 2 ^ 32 := by
  obtain ⟨m, l, -, hl, hscale, -⟩ := h
  rw [hk.unique hl]
  exact Nat.lt_of_le_of_lt hscale (by decide)

/-- A numeral is accepted if some decimal has its value. -/
lemma exists_ofPlain?_of_holds (h : Holds n.value) : ∃ x, ofPlain? n = some x := by
  obtain ⟨x, hx, hvalue⟩ := exists_rounded? h
  have hlt := lt_of_holds n.isLeast_significantPlaces h
  exact ⟨x, (ofPlain?_of_lt hlt).mpr ⟨hx, hvalue⟩⟩

/-- What is accepted is whole if no places are left over. -/
lemma isWhole_of_ofPlain? (h : ofPlain? n = some x) :
    x.isWhole = true ↔ 2 ^ 32 ∣ n.significantPlaces := by
  have hleast := isLeast_reducedScale x
  rw [← isInt_magnitude, isInt_iff_zero_mem_places x.magnitude_nonneg, Nat.dvd_iff_mod_eq_zero,
    ← (ofPlain?_eq_some_iff.mp h).2]
  constructor
  · intro hzero
    exact Nat.le_zero.mp (hleast.2 hzero)
  · intro hzero
    exact hzero ▸ hleast.1

end Decimal

/-! ## A one far behind the point -/

namespace Numeral

/-- The one and the zeros in front of it count. -/
lemma significantPlaces_oneBehind (k : ℕ) :
    (Numeral.mk [0] (List.replicate k 0 ++ [1])).significantPlaces = k + 1 := by
  simp [significantPlaces]

lemma value_oneBehind (k : ℕ) :
    (Numeral.mk [0] (List.replicate k 0 ++ [1])).value = 1 / 10 ^ (k + 1) := by
  have hfraction : fractionValue (List.replicate k 0 ++ [1]) = 1 / 10 ^ (k + 1) := by
    induction k with
    | zero => norm_num
    | succ k ih =>
        rw [List.replicate_succ, List.cons_append, fractionValue_cons, ih, pow_succ _ (k + 1)]
        field_simp
        norm_num
  rw [value, hfraction]
  norm_num [digitsValue]

end Numeral

namespace Decimal

/-- Zeros are taken as long as there are places, and what follows them does not count any more. -/
lemma appendPlaces_zeros {s k : ℕ} (hs : s ≤ maxScale) (hk : maxScale ≤ s + k) :
    appendPlaces ⟨false, 0, s, by decide, hs⟩ (List.replicate k 0 ++ [1]) =
      some ⟨false, 0, maxScale, by decide, Nat.le_refl _⟩ := by
  induction k generalizing s with
  | zero =>
      obtain rfl : s = maxScale := Nat.le_antisymm hs hk
      rfl
  | succ k ih =>
      rw [List.replicate_succ, List.cons_append]
      rcases hs.lt_or_eq with hlt | rfl
      · have hfits : s < maxScale ∧ 10 * 0 + (0 : Fin 10).val < mantissaLimit := ⟨hlt, by decide⟩
        rw [appendPlaces, dif_pos hfits]
        exact ih hlt (by omega)
      · rfl

/-- **A one far behind the point is lost**, and the numeral is taken for zero if its places fill the
count. -/
theorem ofPlain?_oneBehind {k : ℕ} (hk : maxScale ≤ k) :
    ofPlain? ⟨[0], List.replicate k 0 ++ [1]⟩ =
      if 2 ^ 32 ∣ k + 1 then some ⟨false, 0, maxScale, by decide, Nat.le_refl _⟩ else none := by
  have hrounded : rounded? ⟨[0], List.replicate k 0 ++ [1]⟩ =
      some ⟨false, 0, maxScale, by decide, Nat.le_refl _⟩ :=
    appendPlaces_zeros (Nat.zero_le _) (by omega)
  split
  · next h =>
    refine ofPlain?_eq_some_iff.mpr ⟨hrounded, ?_⟩
    rw [Numeral.significantPlaces_oneBehind, Nat.mod_eq_zero_of_dvd h]
    rfl
  · next h =>
    rw [Option.eq_none_iff_forall_ne_some]
    intro x hx
    obtain ⟨hx, hscale⟩ := ofPlain?_eq_some_iff.mp hx
    obtain rfl := Option.some.inj (hrounded.symm.trans hx)
    rw [Numeral.significantPlaces_oneBehind] at hscale
    exact h (Nat.dvd_of_mod_eq_zero hscale.symm)

end Decimal

end MathExpr
