import MathExpr.Expr.Value
import MathExpr.Proofs.Decimals.Counting

/-!
# Plain numerals are read exactly

What a plain numeral denotes is said here without reading it: its digits without the point, over a
power of ten.  Its value is a decimal of exactly this value, and there is one whenever some decimal
has it, however many zeros are written in front or behind.  The exceptions are numerals whose places
are too many to be counted: what one of them is read as, if anything, has another value.

* `Text.IsPlainNumeral`, `Text.numeralValue` — the texts of plain numerals, and what they denote.
* `Numeral.exists_ofChars?_iff`, `Numeral.value_of_ofChars?` — these are the texts that are read,
  and this is what they are read as.
* `Numeral.textOneBehind`, `Decimal.ofText?_textOneBehind` — the texts of numerals taken for zero.
* **`Expr.value?_number_plain`** — which texts have a value, and what it is.
-/

namespace MathExpr

/-! ## Texts of plain numerals -/

namespace Text

variable {c : Char} {cs : List Char}

/-- The texts of plain numerals: ASCII digits with at most one point, and at least one digit. -/
def IsPlainNumeral (cs : List Char) : Prop :=
  (∀ c ∈ cs, c.isDigit = true ∨ c = '.') ∧ cs.count '.' ≤ 1 ∧ ∃ c ∈ cs, c.isDigit = true

instance : Decidable (IsPlainNumeral cs) :=
  decidable_of_iff
    (cs.all (fun c => c.isDigit || c == '.') ∧ cs.count '.' ≤ 1 ∧ cs.any Char.isDigit) (by
      simp only [IsPlainNumeral, List.all_eq_true, List.any_eq_true, Bool.or_eq_true, beq_iff_eq])

/-- The characters in front of the first point of a text. -/
def integerPart (cs : List Char) : List Char :=
  cs.takeWhile (· ≠ '.')

/-- The characters behind the first point of a text. -/
def fractionPart (cs : List Char) : List Char :=
  (cs.dropWhile (· ≠ '.')).drop 1

/-- What a plain numeral denotes: its digits without the point, over a power of ten for as many of
them as stand behind the point. -/
def numeralValue (cs : List Char) : ℚ :=
  Nat.ofDigitChars 10 (cs.filter (· ≠ '.')) 0 / 10 ^ (fractionPart cs).length

/-- Some number of places is the least that it needs. -/
lemma exists_isLeast_places_numeralValue (cs : List Char) :
    ∃ k, IsLeast (Decimal.places (numeralValue cs)) k :=
  ⟨_, Decimal.isLeast_withoutZeros _ _⟩

lemma ne_point_of_mem_integerPart (h : c ∈ integerPart cs) : c ≠ '.' := by
  have := List.all_eq_true.mp List.all_takeWhile c h
  simpa using this

/-- A text is what stands in front of its point, or has the point between its two parts. -/
lemma eq_parts (cs : List Char) : (fractionPart cs = [] ∧ integerPart cs = cs) ∨
    integerPart cs ++ '.' :: fractionPart cs = cs := by
  have hsplit : integerPart cs ++ cs.dropWhile (· ≠ '.') = cs := List.takeWhile_append_dropWhile
  cases hrest : cs.dropWhile (· ≠ '.') with
  | nil =>
      left
      rw [hrest, List.append_nil] at hsplit
      exact ⟨by rw [fractionPart, hrest, List.drop_nil], hsplit⟩
  | cons c rest =>
      right
      have hc : c = '.' := by
        have := List.head?_dropWhile_not (· ≠ '.') cs
        rw [hrest] at this
        simpa using this
      rw [hrest, hc] at hsplit
      rw [fractionPart, hrest]
      exact hsplit

lemma ne_point_of_isDigit (h : c.isDigit = true) : c ≠ '.' := by
  rintro rfl
  cases h

lemma count_point_eq_zero (h : ∀ c ∈ cs, c.isDigit = true) : cs.count '.' = 0 :=
  List.count_eq_zero.mpr fun hmem => ne_point_of_isDigit (h _ hmem) rfl

/-- Without a point a plain numeral is a run of digits. -/
lemma isPlainNumeral_iff_of_ne_point (h : ∀ c ∈ cs, c ≠ '.') :
    IsPlainNumeral cs ↔ (∀ c ∈ cs, c.isDigit = true) ∧ cs ≠ [] := by
  constructor
  · rintro ⟨hchars, -, c, hc, -⟩
    exact ⟨fun c hc => (hchars c hc).resolve_right (h c hc), List.ne_nil_of_mem hc⟩
  · rintro ⟨hdigits, hne⟩
    have hhead := List.head_mem hne
    have hcount : cs.count '.' ≤ 1 := by
      rw [count_point_eq_zero hdigits]
      exact Nat.zero_le 1
    exact ⟨fun c hc => .inl (hdigits c hc), hcount, _, hhead, hdigits _ hhead⟩

/-- At a point a plain numeral falls into two runs of digits, and one of them can be empty. -/
lemma isPlainNumeral_append_point {front rest : List Char} (h : ∀ c ∈ front, c ≠ '.') :
    IsPlainNumeral (front ++ '.' :: rest) ↔
      (∀ c ∈ front ++ rest, c.isDigit = true) ∧ front ++ rest ≠ [] := by
  have hmem : ∀ {c : Char}, c ∈ front ++ '.' :: rest ↔ c ∈ front ++ rest ∨ c = '.' := by
    intro c
    rw [List.mem_append, List.mem_append, List.mem_cons]
    tauto
  constructor
  · rintro ⟨hchars, hpoint, c, hc, hdigit⟩
    have hrest : ∀ c ∈ rest, c ≠ '.' := by
      rintro c hc rfl
      have := List.count_pos_iff.mpr hc
      rw [List.count_append, List.count_cons_self] at hpoint
      omega
    have hpoints : ∀ c ∈ front ++ rest, c ≠ '.' := List.forall_mem_append.mpr ⟨h, hrest⟩
    refine ⟨fun c hc => (hchars c (hmem.mpr (.inl hc))).resolve_right (hpoints c hc), ?_⟩
    exact List.ne_nil_of_mem ((hmem.mp hc).resolve_right (ne_point_of_isDigit hdigit))
  · rintro ⟨hdigits, hne⟩
    obtain ⟨hfront, hrest⟩ := List.forall_mem_append.mp hdigits
    have hhead := List.head_mem hne
    refine ⟨fun c hc => (hmem.mp hc).imp_left (hdigits c), ?_, _, hmem.mpr (.inl hhead),
      hdigits _ hhead⟩
    rw [List.count_append, List.count_cons_self, count_point_eq_zero hfront,
      count_point_eq_zero hrest]

/-- Digits stand on either side of the point of a plain numeral, or on both. -/
lemma isPlainNumeral_iff : IsPlainNumeral cs ↔
    (∀ c ∈ integerPart cs ++ fractionPart cs, c.isDigit = true) ∧
      integerPart cs ++ fractionPart cs ≠ [] := by
  have hfront : ∀ c ∈ integerPart cs, c ≠ '.' := fun c => ne_point_of_mem_integerPart
  rcases eq_parts cs with ⟨hnil, hcs⟩ | hcs
  · rw [hcs] at hfront
    rw [hnil, List.append_nil, hcs, isPlainNumeral_iff_of_ne_point hfront]
  · rw [← isPlainNumeral_append_point hfront, hcs]

/-- The digits of a plain numeral are those of its two parts. -/
lemma filter_ne_point (h : ∀ c ∈ fractionPart cs, c ≠ '.') :
    cs.filter (· ≠ '.') = integerPart cs ++ fractionPart cs := by
  have hkeep : ∀ {ds : List Char}, (∀ c ∈ ds, c ≠ '.') → ds.filter (· ≠ '.') = ds := fun h =>
    List.filter_eq_self.mpr fun c hc => decide_eq_true (h c hc)
  have hfront : ∀ c ∈ integerPart cs, c ≠ '.' := fun c => ne_point_of_mem_integerPart
  rcases eq_parts cs with ⟨hnil, hcs⟩ | hcs
  · rw [hnil, List.append_nil, ← hkeep hfront, hcs]
  · calc cs.filter (· ≠ '.')
        = (integerPart cs ++ '.' :: fractionPart cs).filter (· ≠ '.') := by rw [hcs]
      _ = integerPart cs ++ fractionPart cs := by
          rw [List.filter_append, List.filter_cons_of_neg (by simp), hkeep hfront, hkeep h]

/-- Nothing is added to a text when it is trimmed. -/
lemma mem_of_mem_trim (h : c ∈ trim cs) : c ∈ cs := by
  rw [trim, List.mem_reverse] at h
  have := (List.dropWhile_suffix _).mem h
  rw [List.mem_reverse] at this
  exact (List.dropWhile_suffix _).mem this

/-- A text without white space is not trimmed. -/
lemma trim_eq_self (h : ∀ c ∈ cs, isWhiteSpace c = false) : trim cs = cs := by
  have hkeep : ∀ ds : List Char, (∀ c ∈ ds, isWhiteSpace c = false) →
      ds.dropWhile isWhiteSpace = ds := by
    intro ds hds
    cases ds with
    | nil => rfl
    | cons c ds =>
        have hc := hds c (List.mem_cons_self ..)
        exact List.dropWhile_cons_of_neg (by rw [hc]; exact Bool.false_ne_true)
  rw [trim, hkeep cs h, hkeep _ fun c hc => h c (List.mem_reverse.mp hc), List.reverse_reverse]

end Text

/-! ## Reading digits -/

namespace Numeral

open Text

variable {c : Char} {cs cs' : List Char} {d : Fin 10} {ds ds' : List (Fin 10)} {n : Numeral}

lemma isDigit_iff : c.isDigit = true ↔ '0'.toNat ≤ c.toNat ∧ c.toNat ≤ '9'.toNat := by
  simp only [Char.isDigit, Bool.and_eq_true, decide_eq_true_eq, ge_iff_le, UInt32.le_iff_toNat_le]
  rfl

lemma digit?_eq_some_iff :
    digit? c = some d ↔ c.isDigit = true ∧ d.val = c.toNat - '0'.toNat := by
  rw [isDigit_iff]
  unfold digit?
  split
  · next h =>
    rw [Option.some.injEq, Fin.ext_iff]
    exact ⟨fun heq => ⟨h, heq.symm⟩, fun heq => heq.2.symm⟩
  · next h => exact ⟨nofun, fun hd => absurd hd.1 h⟩

lemma digits?_cons_eq_some_iff :
    digits? (c :: cs) = some (d :: ds) ↔ digit? c = some d ∧ digits? cs = some ds := by
  rw [digits?]
  cases digit? c <;> cases digits? cs <;> simp

/-- Digits are read as digits. -/
lemma exists_digits? (h : ∀ c ∈ cs, c.isDigit = true) : ∃ ds, digits? cs = some ds := by
  induction cs with
  | nil => exact ⟨[], rfl⟩
  | cons c cs ih =>
      obtain ⟨hc, hcs⟩ := List.forall_mem_cons.mp h
      obtain ⟨ds, hds⟩ := ih hcs
      have hlt : c.toNat - '0'.toNat < 10 := by
        have := (isDigit_iff.mp hc).2
        simp at this ⊢
        omega
      exact ⟨⟨_, hlt⟩ :: ds, digits?_cons_eq_some_iff.mpr ⟨digit?_eq_some_iff.mpr ⟨hc, rfl⟩, hds⟩⟩

/-- A fact about the characters of digits and their values, digit by digit. -/
lemma digits?_induction {motive : List Char → List (Fin 10) → Prop} (nil : motive [] [])
    (cons : ∀ {c cs d ds}, c.isDigit = true → d.val = c.toNat - '0'.toNat →
      digits? cs = some ds → motive cs ds → motive (c :: cs) (d :: ds)) :
    ∀ cs {ds}, digits? cs = some ds → motive cs ds
  | [], ds, h => by
      cases h
      exact nil
  | c :: cs, ds, h => by
      rw [digits?] at h
      obtain ⟨d, hd, h⟩ := Option.bind_eq_some_iff.mp h
      obtain ⟨es, hes, h⟩ := Option.bind_eq_some_iff.mp h
      cases h
      obtain ⟨hdigit, hval⟩ := digit?_eq_some_iff.mp hd
      exact cons hdigit hval hes (digits?_induction nil cons cs hes)

lemma isDigit_of_digits? (h : digits? cs = some ds) : ∀ c ∈ cs, c.isDigit = true := by
  refine digits?_induction (motive := fun cs _ => ∀ c ∈ cs, c.isDigit = true) nofun ?_ cs h
  intro c cs d ds hc _ _ ih
  exact List.forall_mem_cons.mpr ⟨hc, ih⟩

lemma length_of_digits? (h : digits? cs = some ds) : ds.length = cs.length := by
  refine digits?_induction (motive := fun cs ds => ds.length = cs.length) rfl ?_ cs h
  intro c cs d ds _ _ _ ih
  rw [List.length_cons, List.length_cons, ih]

lemma digits?_append (h : digits? cs = some ds) (h' : digits? cs' = some ds') :
    digits? (cs ++ cs') = some (ds ++ ds') := by
  refine digits?_induction (motive := fun cs ds => digits? (cs ++ cs') = some (ds ++ ds'))
    h' ?_ cs h
  intro c cs d ds hc hd _ ih
  exact digits?_cons_eq_some_iff.mpr ⟨digit?_eq_some_iff.mpr ⟨hc, hd⟩, ih⟩

/-- The number that digits are read as is that of their characters. -/
lemma digitsValue_of_digits? (h : digits? cs = some ds) :
    digitsValue ds = Nat.ofDigitChars 10 cs 0 := by
  have hfold : ∀ k : ℕ,
      ds.foldl (fun n d => 10 * n + d.val) k = Nat.ofDigitChars 10 cs k := by
    refine digits?_induction (motive := fun cs ds => ∀ k : ℕ,
      ds.foldl (fun n d => 10 * n + d.val) k = Nat.ofDigitChars 10 cs k) (fun _ => rfl) ?_ cs h
    intro c cs d ds _ hd _ ih k
    rw [List.foldl_cons, ih, Nat.ofDigitChars_cons, hd]
  exact hfold 0

/-! ## Reading plain numerals -/

lemma ofChars?_eq_some_iff : ofChars? cs = some n ↔
    digits? (integerPart cs) = some n.integer ∧ digits? (fractionPart cs) = some n.fraction ∧
      n.integer ++ n.fraction ≠ [] := by
  rw [ofChars?, integerPart, fractionPart, Option.bind_eq_bind, Option.bind_eq_some_iff]
  constructor
  · rintro ⟨ds, hds, h⟩
    obtain ⟨es, hes, h⟩ := Option.bind_eq_some_iff.mp h
    split at h
    · cases h
    · next hempty =>
      cases h
      exact ⟨hds, hes, by simpa using hempty⟩
  · rintro ⟨hinteger, hfraction, hne⟩
    have hempty : ¬ (n.integer.isEmpty && n.fraction.isEmpty) = true := by simpa using hne
    refine ⟨n.integer, hinteger, ?_⟩
    rw [hfraction, Option.bind_some, if_neg hempty]
    rfl

/-- **Plain numerals** are the texts that are read as numerals. -/
theorem exists_ofChars?_iff : (∃ n, ofChars? cs = some n) ↔ IsPlainNumeral cs := by
  rw [isPlainNumeral_iff, List.forall_mem_append]
  constructor
  · rintro ⟨n, hn⟩
    obtain ⟨hinteger, hfraction, hne⟩ := ofChars?_eq_some_iff.mp hn
    refine ⟨⟨isDigit_of_digits? hinteger, isDigit_of_digits? hfraction⟩, ?_⟩
    rw [← List.length_pos_iff, List.length_append] at hne ⊢
    rw [← length_of_digits? hinteger, ← length_of_digits? hfraction]
    exact hne
  · rintro ⟨⟨hi, hf⟩, hne⟩
    obtain ⟨integer, hinteger⟩ := exists_digits? hi
    obtain ⟨fraction, hfraction⟩ := exists_digits? hf
    refine ⟨⟨integer, fraction⟩, ofChars?_eq_some_iff.mpr ⟨hinteger, hfraction, ?_⟩⟩
    rw [← List.length_pos_iff, List.length_append] at hne ⊢
    rw [length_of_digits? hinteger, length_of_digits? hfraction]
    exact hne

/-- **What a numeral is read as** has the value that its text denotes. -/
theorem value_of_ofChars? (h : ofChars? cs = some n) : n.value = numeralValue cs := by
  obtain ⟨hinteger, hfraction, -⟩ := ofChars?_eq_some_iff.mp h
  have hpoint : ∀ c ∈ fractionPart cs, c ≠ '.' := fun c hc =>
    ne_point_of_isDigit (isDigit_of_digits? hfraction c hc)
  rw [value, ← digitsValue_append, digitsValue_of_digits? (digits?_append hinteger hfraction),
    length_of_digits? hfraction, numeralValue, filter_ne_point hpoint]

end Numeral

/-! ## Values of plain numerals -/

namespace Decimal

variable {text : String} {cs : List Char}

lemma any_isExponentMark_iff : cs.any isExponentMark = true ↔ ∃ c ∈ cs, c = 'e' ∨ c = 'E' := by
  simp only [List.any_eq_true, isExponentMark, Bool.or_eq_true, beq_iff_eq]

/-- Without an exponent mark a text is read as a plain numeral. -/
lemma ofText?_of_plain (h : ∀ c ∈ Text.trim text.toList, c ≠ 'e' ∧ c ≠ 'E') :
    ofText? text = (Numeral.ofChars? (Text.trim text.toList)).bind ofPlain? ∧
      isWholeText? text = (Numeral.ofChars? (Text.trim text.toList)).map Numeral.isWhole := by
  have hmark : ¬ (Text.trim text.toList).any isExponentMark = true := by
    rw [any_isExponentMark_iff]
    rintro ⟨c, hc, hmark⟩
    exact hmark.elim (h c hc).1 (h c hc).2
  simp only [ofText?, isWholeText?, if_neg hmark, and_true]
  rfl

end Decimal

/-! ## A one far behind the point -/

namespace Numeral

open Text

/-- The text of a one behind `k` zeros after the point. -/
def textOneBehind (k : ℕ) : String :=
  String.ofList ('0' :: '.' :: (List.replicate k '0' ++ ['1']))

lemma toList_textOneBehind (k : ℕ) :
    (textOneBehind k).toList = '0' :: '.' :: (List.replicate k '0' ++ ['1']) :=
  String.toList_ofList

lemma mem_textOneBehind {c : Char} {k : ℕ} (h : c ∈ (textOneBehind k).toList) :
    c = '0' ∨ c = '.' ∨ c = '1' := by
  simp only [toList_textOneBehind, List.mem_cons, List.mem_append, List.mem_replicate,
    List.not_mem_nil, or_false] at h
  tauto

/-- It stands without white space. -/
lemma trim_textOneBehind (k : ℕ) : trim (textOneBehind k).toList = (textOneBehind k).toList := by
  refine trim_eq_self fun c hc => ?_
  rcases mem_textOneBehind hc with rfl | rfl | rfl <;> decide

/-- It has no exponent. -/
lemma ne_mark_textOneBehind (k : ℕ) : ∀ c ∈ (textOneBehind k).toList, c ≠ 'e' ∧ c ≠ 'E' := by
  intro c hc
  rcases mem_textOneBehind hc with rfl | rfl | rfl <;> decide

lemma ofChars?_textOneBehind (k : ℕ) :
    ofChars? (textOneBehind k).toList = some ⟨[0], List.replicate k 0 ++ [1]⟩ := by
  have hzeros : digits? (List.replicate k '0') = some (List.replicate k 0) := by
    induction k with
    | zero => rfl
    | succ k ih => exact digits?_cons_eq_some_iff.mpr ⟨rfl, ih⟩
  rw [toList_textOneBehind]
  refine ofChars?_eq_some_iff.mpr ⟨rfl, digits?_append hzeros rfl, ?_⟩
  exact List.cons_ne_nil _ _

lemma numeralValue_textOneBehind (k : ℕ) :
    numeralValue (textOneBehind k).toList = 1 / 10 ^ (k + 1) := by
  rw [← value_of_ofChars? (ofChars?_textOneBehind k), value_oneBehind]

/-- All of its places are significant. -/
lemma isLeast_textOneBehind (k : ℕ) :
    IsLeast (Decimal.places (numeralValue (textOneBehind k).toList)) (k + 1) := by
  rw [← value_of_ofChars? (ofChars?_textOneBehind k), ← significantPlaces_oneBehind]
  exact isLeast_significantPlaces _

end Numeral

namespace Decimal

/-- It is taken for zero if its places fill the count. -/
lemma ofText?_textOneBehind {k : ℕ} (hk : maxScale ≤ k) : ofText? (Numeral.textOneBehind k) =
    if 2 ^ 32 ∣ k + 1 then some ⟨false, 0, maxScale, by decide, Nat.le_refl _⟩ else none := by
  have hmark := Numeral.ne_mark_textOneBehind k
  rw [← Numeral.trim_textOneBehind] at hmark
  rw [(ofText?_of_plain hmark).1, Numeral.trim_textOneBehind, Numeral.ofChars?_textOneBehind]
  exact ofPlain?_oneBehind hk

end Decimal

/-! ## Numbers -/

namespace Expr

open Decimal Text

section Values

variable {text : String} {x : Decimal} {k : ℕ}

lemma value?_number_eq_some_iff (h : ∀ c ∈ text.toList, c ≠ 'e' ∧ c ≠ 'E') :
    (number text).value? = some x ↔
      ∃ n, Numeral.ofChars? (trim text.toList) = some n ∧ ofPlain? n = some x := by
  have hread : (number text).value? = (Numeral.ofChars? (trim text.toList)).bind ofPlain? :=
    (ofText?_of_plain fun c hc => h c (mem_of_mem_trim hc)).1
  rw [hread, Option.bind_eq_some_iff]

/-- A plain numeral has a value if some decimal has the same. -/
lemma exists_value?_number (h : ∀ c ∈ text.toList, c ≠ 'e' ∧ c ≠ 'E')
    (hplain : IsPlainNumeral (trim text.toList))
    (hholds : Holds (numeralValue (trim text.toList))) :
    (number text).value?.isSome = true := by
  obtain ⟨n, hn⟩ := Numeral.exists_ofChars?_iff.mpr hplain
  rw [← Numeral.value_of_ofChars? hn] at hholds
  obtain ⟨x, hx⟩ := exists_ofPlain?_of_holds hholds
  rw [Option.isSome_iff_exists]
  exact ⟨x, (value?_number_eq_some_iff h).mpr ⟨n, hn, hx⟩⟩

/-- What a numeral with `k` significant places is read as. -/
lemma eq_of_value?_number (h : ∀ c ∈ text.toList, c ≠ 'e' ∧ c ≠ 'E')
    (hk : IsLeast (places (numeralValue (trim text.toList))) k)
    (hx : (number text).value? = some x) :
    IsPlainNumeral (trim text.toList) ∧ x.toRat = x.magnitude ∧
      Rounds (numeralValue (trim text.toList)) x ∧ x.reducedScale = k % 2 ^ 32 := by
  obtain ⟨n, hn, hx⟩ := (value?_number_eq_some_iff h).mp hx
  obtain ⟨hrounded, hscale⟩ := ofPlain?_eq_some_iff.mp hx
  obtain ⟨hsign, hrounds⟩ := rounds_of_rounded? hrounded
  have hplaces := n.isLeast_significantPlaces
  rw [Numeral.value_of_ofChars? hn] at hrounds hplaces
  rw [← hk.unique hplaces] at hscale
  exact ⟨Numeral.exists_ofChars?_iff.mp ⟨n, hn⟩, toRat_of_unsigned hsign, hrounds, hscale⟩

/-- It is the value of the numeral exactly if all places are counted. -/
lemma toRat_eq_iff (h : ∀ c ∈ text.toList, c ≠ 'e' ∧ c ≠ 'E')
    (hk : IsLeast (places (numeralValue (trim text.toList))) k)
    (hx : (number text).value? = some x) :
    x.toRat = numeralValue (trim text.toList) ↔ k < 2 ^ 32 := by
  obtain ⟨-, hvalue, hrounds, hscale⟩ := eq_of_value?_number h hk hx
  rw [hvalue]
  constructor
  · intro heq
    exact lt_of_holds hk (heq ▸ holds_magnitude x)
  · intro hlt
    rw [Nat.mod_eq_of_lt hlt] at hscale
    exact hrounds.eq_of_mem_places (mem_places_of_le hk.1 (hscale ▸ reducedScale_le x))

/-- A one behind the point is lost if its places fill the count. -/
lemma value?_textOneBehind (hk : maxScale ≤ k) (hcount : 2 ^ 32 ∣ k + 1) :
    (number (Numeral.textOneBehind k)).value? =
      some ⟨false, 0, maxScale, by decide, Nat.le_refl _⟩ :=
  (ofText?_textOneBehind hk).trans (if_pos hcount)

end Values

/-- **Plain numerals are read exactly or not at all**, and they are read whenever some decimal has
their value, as long as their significant places are few enough for a word of 32 bits to count them.
With more of them no decimal has their value, and what they are read as, if anything, is a decimal
next to it, with as many places as are left over in the count. -/
theorem value?_number_plain (text : String) (h : ∀ c ∈ text.toList, c ≠ 'e' ∧ c ≠ 'E') :
    ∃ k, IsLeast (places (numeralValue (trim text.toList))) k ∧
      (k < 2 ^ 32 →
        ((number text).value?.isSome = true ↔
          IsPlainNumeral (trim text.toList) ∧ Holds (numeralValue (trim text.toList))) ∧
        ∀ x, (number text).value? = some x → x.toRat = numeralValue (trim text.toList)) ∧
      (2 ^ 32 ≤ k →
        ¬ Holds (numeralValue (trim text.toList)) ∧
        ∀ x, (number text).value? = some x →
          IsPlainNumeral (trim text.toList) ∧ x.toRat ≠ numeralValue (trim text.toList) ∧
            |x.toRat - numeralValue (trim text.toList)| ≤ 1 / 2 / 10 ^ x.scale ∧
            IsLeast (places x.toRat) (k % 2 ^ 32)) := by
  obtain ⟨k, hk⟩ := exists_isLeast_places_numeralValue (trim text.toList)
  refine ⟨k, hk, fun hlt => ⟨⟨fun hsome => ?_, ?_⟩, ?_⟩, fun hle => ⟨fun hholds => ?_, ?_⟩⟩
  · obtain ⟨x, hx⟩ := Option.isSome_iff_exists.mp hsome
    obtain ⟨hplain, hvalue, -⟩ := eq_of_value?_number h hk hx
    rw [← (toRat_eq_iff h hk hx).mpr hlt, hvalue]
    exact ⟨hplain, holds_magnitude x⟩
  · rintro ⟨hplain, hholds⟩
    exact exists_value?_number h hplain hholds
  · intro x hx
    exact (toRat_eq_iff h hk hx).mpr hlt
  · exact Nat.not_lt.mpr hle (lt_of_holds hk hholds)
  · intro x hx
    obtain ⟨hplain, hvalue, hrounds, hscale⟩ := eq_of_value?_number h hk hx
    refine ⟨hplain, fun heq => Nat.not_lt.mpr hle ((toRat_eq_iff h hk hx).mp heq), ?_, ?_⟩
    · exact hvalue ▸ hrounds.near
    · rw [hvalue, ← hscale]
      exact isLeast_reducedScale x

/-- A one in the last place that is counted is lost, and what is read is zero. -/
theorem value?_number_plain_lost :
    let text := Numeral.textOneBehind (2 ^ 32 - 1)
    let x : Decimal := ⟨false, 0, maxScale, by decide, Nat.le_refl _⟩
    (∀ c ∈ text.toList, c ≠ 'e' ∧ c ≠ 'E') ∧ IsPlainNumeral (trim text.toList) ∧
      numeralValue (trim text.toList) = 1 / 10 ^ (2 ^ 32) ∧ (number text).value? = some x ∧
      x.toRat = 0 ∧ x.toRat ≠ numeralValue (trim text.toList) ∧
      ¬ Holds (numeralValue (trim text.toList)) := by
  have hcount : 2 ^ 32 - 1 + 1 = 2 ^ 32 := rfl
  have hplaces : maxScale ≤ 2 ^ 32 - 1 := by decide
  -- nothing is evaluated at this number of zeros
  generalize 2 ^ 32 - 1 = zeros at hcount hplaces ⊢
  intro text x
  have hmark := Numeral.ne_mark_textOneBehind zeros
  have hvalue : (number text).value? = some x :=
    value?_textOneBehind hplaces (dvd_of_eq hcount.symm)
  have hleast := Numeral.isLeast_textOneBehind zeros
  obtain ⟨k, hk, -, hwrapped⟩ := value?_number_plain text hmark
  rw [Numeral.trim_textOneBehind] at hk hwrapped ⊢
  obtain ⟨hholds, hread⟩ := hwrapped (by rw [hk.unique hleast, hcount])
  obtain ⟨hplain, hne, -⟩ := hread x hvalue
  refine ⟨hmark, hplain, ?_, hvalue, ?_, hne, hholds⟩
  · rw [Numeral.numeralValue_textOneBehind, hcount]
  · rw [toRat_of_unsigned rfl, magnitude]
    norm_num

/-- The largest decimal is read with white space around it, and with zeros in front and behind. -/
example : (number " 007.9228162514264337593543950335000\t").value? =
    some ⟨false, 79228162514264337593543950335, 28, by decide, by decide⟩ := by
  decide +kernel

end Expr

end MathExpr
