import Mathlib.Data.Int.Order.Basic
import MathExpr.Proofs.Printing.Derivation

/-!
# Bars that cannot be read

A bar closes an absolute value if an operand is complete in front of it, and opens one if not.  So
a count of the open bars of a phrase, opened and closed by this rule, ends where it began.  Behind a
factor the bar that was printed to open an absolute value closes one instead, and so does its
partner: the count falls, and nothing makes up for it.

* `Token.countBar`, `Token.countBars` — the count.
* `Derives.countBars` — it is the same before and after a phrase.
* `Falls` — it does not rise over some tokens, and under a condition it falls.
* `Expr.WellFormed.falls` — it falls over printed text with a bar behind a factor.
* **`Expr.WellFormed.everywhere_bars_of_parse`** — so printed text that is read has none.
-/

namespace MathExpr

namespace Token

/-- The count of open bars after one more token, with whether an operand is complete there. -/
def countBar : Bool × ℤ → Token → Bool × ℤ
  | (complete, bars), .bar => (complete, if complete then bars - 1 else bars + 1)
  | (_, bars), .number _ | (_, bars), .word _ | (_, bars), .rightParen | (_, bars), .bang =>
    (true, bars)
  | (_, bars), _ => (false, bars)

/-- The count of open bars after tokens. -/
def countBars (state : Bool × ℤ) (ts : List Token) : Bool × ℤ :=
  ts.foldl countBar state

variable {s : Bool} {k : ℤ} {t : Token} {ts us : List Token}

@[simp] lemma countBars_nil (state : Bool × ℤ) : countBars state [] = state := rfl

@[simp] lemma countBars_cons (state : Bool × ℤ) (t : Token) (ts : List Token) :
    countBars state (t :: ts) = countBars (countBar state t) ts := rfl

@[simp] lemma countBars_append (state : Bool × ℤ) (ts us : List Token) :
    countBars state (ts ++ us) = countBars (countBars state ts) us :=
  List.foldl_append

/-- A word counts as its letters. -/
lemma countBars_spellOut : ∀ (ts : List Token) (state : Bool × ℤ),
    countBars state (spellOut ts) = countBars state ts
  | [], _ => rfl
  | t :: ts, (s, k) => by
      by_cases ht : ∃ letters, t = .word letters
      · obtain ⟨letters, rfl⟩ := ht
        have hletters : ∀ letters : List Char, letters ≠ [] → ∀ s,
            countBars (s, k) (letters.map fun c => .word [c]) = (true, k) := by
          intro letters hne
          induction letters with
          | nil => exact absurd rfl hne
          | cons c letters ih =>
              intro s
              cases letters with
              | nil => rfl
              | cons d letters => exact ih (by simp) true
        rw [spellOut]
        split
        · exact countBars_spellOut ts _
        · next hname =>
          rw [countBars_append, hletters letters (fun hnil => hname (.inl hnil)),
            countBars_spellOut ts]
          rfl
      · rw [spellOut_cons fun letters hl => ht ⟨letters, hl⟩]
        exact countBars_spellOut ts _

/-- Stretches of tokens that each keep the count keep it together. -/
lemma countBars_flatMap {α : Type} {f : α → List Token} : ∀ (as : List α),
    (∀ a ∈ as, countBars (true, k) (f a) = (true, k)) →
    countBars (true, k) (as.flatMap f) = (true, k)
  | [], _ => rfl
  | a :: as, h => by
      obtain ⟨ha, has⟩ := List.forall_mem_cons.mp h
      rw [List.flatMap_cons, countBars_append, ha, countBars_flatMap as has]

/-- A factor that does not begin with a bar counts the same behind another one. -/
lemma countBars_of_startsOperand (h : Phrase.startsOperand ts = true) (s : Bool) (k : ℤ) :
    countBars (s, k) ts = countBars (false, k) ts := by
  cases ts with
  | nil => cases h
  | cons t ts => cases t <;> first | rfl | cases h

end Token

open Token

/-! ## Phrases -/

namespace Derives

variable {n : Category} {us : List Token} {e : Expr}

/-- The count is the same before and after a phrase. -/
theorem countBars (h : Derives n us e) : ∀ k, countBars (false, k) us = (true, k) := by
  induction h with
  | number | letter => exact fun _ => rfl
  | subscript _ _ ih | negExponent _ ih | posExponent _ ih | neg _ ih | pos _ ih => exact ih
  | base _ ih | exponent _ ih | unsigned _ ih => exact ih
  | call c d letters args _ ih =>
      intro k
      cases args with
      | nil => rfl
      | cons arg args =>
          obtain ⟨harg, hargs⟩ := List.forall_mem_cons.mp ih
          have hothers := countBars_flatMap (f := fun us => .comma :: us) (args.map Part.tokens)
            (List.forall_mem_map.mpr fun a ha => hargs a ha k)
          have hlist : Token.countBars (false, k)
              (separate .comma ((arg :: args).map Part.tokens)) = (true, k) := by
            rw [List.map_cons, separate, countBars_append, harg k, hothers]
          rw [countBars_append, countBars_cons]
          exact congrArg (countBar · .rightParen) hlist
  | parens _ ih =>
      intro k
      rw [countBars_append, countBars_cons]
      exact congrArg (countBar · .rightParen) (ih k)
  | bars _ ih =>
      intro k
      have hbody := congrArg (countBar · .bar) (ih (k + 1))
      rw [countBars_append, countBars_cons]
      exact hbody.trans (by simp [countBar])
  | factorial m _ ih =>
      intro k
      rw [countBars_append, ih]
      induction m with
      | zero => rfl
      | succ m ihm => exact ihm
  | power _ _ ihb ihx =>
      intro k
      rw [countBars_append, ihb]
      exact ihx k
  | juxtaposition others _ _ hstarts ih ihs =>
      intro k
      rw [countBars_append, ih]
      exact countBars_flatMap others fun p hp => by
        rw [countBars_of_startsOperand (hstarts p hp), ihs p hp]
  | product links _ _ ih ihs =>
      intro k
      rw [countBars_append, ih]
      refine countBars_flatMap links fun l hl => ?_
      rw [countBars_cons]
      cases l.1 <;> exact ihs l hl k
  | sum links _ _ ih ihs =>
      intro k
      rw [countBars_append, ih]
      refine countBars_flatMap links fun l hl => ?_
      rw [countBars_cons]
      cases l.1 <;> exact ihs l hl k
  | relation links _ _ ih ihs =>
      intro k
      rw [countBars_append, ih]
      exact countBars_flatMap links fun l hl => ihs l hl k

end Derives

/-! ## Printed text -/

/-- Over the tokens `us`, an operand at their end, the count does not rise, and it falls if `p`
holds, which may depend on whether an operand is complete in front of them. -/
def Falls (us : List Token) (p : Bool → Prop) : Prop :=
  ∀ (s : Bool) (k : ℤ), ∃ j ≤ k, countBars (s, k) us = (true, j) ∧ (p s → j < k)

namespace Falls

variable {us vs : List Token} {p q : Bool → Prop} {t : Token}

lemma mono (h : Falls us p) (hqp : ∀ s, q s → p s) : Falls us q := by
  intro s k
  obtain ⟨j, hle, hcount, hlt⟩ := h s k
  exact ⟨j, hle, hcount, fun hq => hlt (hqp s hq)⟩

lemma append (h : Falls us p) (h' : Falls vs q) : Falls (us ++ vs) fun s => p s ∨ q true := by
  intro s k
  obtain ⟨j, hle, hcount, hlt⟩ := h s k
  obtain ⟨i, hle', hcount', hlt'⟩ := h' true j
  refine ⟨i, Int.le_trans hle' hle, by rw [countBars_append, hcount, hcount'], ?_⟩
  rintro (hp | hq)
  · exact Int.lt_of_le_of_lt hle' (hlt hp)
  · exact Int.lt_of_lt_of_le (hlt' hq) hle

/-- A sign, or a parenthesis that opens: no operand is complete behind it. -/
lemma cons (ht : ∀ state, countBar state t = (false, state.2)) (h : Falls us p) :
    Falls (t :: us) fun _ => p false := by
  intro s k
  obtain ⟨j, hle, hcount, hlt⟩ := h false k
  exact ⟨j, hle, by rw [countBars_cons, ht, hcount], hlt⟩

/-- An operand of a single token, or a sign behind one. -/
lemma operand (ht : ∀ state, countBar state t = (true, state.2)) : Falls [t] fun _ => False := by
  intro s k
  exact ⟨k, le_rfl, by rw [countBars_cons, ht, countBars_nil], False.elim⟩

/-- Behind an operand the bars of an absolute value both close one. -/
lemma bars (h : Falls us p) : Falls (.bar :: us ++ [.bar]) fun s => s = true ∨ p s := by
  intro s k
  cases s with
  | true =>
      obtain ⟨j, hle, hcount, hlt⟩ := h true (k - 1)
      refine ⟨j - 1, by omega, ?_, fun _ => by omega⟩
      rw [countBars_append, countBars_cons]
      exact congrArg (countBar · .bar) hcount
  | false =>
      obtain ⟨j, hle, hcount, hlt⟩ := h false (k + 1)
      refine ⟨j - 1, by omega, ?_, ?_⟩
      · rw [countBars_append, countBars_cons]
        exact congrArg (countBar · .bar) hcount
      · rintro (hs | hp)
        · cases hs
        · have := hlt hp
          omega

/-- Further stretches of tokens add their own falls, each behind an operand. -/
lemma flatMap {α : Type} {f : α → List Token} {q : α → Bool → Prop} : ∀ (as : List α)
    {us : List Token} {p : Bool → Prop}, Falls us p → (∀ a ∈ as, Falls (f a) (q a)) →
    Falls (us ++ as.flatMap f) fun s => p s ∨ ∃ a ∈ as, q a true
  | [], _, _, h, _ => by simpa using h
  | a :: as, _, _, h, h' => by
      obtain ⟨ha, has⟩ := List.forall_mem_cons.mp h'
      have := flatMap as (h.append ha) has
      rw [List.append_assoc] at this
      refine this.mono fun s => ?_
      simp only [List.mem_cons, exists_eq_or_imp, or_assoc]
      exact id

end Falls

namespace Expr

/-- Somewhere in an expression a bar is behind a factor. -/
def MeetsBar (e : Expr) : Prop :=
  e.Somewhere juxtaposesBar

/-- What begins with a bar is a factor. -/
lemma not_binding_lt_of_opensWithBar {e : Expr} (h : e.opensWithBar = true) :
    ¬ e.binding < .power := by
  unfold opensWithBar at h
  split at h
  · exact (show ¬ Binding.whole < .power by decide)
  · exact (show ¬ Binding.factorial < .power by decide)
  · exact (show ¬ Binding.power < .power by decide)
  · cases h

/-- Where the count falls over the tokens of an expression: behind an operand if a bar opens the
expression, and anywhere if a bar is behind a factor in it. -/
def FallsAt (e : Expr) (s : Bool) : Prop :=
  s = true ∧ e.opensWithBar = true ∨ e.MeetsBar

/-- Most applications neither begin with a bar nor have factors side by side. -/
lemma FallsAt.apply {op : Operator} {args : List Expr} {marks : Marks} {s : Bool}
    (hopens : (apply op args marks).opensWithBar = false)
    (hroot : (apply op args marks).juxtaposesBar = false)
    (h : (apply op args marks).FallsAt s) : ∃ a ∈ args, a.MeetsBar := by
  rcases h with ⟨_, hbar⟩ | hmeets
  · rw [hopens] at hbar
    cases hbar
  · rcases somewhere_apply.mp hmeets with hbar | hargs
    · rw [hroot] at hbar
      cases hbar
    · exact hargs

/-- A sign in front of a term puts no bar behind a factor. -/
lemma MeetsBar.of_term {l : TermSign × Expr} (h : (l.1.term l.2).MeetsBar) : l.2.MeetsBar := by
  obtain ⟨sign, e⟩ := l
  cases sign with
  | plus => exact h
  | minus =>
      rcases somewhere_apply.mp h with hbar | ⟨a, ha, hmeets⟩
      · cases hbar
      · rwa [List.mem_singleton.mp ha] at hmeets

section Places

variable {e : Expr} {args : List Expr}

/-- In parentheses a bar opens nothing but what is in them. -/
lemma falls_tokensIn (h : Falls e.tokens e.FallsAt) (least : Binding) :
    Falls (tokensIn least e) fun s =>
      s = true ∧ (!(e.binding < least) && e.opensWithBar) = true ∨ e.MeetsBar := by
  unfold tokensIn enclose
  split
  · next hbinding =>
    refine ((h.cons (t := .leftParen) fun _ => rfl).append (.operand fun _ => rfl)).mono fun s => ?_
    simp only [hbinding]
    rintro (⟨_, hbar⟩ | hmeets)
    · cases hbar
    · exact .inl (.inr hmeets)
  · next hbinding =>
    refine h.mono fun s => ?_
    simp only [hbinding]
    exact id

/-- What an expression contributes at any place. -/
lemma falls_tokensIn' (h : Falls e.tokens e.FallsAt) (least : Binding) :
    Falls (tokensIn least e) fun _ => e.MeetsBar :=
  (falls_tokensIn h least).mono fun _ => .inr

lemma falls_separate {t : Token} (ht : ∀ state, countBar state t = (false, state.2))
    (hne : args ≠ []) (h : ∀ a ∈ args, Falls a.tokens a.FallsAt) (least : Binding) :
    Falls (separate t (args.map (tokensIn least))) fun _ => ∃ a ∈ args, a.MeetsBar := by
  match args, hne with
  | a :: args, _ =>
      obtain ⟨ha, hargs⟩ := List.forall_mem_cons.mp h
      have := (falls_tokensIn' ha least).flatMap args fun b hb =>
        (falls_tokensIn' (hargs b hb) least).cons ht
      rw [List.map_cons, separate, List.flatMap_map]
      refine this.mono fun s => ?_
      simp only [List.mem_cons, exists_eq_or_imp]
      exact id

lemma falls_arguments (h : ∀ a ∈ args, Falls a.tokens a.FallsAt) :
    Falls (.leftParen :: separate .comma (args.map (tokensIn .relation)) ++ [.rightParen])
      fun _ => ∃ a ∈ args, a.MeetsBar := by
  cases args with
  | nil =>
      intro s k
      exact ⟨k, le_rfl, rfl, by simp⟩
  | cons a args =>
      have := falls_separate (t := .comma) (fun _ => rfl) (by simp) h .relation
      exact ((this.cons (t := .leftParen) fun _ => rfl).append (.operand fun _ => rfl)).mono
        fun _ => .inl

end Places

namespace WellFormed

variable {e : Expr}

/-- Over printed text the count does not rise, and falls where a bar is behind a factor. -/
theorem falls (h : WellFormed e) : Falls e.tokens e.FallsAt := by
  induction h with
  | number | letter =>
      refine Falls.mono (.operand fun _ => rfl) fun s => ?_
      rintro (⟨_, hbar⟩ | hmeets)
      · cases hbar
      · obtain ⟨d, hd, hbar⟩ := hmeets
        rw [List.mem_singleton.mp hd] at hbar
        cases hbar
  | subscript _ _ ih =>
      have := (falls_tokensIn' ih .whole).cons (t := .underscore) fun _ => rfl
      refine (Falls.append (.operand fun _ => rfl) this).mono fun s => ?_
      rw [FallsAt, MeetsBar, somewhere_subscript]
      rintro (⟨_, hbar⟩ | hbar | hmeets)
      · cases hbar
      · cases hbar
      · exact .inr hmeets
  | parens _ ih =>
      refine ((ih.cons (t := .leftParen) fun _ => rfl).append (.operand fun _ => rfl)).mono
        fun s => ?_
      rw [FallsAt, MeetsBar, somewhere_parens]
      rintro (⟨_, hbar⟩ | hbar | hmeets)
      · cases hbar
      · cases hbar
      · exact .inl (.inr hmeets)
  | call _ _ _ ih =>
      rw [tokens_function]
      refine (Falls.append (.operand fun _ => rfl) (falls_arguments ih)).mono fun s => ?_
      rw [FallsAt, MeetsBar, somewhere_function]
      rintro (⟨_, hbar⟩ | hbar | hmeets)
      · cases hbar
      · cases hbar
      · exact .inr hmeets
  | root _ ih =>
      rw [tokens_root]
      refine (Falls.append (.operand fun _ => rfl) (falls_arguments ih)).mono fun s => ?_
      intro hfalls
      exact .inr (hfalls.apply rfl rfl)
  | @sum first links hne _ hlinks ih ihs =>
      rw [tokens_add, termsTokens_links hlinks]
      have hterms : ∀ l ∈ links, Falls (l.1.token :: tokensIn .product l.2) fun _ => l.2.MeetsBar :=
        fun l hl => (falls_tokensIn' (ihs l hl) .product).cons fun _ => by cases l.1 <;> rfl
      refine ((falls_tokensIn' ih .product).flatMap links hterms).mono fun s hfalls => ?_
      obtain ⟨a, ha, hmeets⟩ := hfalls.apply rfl rfl
      rcases List.mem_cons.mp ha with rfl | ha
      · exact .inl hmeets
      · obtain ⟨l, hl, rfl⟩ := List.mem_map.mp ha
        exact .inr ⟨l, hl, hmeets.of_term⟩
  | @product args hlen _ ih =>
      have hne : args ≠ [] := by
        rintro rfl
        simp at hlen
      rw [tokens_mul]
      refine (falls_separate (fun _ => rfl) hne ih .sign).mono fun s hfalls => ?_
      exact hfalls.apply rfl (by cases args <;> rfl)
  | @juxtaposition args hlen _ ih =>
      match args, hlen with
      | a :: later, _ =>
          obtain ⟨ha, hlater⟩ := List.forall_mem_cons.mp ih
          rw [tokens_juxtapose, List.flatMap_cons]
          refine ((falls_tokensIn' ha .power).flatMap later fun b hb =>
            falls_tokensIn (hlater b hb) .power).mono fun s hfalls => ?_
          rcases hfalls with ⟨_, hbar⟩ | hmeets
          · cases hbar
          rcases somewhere_apply.mp hmeets with hbar | ⟨b, hb, hinner⟩
          -- the bar of a later factor has a complete operand in front of it
          · obtain ⟨b, hb, hopens⟩ := List.any_eq_true.mp hbar
            have hplace := not_binding_lt_of_opensWithBar hopens
            exact .inr ⟨b, hb, .inl ⟨rfl, by simp [hplace, hopens]⟩⟩
          · rcases List.mem_cons.mp hb with rfl | hb
            · exact .inl hinner
            · exact .inr ⟨b, hb, .inr hinner⟩
  | quotient _ _ iha ihb =>
      rw [tokens_div]
      have hdenominator := (falls_tokensIn' ihb .sign).cons (t := .slash) fun _ => rfl
      refine ((falls_tokensIn' iha .product).append hdenominator).mono fun s hfalls => ?_
      simpa using hfalls.apply rfl rfl
  | @power b x _ _ ihb ihx =>
      rw [tokens_pow]
      have hexponent := (falls_tokensIn' ihx x.leastAsExponent).cons (t := .caret) fun _ => rfl
      refine ((falls_tokensIn ihb .factorial).append hexponent).mono fun s hfalls => ?_
      rcases hfalls with hbar | hmeets
      · exact .inl (.inl hbar)
      rcases somewhere_apply.mp hmeets with hbar | ⟨a, ha, hinner⟩
      · cases hbar
      · rcases List.mem_cons.mp ha with rfl | ha
        · exact .inl (.inr hinner)
        · rw [List.mem_singleton.mp ha] at hinner
          exact .inr hinner
  | neg _ ih =>
      rw [tokens_neg, List.append_nil]
      refine ((falls_tokensIn' ih .sign).cons fun _ => rfl).mono fun s hfalls => ?_
      simpa using hfalls.apply rfl rfl
  | pos _ ih =>
      rw [tokens_pos, List.append_nil]
      refine ((falls_tokensIn' ih .sign).cons fun _ => rfl).mono fun s hfalls => ?_
      simpa using hfalls.apply rfl rfl
  | abs _ ih =>
      rw [tokens_abs, List.append_nil]
      -- between the bars of an absolute value no operand is complete at first
      refine (falls_tokensIn' ih .relation).bars.mono fun s hfalls => ?_
      rcases hfalls with ⟨hs, _⟩ | hmeets
      · exact .inl hs
      rcases somewhere_apply.mp hmeets with hbar | ⟨a, ha, hinner⟩
      · cases hbar
      · rw [List.mem_singleton.mp ha] at hinner
        exact .inr hinner
  | fact _ ih =>
      rw [tokens_fact, List.append_nil]
      refine ((falls_tokensIn ih .factorial).append (.operand fun _ => rfl)).mono fun s hfalls => ?_
      rcases hfalls with hbar | hmeets
      · exact .inl (.inl hbar)
      rcases somewhere_apply.mp hmeets with hbar | ⟨a, ha, hinner⟩
      · cases hbar
      · rw [List.mem_singleton.mp ha] at hinner
        exact .inl (.inr hinner)
  | @relation op symbol args hop hlen _ ih =>
      have hne : args ≠ [] := by
        rintro rfl
        simp at hlen
      rw [tokens_relate hop]
      refine (falls_separate (fun _ => rfl) hne ih .sum).mono fun s hfalls => ?_
      exact hfalls.apply (by cases op <;> cases hop <;> rfl) (by cases op <;> cases hop <;> rfl)

/-- **Printed text that is read has no bar behind a factor.** -/
theorem everywhere_bars_of_parse (h : WellFormed e) {u : Expr} (hu : parse (e.print {}) = .ok u) :
    e.Everywhere fun d => d.juxtaposesBar = false := by
  by_contra hmeets
  have hkeeps := (h.parse_print_iff.mp hu).countBars 0
  obtain ⟨j, _, hcount, hlt⟩ := h.falls false 0
  have hfalls := hlt (.inr (not_everywhere_iff.mp hmeets))
  rw [countBars_spellOut, hcount, Prod.mk.injEq] at hkeeps
  omega

end WellFormed

end Expr

end MathExpr
