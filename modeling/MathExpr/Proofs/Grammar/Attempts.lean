import MathExpr.Proofs.Grammar.Completeness

/-!
# Attempts to read

A reader may be asked again and again, also when an attempt failed or when it stands beyond the end
of its tokens, and its tokens may be any, also words without letters.  Each attempt has an answer,
since reading is a function of the list of tokens ahead, and by the same reason it cannot look at a
place where there is no token.  What an attempt does to the reader is the same in all cases: reading
only ever takes the first of the tokens ahead, or the first letter of a word, leaving the others.

* `Takes` — tokens and letters are taken from the front of a list.
* **`Phrase.takes_read`** — reading does nothing else, whether it succeeds or fails.
* `Takes.length_eq`, `Takes.getElem?_eq` — what becomes of the number of tokens and of each of them.
* `Reader.next`, `Reader.Continues` — the reader after an attempt, and what attempts can make of it.
* **`Reader.successive_attempts`** — any number of attempts, one after the other.
-/

namespace MathExpr

/-! ## Taking tokens and letters -/

/-- `Takes ts trail rest`: tokens and letters are taken from the front of `ts` until `rest` is left,
and `trail` is left behind.  A word has its last letter left behind in its place. -/
inductive Takes : (ts trail rest : List Token) → Prop
  | nothing (ts : List Token) : Takes ts [] ts
  | token (t : Token) {ts trail rest : List Token} : Takes ts trail rest →
      Takes (t :: ts) (t :: trail) rest
  | letter (c d : Char) (letters : List Char) {ts trail rest : List Token} :
      Takes (.word (d :: letters) :: ts) trail rest →
      Takes (.word (c :: d :: letters) :: ts) trail rest

/-- The token `u` is what is left of the word `t` when some of its letters, but not all, have been
taken from its front. -/
def Token.Shortens (t u : Token) : Prop :=
  ∃ lost letters, lost ≠ [] ∧ letters ≠ [] ∧ t = .word (lost ++ letters) ∧ u = .word letters

namespace Token.Shortens

variable {t u v : Token}

lemma letter (c d : Char) (letters : List Char) :
    Shortens (.word (c :: d :: letters)) (.word (d :: letters)) :=
  ⟨[c], d :: letters, by simp, by simp, rfl, rfl⟩

lemma trans (h : t.Shortens u) (h' : u.Shortens v) : t.Shortens v := by
  obtain ⟨lost, letters, hlost, _, rfl, rfl⟩ := h
  obtain ⟨lost', letters', _, hletters', hu, rfl⟩ := h'
  refine ⟨lost ++ lost', letters', by simp [hlost], hletters', ?_, rfl⟩
  rw [Token.word.injEq] at hu
  rw [hu, List.append_assoc]

end Token.Shortens

namespace Takes

variable {ts us vs trail trail' rest : List Token}

lemma trans (h : Takes ts trail us) (h' : Takes us trail' rest) :
    Takes ts (trail ++ trail') rest := by
  induction h with
  | nothing ts => exact h'
  | token t _ ih => exact .token t (ih h')
  | letter c d letters _ ih => exact .letter c d letters (ih h')

/-- The tokens left behind and those not reached are as many as there were. -/
lemma length_eq (h : Takes ts trail rest) : trail.length + rest.length = ts.length := by
  induction h with
  | nothing ts => simp
  | token t _ ih =>
      simp only [List.length_cons]
      omega
  | letter c d letters _ ih => simpa using ih

/-- Each token is still there, or is a word in front of the tokens not reached or the first of
these, and has lost some of its letters. -/
lemma getElem?_eq (h : Takes ts trail rest) : ∀ (i : ℕ) (t : Token), ts[i]? = some t →
    (trail ++ rest)[i]? = some t ∨
      i ≤ trail.length ∧ ∃ u, (trail ++ rest)[i]? = some u ∧ t.Shortens u := by
  induction h with
  | nothing ts =>
      intro i t ht
      exact .inl ht
  | token s _ ih =>
      intro i t ht
      cases i with
      | zero => exact .inl ht
      | succ i =>
          rcases ih i t ht with hsame | ⟨hi, hshort⟩
          · exact .inl hsame
          · exact .inr ⟨Nat.succ_le_succ hi, hshort⟩
  | @letter c d letters ts trail rest _ ih =>
      intro i t ht
      cases i with
      | succ i => exact ih (i + 1) t ht
      | zero =>
          -- the word has lost its first letter, and perhaps more after that
          right
          refine ⟨Nat.zero_le _, ?_⟩
          obtain rfl : Token.word (c :: d :: letters) = t := by simpa using ht
          have hfirst := Token.Shortens.letter c d letters
          rcases ih 0 (.word (d :: letters)) rfl with hsame | ⟨_, u, hu, hshort⟩
          · exact ⟨_, hsame, hfirst⟩
          · exact ⟨u, hu, hfirst.trans hshort⟩

end Takes

/-! ## Reading takes tokens and letters -/

/-- The outcome comes from taking tokens and letters of `ts`. -/
def Outcome.TakenFrom (o : Outcome) (ts : List Token) : Prop :=
  Takes ts o.trail o.rest

namespace Outcome.TakenFrom

variable {ts : List Token} {o : Outcome}

lemma stop (e : Expr) (ts : List Token) : (Outcome.stop e ts).TakenFrom ts :=
  .nothing ts

lemma fail (error : ReadError) (ts : List Token) : (Outcome.fail error ts).TakenFrom ts :=
  .nothing ts

lemma after (h : o.TakenFrom ts) (t : Token) : (o.after [t]).TakenFrom (t :: ts) :=
  .token t h

lemma map (h : o.TakenFrom ts) (f : Expr → Expr) : (o.map f).TakenFrom ts := h

/-- Reading on after a success goes on with the tokens not reached. -/
lemma andThen {next : Expr → List Token → Outcome} (h : o.TakenFrom ts)
    (hnext : ∀ e us, o.Yields e us → (next e us).TakenFrom us) : (o.andThen next).TakenFrom ts := by
  unfold Outcome.andThen
  cases ho : o.result with
  | error error => exact h
  | ok e => exact Takes.trans h (hnext e o.rest ⟨ho, rfl⟩)

lemma close (token : Token) (e : Expr) (ts : List Token) :
    (Outcome.close token e ts).TakenFrom ts := by
  cases ts with
  | nil => exact .nothing []
  | cons t ts =>
      rw [Outcome.close]
      split
      · next heq => exact heq ▸ (stop e ts).after t
      · exact fail _ _

end Outcome.TakenFrom

namespace Phrase

open Token Outcome.TakenFrom

/-- **Reading takes tokens and letters**, and does nothing else to the tokens it is given.  The
recursion is that of the reader: what a phrase leaves weighs less, and its companion goes on
there. -/
theorem takes_read : ∀ (p : Phrase) (ts : List Token), (p.read ts).TakenFrom ts
  | .relation, ts => by
      rw [read_relation]
      refine (takes_read .sum ts).andThen fun e us hyields => ?_
      have hlt := weigh_lt_of_yields hyields
      exact takes_read (.relationRest (.single e)) us
  | .relationRest chain, ts => by
      by_cases hts : ∃ symbol us, ts = .relation symbol :: us
      · obtain ⟨symbol, us, hts⟩ := hts
        rw [hts, read_relationRest_relation]
        refine .after ((takes_read .sum us).andThen fun e vs hyields => ?_) _
        have hlt := weigh_lt_of_yields hyields
        exact takes_read (.relationRest (chain.extend symbol e)) vs
      · rw [read_relationRest_stop chain fun symbol us hus => hts ⟨symbol, us, hus⟩]
        exact stop _ ts
  | .sum, ts => by
      rw [read_sum]
      refine (takes_read .product ts).andThen fun e us hyields => ?_
      have hlt := weigh_lt_of_yields hyields
      exact takes_read (.sumRest [e]) us
  | .sumRest terms, ts => by
      by_cases hts : ∃ (sign : TermSign) (us : List Token), ts = sign.token :: us
      · obtain ⟨sign, us, hts⟩ := hts
        rw [hts, read_sumRest_sign]
        refine .after ((takes_read .product us).andThen fun e vs hyields => ?_) _
        have hlt := weigh_lt_of_yields hyields
        exact takes_read (.sumRest (terms ++ [sign.term e])) vs
      · rw [read_sumRest_stop terms (fun us hus => hts ⟨.plus, us, hus⟩)
          fun us hus => hts ⟨.minus, us, hus⟩]
        exact stop _ ts
  | .product, ts => by
      rw [read_product]
      refine (takes_read .signed ts).andThen fun e us hyields => ?_
      have hlt := weigh_lt_of_yields hyields
      exact takes_read (.productRest [e]) us
  | .productRest factors, ts => by
      by_cases hts : ∃ (sign : FactorSign) (us : List Token), ts = sign.token :: us
      · obtain ⟨sign, us, hts⟩ := hts
        rw [hts, read_productRest_sign]
        refine .after ((takes_read .signed us).andThen fun e vs hyields => ?_) _
        have hlt := weigh_lt_of_yields hyields
        exact takes_read (.productRest (sign.extend factors e)) vs
      · rw [read_productRest_stop factors (fun us hus => hts ⟨.times, us, hus⟩)
          fun us hus => hts ⟨.slash, us, hus⟩]
        exact stop _ ts
  | .signed, ts => by
      by_cases hminus : ∃ us, ts = .minus :: us
      · obtain ⟨us, hts⟩ := hminus
        rw [hts, read_signed_minus]
        exact ((takes_read .signed us).map _).after _
      by_cases hplus : ∃ us, ts = .plus :: us
      · obtain ⟨us, hts⟩ := hplus
        rw [hts, read_signed_plus]
        exact ((takes_read .signed us).map _).after _
      rw [read_signed_unsigned (fun us hus => hminus ⟨us, hus⟩) fun us hus => hplus ⟨us, hus⟩]
      exact takes_read .juxtaposition ts
  | .juxtaposition, ts => by
      rw [read_juxtaposition]
      refine (takes_read .power ts).andThen fun e us hyields => ?_
      have hlt := weigh_lt_of_yields hyields
      exact takes_read (.juxtapositionRest [e]) us
  | .juxtapositionRest factors, ts => by
      cases hts : startsOperand ts with
      | true =>
        rw [read_juxtapositionRest_operand factors hts]
        refine (takes_read .power ts).andThen fun e us hyields => ?_
        have hlt := weigh_lt_of_yields hyields
        exact takes_read (.juxtapositionRest (factors ++ [e])) us
      | false =>
        rw [read_juxtapositionRest_stop factors hts]
        exact stop _ ts
  | .power, ts => by
      rw [read_power]
      refine (takes_read .factorial ts).andThen fun e us hyields => ?_
      have hlt := weigh_lt_of_yields hyields
      exact takes_read (.powerRest e) us
  | .powerRest b, ts => by
      by_cases hts : ∃ us, ts = .caret :: us
      · obtain ⟨us, hts⟩ := hts
        rw [hts, read_powerRest_caret]
        exact ((takes_read .exponent us).map _).after _
      · rw [read_powerRest_stop b fun us hus => hts ⟨us, hus⟩]
        exact stop _ ts
  | .exponent, ts => by
      by_cases hminus : ∃ us, ts = .minus :: us
      · obtain ⟨us, hts⟩ := hminus
        rw [hts, read_exponent_minus]
        exact ((takes_read .exponent us).map _).after _
      by_cases hplus : ∃ us, ts = .plus :: us
      · obtain ⟨us, hts⟩ := hplus
        rw [hts, read_exponent_plus]
        exact ((takes_read .exponent us).map _).after _
      rw [read_exponent_unsigned (fun us hus => hminus ⟨us, hus⟩) fun us hus => hplus ⟨us, hus⟩]
      exact takes_read .power ts
  | .factorial, ts => by
      rw [read_factorial]
      refine (takes_read .operand ts).andThen fun e us hyields => ?_
      have hlt := weigh_lt_of_yields hyields
      exact takes_read (.factorialRest e) us
  | .factorialRest a, ts => by
      by_cases hts : ∃ us, ts = .bang :: us
      · obtain ⟨us, hts⟩ := hts
        rw [hts, read_factorialRest_bang]
        exact (takes_read (.factorialRest (.fact a)) us).after _
      · rw [read_factorialRest_stop a fun us hus => hts ⟨us, hus⟩]
        exact stop _ ts
  | .operand, .number numeral :: us => by
      rw [read_operand_number]
      exact (stop _ us).after _
  | .operand, .word (c :: d :: letters) :: us => by
      by_cases hcall : ∃ vs, us = .leftParen :: vs
      · obtain ⟨vs, rfl⟩ := hcall
        by_cases hnil : ∃ ws, vs = .rightParen :: ws
        · obtain ⟨ws, rfl⟩ := hnil
          rw [read_operand_call_nil]
          exact (((stop _ ws).after _).after _).after _
        · rw [read_operand_call c d letters fun ws hws => hnil ⟨ws, hws⟩]
          exact ((takes_read (.arguments _ []) vs).after _).after _
      · rw [read_operand_letter c d letters fun vs hvs => hcall ⟨vs, hvs⟩]
        -- the other letters stay in front
        exact .letter c d letters (.nothing _)
  | .operand, .word [c] :: us => by
      by_cases hsub : ∃ vs, us = .underscore :: vs
      · obtain ⟨vs, rfl⟩ := hsub
        rw [read_operand_subscript]
        exact (((takes_read .operand vs).map _).after _).after _
      · rw [read_operand_lastLetter c fun vs hvs => hsub ⟨vs, hvs⟩]
        exact (stop _ us).after _
  | .operand, .leftParen :: us => by
      rw [read_operand_parens]
      exact ((takes_read .relation us).andThen fun e vs _ => close _ _ vs).after _
  | .operand, .bar :: us => by
      rw [read_operand_bars]
      exact ((takes_read .relation us).andThen fun e vs _ => close _ _ vs).after _
  | .operand, .word [] :: _ | .operand, [] | .operand, .plus :: _ | .operand, .minus :: _
  | .operand, .times :: _ | .operand, .slash :: _ | .operand, .caret :: _ | .operand, .bang :: _
  | .operand, .underscore :: _ | .operand, .rightParen :: _ | .operand, .comma :: _
  | .operand, .relation _ :: _ => by
      rw [read_operand_expected (by simp) (by simp) (by simp) (by simp)]
      exact fail _ _
  | .arguments name args, ts => by
      rw [read_arguments]
      refine (takes_read .relation ts).andThen fun e us hyields => ?_
      have hlt := weigh_lt_of_yields hyields
      exact takes_read (.argumentsRest name (args ++ [e])) us
  | .argumentsRest name args, ts => by
      by_cases hts : ∃ us, ts = .comma :: us
      · obtain ⟨us, hts⟩ := hts
        rw [hts, read_argumentsRest_comma]
        exact (takes_read (.arguments name args) us).after _
      · rw [read_argumentsRest_close name args fun us hus => hts ⟨us, hus⟩]
        exact close _ _ ts
termination_by p ts => weigh ts * 16 + p.rank
decreasing_by
  all_goals
    simp only [weigh, weight, Phrase.grace, Phrase.rank, *] at *
    omega

end Phrase

/-! ## Readers -/

namespace Reader

variable {r s t : Reader} {e : Expr}

/-- The reader after one attempt. -/
def next (r : Reader) : Reader :=
  r.readExpr.2

/-- What attempts to read can make of the reader `r`: the tokens stay as many as they were, the
position moves on, but not beyond the end, and the only tokens that change are words at positions in
between, which lose letters. -/
structure Continues (r s : Reader) : Prop where
  length_eq : s.tokens.length = r.tokens.length
  index_le : r.index ≤ s.index
  index_le_max : s.index ≤ max r.index r.tokens.length
  tokens : ∀ (i : ℕ) (t : Token), r.tokens[i]? = some t → s.tokens[i]? = some t ∨
    (r.index ≤ i ∧ i ≤ s.index) ∧ ∃ u, s.tokens[i]? = some u ∧ t.Shortens u

namespace Continues

lemma refl (r : Reader) : Continues r r :=
  ⟨rfl, Nat.le_refl _, Nat.le_max_left .., fun _ _ ht => .inl ht⟩

lemma trans (h : Continues r s) (h' : Continues s t) : Continues r t where
  length_eq := h'.length_eq.trans h.length_eq
  index_le := Nat.le_trans h.index_le h'.index_le
  index_le_max := by
    have hs := h.index_le_max
    have ht := h'.index_le_max
    rw [h.length_eq] at ht
    omega
  tokens i x hx := by
    have hrs := h.index_le
    have hst := h'.index_le
    rcases h.tokens i x hx with hsame | ⟨hi, u, hu, hshort⟩
    · rcases h'.tokens i x hsame with hsame' | ⟨hi', hshort'⟩
      · exact .inl hsame'
      · exact .inr ⟨⟨Nat.le_trans hrs hi'.1, hi'.2⟩, hshort'⟩
    · right
      refine ⟨⟨hi.1, Nat.le_trans hi.2 hst⟩, ?_⟩
      rcases h'.tokens i u hu with hsame' | ⟨_, v, hv, hshort'⟩
      · exact ⟨u, hsame', hshort⟩
      · exact ⟨v, hv, hshort.trans hshort'⟩

end Continues

/-- What reading leaves takes the place of the tokens ahead. -/
lemma tokens_next (r : Reader) : r.next.tokens = r.tokens.take r.index ++
    ((Phrase.relation.read r.ahead).trail ++ (Phrase.relation.read r.ahead).rest) :=
  List.append_assoc _ _ _

lemma index_next (r : Reader) :
    r.next.index = r.index + (Phrase.relation.read r.ahead).trail.length := rfl

/-- **One attempt.** -/
theorem continues_next (r : Reader) : Continues r r.next := by
  have htakes : Takes r.ahead _ _ := Phrase.takes_read .relation r.ahead
  have hlength := htakes.length_eq
  rw [ahead, List.length_drop] at hlength
  refine ⟨?_, ?_, ?_, fun i t ht => ?_⟩
  · rw [tokens_next, List.length_append, List.length_append, List.length_take, ahead]
    omega
  · rw [index_next]
    omega
  · rw [index_next, ahead]
    omega
  · have hi : i < r.tokens.length := (List.getElem?_eq_some_iff.mp ht).1
    by_cases hbefore : i < r.index
    · left
      rw [tokens_next, List.getElem?_append_left (by rw [List.length_take]; omega),
        List.getElem?_take_of_lt hbefore, ht]
    · -- the token is one of those ahead
      have hlen : (r.tokens.take r.index).length = r.index := by
        rw [List.length_take]
        omega
      have hahead : r.ahead[i - r.index]? = some t := by
        rw [ahead, List.getElem?_drop, show r.index + (i - r.index) = i by omega, ht]
      rw [tokens_next, List.getElem?_append_right (by omega), hlen, index_next]
      rcases htakes.getElem?_eq _ t hahead with hsame | ⟨hle, hshort⟩
      · exact .inl hsame
      · exact .inr ⟨⟨by omega, by omega⟩, hshort⟩

/-- Any number of attempts. -/
lemma continues_iterate_next (r : Reader) : ∀ k : ℕ, Continues r (next^[k] r)
  | 0 => .refl r
  | k + 1 => by
      rw [Function.iterate_succ_apply']
      exact (continues_iterate_next r k).trans (continues_next _)

/-- An attempt answers with what the tokens ahead are as a whole. -/
lemma readExpr_fst (r : Reader) : r.readExpr.1 = Expr.ofTokens r.ahead := rfl

/-- The next attempt begins where this one has stopped. -/
lemma ahead_next (r : Reader) : r.next.ahead = (Phrase.relation.read r.ahead).rest := by
  have hlength := (Phrase.takes_read .relation r.ahead).length_eq
  by_cases hindex : r.index ≤ r.tokens.length
  · rw [ahead, tokens_next, index_next, ← List.append_assoc]
    refine List.drop_left' ?_
    rw [List.length_append, List.length_take]
    omega
  · -- beyond the end there is nothing to leave
    have hnil : r.ahead = [] := List.drop_eq_nil_of_le (by omega)
    rw [hnil, List.length_nil] at hlength
    have hrest : (Phrase.relation.read r.ahead).rest = [] := by
      rw [hnil]
      exact List.eq_nil_of_length_eq_zero (by omega)
    have hle := (continues_next r).index_le
    have hlen := (continues_next r).length_eq
    rw [hrest, ahead, List.drop_eq_nil_iff]
    omega

/-- Attempts depend on the tokens ahead only. -/
lemma iterate_next_congr {r' : Reader} (h : r'.ahead = r.ahead) : ∀ k : ℕ,
    (next^[k] r').ahead = (next^[k] r).ahead ∧
      (next^[k] r').index + r.index = (next^[k] r).index + r'.index
  | 0 => ⟨h, Nat.add_comm _ _⟩
  | k + 1 => by
      obtain ⟨hahead, hindex⟩ := iterate_next_congr h k
      rw [Function.iterate_succ_apply', Function.iterate_succ_apply', ahead_next, ahead_next,
        index_next, index_next, hahead]
      exact ⟨rfl, by omega⟩

/-- Where no tokens are ahead an operand is missing, and nothing changes. -/
lemma readExpr_of_ahead_eq_nil (h : r.ahead = []) : r.readExpr = (.error .expectedOperand, r) := by
  have hread : Phrase.relation.read [] = .fail .expectedOperand [] := by
    rw [Phrase.read_relation, Phrase.read_sum, Phrase.read_product,
      Phrase.read_signed_unsigned (by simp) (by simp), Phrase.read_juxtaposition,
      Phrase.read_power, Phrase.read_factorial,
      Phrase.read_operand_expected (by simp) (by simp) (by simp) (by simp)]
    rfl
  have hnext : r.next = r := by
    have hindex : r.next.index = r.index := by
      rw [index_next, h, hread]
      rfl
    have htokens : r.next.tokens = r.tokens := by
      rw [tokens_next, h, hread]
      exact (List.append_nil _).trans (List.take_of_length_le (List.drop_eq_nil_iff.mp h))
    cases r
    exact congrArg₂ Reader.mk htokens hindex
  have hresult : r.readExpr.1 = .error .expectedOperand := by
    rw [readExpr, h, hread]
    rfl
  exact Prod.ext hresult hnext

/-- A success leaves no tokens ahead. -/
lemma ahead_next_of_ok (h : r.readExpr.1 = .ok e) : r.next.ahead = [] := by
  rw [readExpr_fst, Expr.ofTokens, readExpr_eq_ok] at h
  rw [ahead_next]
  exact h.2

/-- Where no tokens are ahead it stays so. -/
lemma iterate_next_of_ahead_eq_nil (h : r.ahead = []) (k : ℕ) : next^[k] r = r :=
  Function.iterate_fixed (congrArg Prod.snd (readExpr_of_ahead_eq_nil h)) k

/-- **Any number of attempts, one after the other**, by any reader of any tokens.

* Between any two moments the tokens stay as many as they are, and the position never moves back,
  nor beyond the end.  The tokens that change are words between the old position and the new one,
  and they lose letters at their front, but not all of them.
* What each attempt answers, and how far the position has moved by then, depends on nothing but the
  tokens that are ahead at first.
* After a success the position is at or beyond the end.  All further attempts miss an operand and
  leave the reader as it is. -/
theorem successive_attempts (r : Reader) (k : ℕ) :
    (∀ j ≤ k, Continues (next^[j] r) (next^[k] r)) ∧
    (∀ r' : Reader, r'.ahead = r.ahead →
      (next^[k] r').readExpr.1 = (next^[k] r).readExpr.1 ∧
        (next^[k] r').index + r.index = (next^[k] r).index + r'.index) ∧
    ∀ e, (next^[k] r).readExpr.1 = .ok e →
      (next^[k + 1] r).tokens.length ≤ (next^[k + 1] r).index ∧
        ∀ m > k, next^[m] r = next^[k + 1] r ∧
          (next^[m] r).readExpr = (.error .expectedOperand, next^[k + 1] r) := by
  refine ⟨fun j hj => ?_, fun r' h => ?_, fun e he => ?_⟩
  · obtain ⟨m, rfl⟩ := Nat.exists_eq_add_of_le' hj
    rw [Function.iterate_add_apply]
    exact continues_iterate_next _ m
  · obtain ⟨hahead, hindex⟩ := iterate_next_congr h k
    exact ⟨by rw [readExpr_fst, readExpr_fst, hahead], hindex⟩
  · have hnil : (next^[k + 1] r).ahead = [] := by
      rw [Function.iterate_succ_apply']
      exact ahead_next_of_ok he
    refine ⟨List.drop_eq_nil_iff.mp hnil, fun m hm => ?_⟩
    obtain ⟨l, rfl⟩ := Nat.exists_eq_add_of_le' hm
    have hstays : next^[l + (k + 1)] r = next^[k + 1] r := by
      rw [Function.iterate_add_apply]
      exact iterate_next_of_ahead_eq_nil hnil l
    rw [hstays]
    exact ⟨rfl, readExpr_of_ahead_eq_nil hnil⟩

/-- Two readers in front of the word `ab` answer alike.  The first leaves `b` in its place, and a
further attempt changes nothing. -/
theorem successive_attempts_word :
    readExpr { tokens := [.bar, .word ['a', 'b']], index := 1 } =
        (.ok (.juxtapose [.var "a", .var "b"]),
          { tokens := [.bar, .word ['b']], index := 2 }) ∧
      (readExpr { tokens := [.word ['a', 'b']] }).1 = .ok (.juxtapose [.var "a", .var "b"]) ∧
      Continues { tokens := [.bar, .word ['a', 'b']], index := 1 }
        { tokens := [.bar, .word ['b']], index := 2 } ∧
      next^[2] { tokens := [.bar, .word ['a', 'b']], index := 1 } =
        { tokens := [.bar, .word ['b']], index := 2 } := by
  have h : readExpr { tokens := [.bar, .word ['a', 'b']], index := 1 } =
      (.ok (.juxtapose [.var "a", .var "b"]),
        { tokens := [.bar, .word ['b']], index := 2 }) := by
    cbv
  have hnext : next { tokens := [.bar, .word ['a', 'b']], index := 1 } =
      { tokens := [.bar, .word ['b']], index := 2 } :=
    congrArg Prod.snd h
  obtain ⟨-, hcongr, hok⟩ :=
    successive_attempts { tokens := [.bar, .word ['a', 'b']], index := 1 } 0
  obtain ⟨hcontinues, -⟩ :=
    successive_attempts { tokens := [.bar, .word ['a', 'b']], index := 1 } 1
  have hsame := (hcongr { tokens := [.word ['a', 'b']] } rfl).1
  have hstays := (hok _ (congrArg Prod.fst h)).2 2 (by decide)
  refine ⟨h, hsame.trans (congrArg Prod.fst h), hnext ▸ hcontinues 0 (by decide), ?_⟩
  exact hstays.1.trans hnext

end Reader

end MathExpr
