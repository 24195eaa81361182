import Mathlib.Control.Monad.Basic
import Mathlib.Tactic.Lemma
import MathExpr.Proofs.Grammar.Progress
import MathExpr.Proofs.Printing.Lexemes

/-!
# Where reading stops

A reader gives up no later than it has to.  What it has taken by then is the beginning of some
expression, and with the next token it no longer is, so no lookahead could have told any sooner
that the tokens are no expression.

* `Token.spellOut_append` — lists of tokens are taken apart piece by piece.
* `Reader.exists_run` — the machine over all tokens up to the index at which the reader stops.
* **`Reader.exists_ok_iff`** — the tokens that can be read are those that the machine takes to the
  end of an expression.
* **`Reader.stops_at_once`** — where a reader fails, and why.
-/

namespace MathExpr

open Progress

namespace Token

/-- A list of tokens in front of anything but a parenthesis, which could make a name of a word. -/
lemma spellOut_append : ∀ (us : List Token) {vs : List Token}, (∀ ws, vs ≠ .leftParen :: ws) →
    spellOut (us ++ vs) = spellOut us ++ spellOut vs
  | [], _, _ => rfl
  | t :: us, vs, hvs => by
      have ih := spellOut_append us hvs
      by_cases ht : ∃ letters, t = .word letters
      · obtain ⟨letters, rfl⟩ := ht
        have hhead : (us ++ vs).head? = some .leftParen ↔ us.head? = some .leftParen := by
          cases us with
          | cons u us => rfl
          | nil =>
              cases vs with
              | nil => rfl
              | cons v ws => simpa using fun hv => hvs ws (by rw [hv])
        rw [List.cons_append, spellOut_word, spellOut_word, ih]
        simp only [hhead]
        split <;> simp
      · have ht' : ∀ letters, t ≠ .word letters := fun letters hl => ht ⟨letters, hl⟩
        rw [List.cons_append, spellOut_cons ht', spellOut_cons ht', ih, List.cons_append]

/-- A list without words is spelled out already. -/
lemma spellOut_of_no_word : ∀ {us : List Token}, (∀ t ∈ us, ∀ letters, t ≠ .word letters) →
    spellOut us = us
  | [], _ => rfl
  | t :: us, h => by
      rw [spellOut_cons (h t (by simp)), spellOut_of_no_word fun u hu => h u (by simp [hu])]

end Token

open Token

namespace Progress

variable {p : Progress} {t : Token}

/-- Closing tokens and fillers are no words. -/
lemma ne_word_of_mem_finish (ht : t ∈ p.finish) (letters : List Char) : t ≠ .word letters := by
  obtain ⟨s, groups⟩ := p
  rcases List.mem_append.mp ht with ht | ht
  · cases s <;> simp_all [Stage.filler]
    rcases ht with rfl | rfl <;> simp
  · obtain ⟨group, _, rfl⟩ := List.mem_map.mp ht
    cases group <;> simp [Group.closing]

/-- Only behind a name does what is missing begin with a parenthesis. -/
lemma finish_ne_leftParen (hp : p.stage ≠ .name) (us : List Token) :
    p.finish ≠ .leftParen :: us := by
  obtain ⟨s, groups⟩ := p
  cases groups with
  | nil => cases s <;> first | exact absurd rfl hp | simp [finish, Stage.filler]
  | cons group groups =>
      cases group <;> cases s <;>
        first | exact absurd rfl hp | simp [finish, Stage.filler, Group.closing]

/-- A token that does not come next begins no operand. -/
lemma Refuses.startsOperand {ts : List Token} (h : p.Refuses (t :: ts)) (ht : t ≠ .word []) :
    Phrase.startsOperand [t] = false := by
  rw [Bool.eq_false_iff]
  intro hstart
  obtain ⟨hstage, hstep⟩ := refuses_cons.mp h
  rw [step_of_startsOperand hstage hstart] at hstep
  match t with
  | .number _ | .leftParen | .word [_] | .word (_ :: _ :: _) =>
      exact absurd hstep (Option.some_ne_none _)
  | .word [] => exact ht rfl
  | .plus | .minus | .times | .slash | .caret | .bang | .underscore | .rightParen | .bar
  | .comma | .relation _ => simp [Phrase.startsOperand] at hstart

lemma Refuses.ne_leftParen {ts : List Token} (h : p.Refuses ts) (us : List Token) :
    ts ≠ .leftParen :: us := by
  rintro rfl
  exact absurd (h.startsOperand (by simp)) (by simp [Phrase.startsOperand])

lemma Refuses.ne_word {ts : List Token} (h : p.Refuses ts) (c : Char) (letters : List Char)
    (us : List Token) : ts ≠ .word (c :: letters) :: us := by
  rintro rfl
  exact absurd (h.startsOperand (by simp)) (by simp [Phrase.startsOperand])

/-- The machine gets stuck for two reasons only. -/
lemma Stuck.error_eq {ts : List Token} {error : ReadError} (h : p.Stuck ts error) :
    error = .expectedOperand ∨ error = .unclosedGroup := by
  cases error with
  | expectedOperand => exact .inl rfl
  | unclosedGroup => exact .inr rfl
  | _ => exact h.elim

/-- Once the machine refuses a token, no list that goes on with it can be taken. -/
lemma Refuses.run_eq_none {us vs : List Token} (hrun : start.run (spellOut us) = some p)
    (h : p.Refuses (t :: vs)) : start.run (spellOut (us ++ t :: vs)) = none := by
  have hspell : spellOut (t :: vs) = t :: spellOut vs := by
    by_cases ht : ∃ letters, t = .word letters
    · obtain ⟨letters, rfl⟩ := ht
      cases letters with
      | nil => simp
      | cons c letters => exact absurd rfl (h.ne_word c letters vs)
    · exact spellOut_cons (fun letters hl => ht ⟨letters, hl⟩) vs
  rw [spellOut_append us h.ne_leftParen, run_append, hrun, hspell, Option.bind_some, run_cons,
    (refuses_cons.mp h).2, Option.bind_none]

/-- Where the machine is stuck something is open, unless an empty word is in the way. -/
lemma Stuck.not_done {ts : List Token} {error : ReadError} (h : p.Stuck ts error)
    (hts : ts.head? ≠ some (.word [])) : ¬ p.Done := by
  rintro ⟨hstage, hgroups⟩
  obtain ⟨s, groups⟩ := p
  cases error with
  | expectedOperand =>
      have hawaits : s.Awaits := h.resolve_right hts
      cases s <;> first | exact hawaits | exact hstage
  | unclosedGroup => exact h hgroups
  | _ => exact h

/-- Whatever the machine has taken is the beginning of an expression. -/
lemma run_append_finish {us : List Token} (hrun : start.run (spellOut us) = some p)
    (hp : p.stage ≠ .name) :
    ∃ q, start.run (spellOut (us ++ p.finish)) = some q ∧ q.Done := by
  obtain ⟨q, hfinish, hdone⟩ := p.run_finish
  refine ⟨q, ?_, hdone⟩
  rw [spellOut_append us (finish_ne_leftParen hp),
    spellOut_of_no_word fun t ht => ne_word_of_mem_finish ht, run_append, hrun]
  exact hfinish

end Progress

/-! ## The index at which a reader stops -/

namespace Reader

variable {ts us : List Token} {e : Expr}

/-- The machine takes the tokens in front of those that are not reached, and refuses the next. -/
theorem exists_run (ts : List Token) : ∃ q,
    start.run (spellOut (ts.take (Phrase.relation.read ts).trail.length)) = some q ∧
    ts.drop (Phrase.relation.read ts).trail.length = (Phrase.relation.read ts).rest ∧
    q.Refuses (Phrase.relation.read ts).rest ∧
    match (Phrase.relation.read ts).result with
    | .ok _ => q.Done
    | .error error => q.Stuck (Phrase.relation.read ts).rest error := by
  have hready : start.TakesSign [] ts := .opening
  obtain ⟨hlength, q, hleads, hresult⟩ := Phrase.follows_read .relation ts hready
  generalize Phrase.relation.read ts = o at *
  have hstop : q.Refuses o.rest ∧ match o.result with
      | .ok _ => q.Done
      | .error error => q.Stuck o.rest error := by
    cases ho : o.result with
    | ok e =>
        rw [ho] at hresult
        refine ⟨hresult.refuses fun t _ hgrip => ?_, hresult.stage, hresult.groups_eq⟩
        cases t <;> simp_all [Token.grip, goOn]
    | error error =>
        rw [ho] at hresult
        exact hresult
  obtain ⟨hrefuses, hend⟩ := hstop
  have hdrop : ts.drop o.trail.length = o.rest := by
    rw [List.suffix_iff_eq_drop.mp (hleads.suffix hrefuses.ne_word)]
    congr 1
    omega
  refine ⟨q, ?_, hdrop, hrefuses, hend⟩
  obtain ⟨ws, hws, hrun⟩ := hleads.exists_run
  have hsplit := spellOut_append (ts.take o.trail.length) (hdrop ▸ hrefuses.ne_leftParen)
  rw [List.take_append_drop, hdrop, hws] at hsplit
  rw [← List.append_cancel_right hsplit]
  exact hrun

/-- **The machine decides what can be read.**  A list of tokens is an expression exactly if the
machine takes all of it and nothing is left open. -/
theorem exists_ok_iff : (∃ e, (readExpr { tokens := ts }).1 = .ok e) ↔
    ∃ q, start.run (spellOut ts) = some q ∧ q.Done := by
  obtain ⟨q, hrun, hdrop, hrefuses, hend⟩ := exists_run ts
  constructor
  · rintro ⟨e, he⟩
    obtain ⟨hresult, hrest⟩ := readExpr_eq_ok.mp he
    rw [hresult] at hend
    rw [hrest, List.drop_eq_nil_iff] at hdrop
    rw [List.take_of_length_le hdrop] at hrun
    exact ⟨q, hrun, hend⟩
  · rintro ⟨q', hrun', hdone⟩
    -- no token is refused, so all of them have been taken
    have hrest : (Phrase.relation.read ts).rest = [] := by
      cases hts : (Phrase.relation.read ts).rest with
      | nil => rfl
      | cons t us =>
          rw [hts] at hdrop hrefuses
          have hnone := hrefuses.run_eq_none hrun
          rw [← hdrop, List.take_append_drop, hrun'] at hnone
          cases hnone
    rw [hrest, List.drop_eq_nil_iff] at hdrop
    rw [List.take_of_length_le hdrop, hrun', Option.some.injEq] at hrun
    subst hrun
    cases hresult : (Phrase.relation.read ts).result with
    | ok e => exact ⟨e, readExpr_eq_ok.mpr ⟨hresult, hrest⟩⟩
    | error error =>
        rw [hresult, hrest] at hend
        exact absurd hdone (hend.not_done (by simp))

/-- A reader fails where its phrase does, or because its phrase ends too early. -/
lemma result_of_error {error : ReadError} (h : (readExpr { tokens := ts }).1 = .error error) :
    error = .trailingTokens ∧ (∃ e, (Phrase.relation.read ts).result = .ok e) ∨
      (Phrase.relation.read ts).result = .error error := by
  unfold readExpr ahead at h
  rw [List.drop_zero] at h
  cases hresult : (Phrase.relation.read ts).result with
  | error error' => simpa [hresult, bind, Except.bind] using h
  | ok e =>
      left
      cases hrest : (Phrase.relation.read ts).rest with
      | nil => simp [hresult, hrest, bind, Except.bind, pure, Except.pure] at h
      | cons t us =>
          simp only [hresult, hrest, bind, Except.bind, List.isEmpty_cons, Bool.false_eq_true,
            if_false, throw, throwThe, MonadExceptOf.throw, Except.error.injEq] at h
          exact ⟨h.symm, e, rfl⟩

/-- **Reading stops at the earliest token.**  Where the tokens of a text are no expression, some
expression begins with the tokens in front of the reader's index, and none with one token more.
The error is about tokens that are left over exactly if those in front of the index are an
expression by themselves; else an operand or the end of a group is missing. -/
theorem stops_at_once {text : String} {ts : List Token} {error : ReadError} {r : Reader}
    (hts : ofText text = .ok ts) (h : readExpr { tokens := ts } = (.error error, r)) :
    (∃ us, ts.take r.index <+: us ∧ ∃ e, Expr.ofTokens us = .ok e) ∧
    (r.index < ts.length → ∀ us, ts.take (r.index + 1) <+: us → ∀ e, Expr.ofTokens us ≠ .ok e) ∧
    (error = .trailingTokens ↔ ∃ e, Expr.ofTokens (ts.take r.index) = .ok e) ∧
    (error ≠ .trailingTokens → error = .expectedOperand ∨ error = .unclosedGroup) := by
  obtain ⟨q, hrun, hdrop, hrefuses, hend⟩ := exists_run ts
  have hindex : r.index = (Phrase.relation.read ts).trail.length := by
    have := congrArg (·.2.index) h
    simpa [readExpr, advance, ahead] using this.symm
  rw [← hindex] at hrun hdrop
  have hword : (Phrase.relation.read ts).rest.head? ≠ some (.word []) := by
    intro hhead
    have hmem : Token.word [] ∈ ts := by
      refine List.mem_of_mem_drop (i := r.index) ?_
      rw [hdrop]
      exact List.mem_of_mem_head? hhead
    exact absurd rfl (lexical_of_ofChars _ hts _ hmem).1
  have hcause : error = .trailingTokens ∧ q.Done ∨
      (error = .expectedOperand ∨ error = .unclosedGroup) ∧ ¬ q.Done := by
    rcases result_of_error (congrArg Prod.fst h) with ⟨rfl, e, hresult⟩ | hresult
    all_goals rw [hresult] at hend
    · exact .inl ⟨rfl, hend⟩
    · exact .inr ⟨hend.error_eq, hend.not_done hword⟩
  have hdone : (∃ e, Expr.ofTokens (ts.take r.index) = .ok e) ↔ q.Done := by
    rw [Expr.ofTokens, exists_ok_iff]
    simp [hrun]
  refine ⟨?_, ?_, ?_, ?_⟩
  · exact ⟨_, List.prefix_append _ q.finish, exists_ok_iff.mpr (run_append_finish hrun hrefuses.1)⟩
  · rintro hlt us ⟨vs, rfl⟩ e he
    obtain ⟨q', hrun', _⟩ := exists_ok_iff.mp ⟨e, he⟩
    rw [← hdrop, List.drop_eq_getElem_cons hlt] at hrefuses
    have hnext : q.Refuses (ts[r.index] :: vs) := refuses_cons.mpr (refuses_cons.mp hrefuses)
    rw [List.take_succ_eq_append_getElem hlt, List.append_assoc, List.singleton_append,
      hnext.run_eq_none hrun] at hrun'
    cases hrun'
  · rw [hdone]
    rcases hcause with ⟨rfl, hq⟩ | ⟨rfl | rfl, hq⟩ <;> simp [hq]
  · intro hne
    exact (hcause.resolve_left fun hleft => hne hleft.1).1

/-- Reading `|(x|` stops at the second bar, which would have to close the parenthesis. -/
theorem stops_in_parentheses :
    ofText "|(x|" = .ok [.bar, .leftParen, .word ['x'], .bar] ∧
      readExpr { tokens := [.bar, .leftParen, .word ['x'], .bar] } =
        (.error .unclosedGroup, { tokens := [.bar, .leftParen, .word ['x'], .bar], index := 3 }) ∧
      (∃ us, [.bar, .leftParen, .word ['x']] <+: us ∧ ∃ e, Expr.ofTokens us = .ok e) ∧
      ∀ us, [.bar, .leftParen, .word ['x'], .bar] <+: us → ∀ e, Expr.ofTokens us ≠ .ok e := by
  have hts : ofText "|(x|" = .ok [.bar, .leftParen, .word ['x'], .bar] := by decide +kernel
  have h : readExpr { tokens := [.bar, .leftParen, .word ['x'], .bar] } =
      (.error .unclosedGroup, { tokens := [.bar, .leftParen, .word ['x'], .bar], index := 3 }) := by
    cbv
  obtain ⟨hbegins, hnext, _⟩ := stops_at_once hts h
  exact ⟨hts, h, hbegins, hnext (by decide)⟩

end Reader

end MathExpr
