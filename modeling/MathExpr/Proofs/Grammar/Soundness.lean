import MathExpr.Phrase.Equations
import MathExpr.Proofs.Grammar.Basic

/-!
# What is read has a derivation

Reading leaves tokens behind and stops in front of others.  Only the answer and the tokens not
reached matter for the grammar, so the equations of the reader are first brought into a form that
says nothing else.

* `Outcome.Yields` — an outcome that is an expression, and the tokens not reached.
* `Phrase.Accepts` — what the tokens of a phrase may be, also for the companion phrases, which
  carry the parts that came before.
* **`Phrase.accepts_of_yields`** — the tokens that a reader has taken are a phrase of its kind, and
  stand for its answer.
-/

namespace MathExpr

/-! ## Outcomes without the tokens left behind -/

namespace Outcome

/-- The outcome is the expression `e`, and reading stopped in front of `rest`. -/
def Yields (o : Outcome) (e : Expr) (rest : List Token) : Prop :=
  o.result = .ok e ∧ o.rest = rest

variable {o : Outcome} {e a : Expr} {rest ts : List Token}

@[simp] lemma yields_after : (o.after ts).Yields e rest ↔ o.Yields e rest := Iff.rfl

@[simp] lemma yields_stop : (stop a ts).Yields e rest ↔ a = e ∧ ts = rest := by
  simp [Yields, stop]

@[simp] lemma yields_fail {error : ReadError} : ¬ (fail error ts).Yields e rest := by
  simp [Yields, fail]

@[simp] lemma yields_map {f : Expr → Expr} :
    (o.map f).Yields e rest ↔ ∃ a, o.Yields a rest ∧ f a = e := by
  cases h : o.result with
  | error error => simp [Yields, map, Except.map, h]
  | ok a =>
      simp only [Yields, map, Except.map, h, Except.ok.injEq]
      exact ⟨fun ⟨hf, hrest⟩ => ⟨a, ⟨rfl, hrest⟩, hf⟩, fun ⟨_, ⟨ha, hrest⟩, hf⟩ => ⟨ha ▸ hf, hrest⟩⟩

@[simp] lemma yields_andThen {next : Expr → List Token → Outcome} :
    (o.andThen next).Yields e rest ↔ ∃ a us, o.Yields a us ∧ (next a us).Yields e rest := by
  cases h : o.result with
  | error error => simp [Yields, andThen, h]
  | ok a => simp [Yields, andThen, h, after, and_assoc]

@[simp] lemma yields_close {token : Token} :
    (close token a ts).Yields e rest ↔ ts = token :: rest ∧ a = e := by
  cases ts with
  | nil => simp [close]
  | cons t ts =>
      by_cases h : t = token
      · simp [close, h, and_comm]
      · simp [close, h]

end Outcome

/-! ## Phrases and their derivations -/

namespace Phrase

open Token

/-- What the tokens of a phrase may be, and what they stand for.  A companion phrase stands for the
whole of the phrase that it ends. -/
def Accepts : Phrase → List Token → Expr → Prop
  | .relation, us, e => Derives .relation us e
  | .relationRest chain, us, e => ∃ links : List (String × Part),
      (∀ l ∈ links, Derives .sum l.2.tokens l.2.expr) ∧ us = linked Token.relation links ∧
      e = (links.foldl (fun chain l => RelationChain.extend chain l.1 l.2.expr) chain).toExpr
  | .sum, us, e => Derives .sum us e
  | .sumRest terms, us, e => ∃ links : List (TermSign × Part),
      (∀ l ∈ links, Derives .product l.2.tokens l.2.expr) ∧ us = linked TermSign.token links ∧
      e = .gather .add (terms ++ links.map fun l => l.1.term l.2.expr)
  | .product, us, e => Derives .product us e
  | .productRest factors, us, e => ∃ links : List (FactorSign × Part),
      (∀ l ∈ links, Derives .signed l.2.tokens l.2.expr) ∧ us = linked FactorSign.token links ∧
      e = .gather .mul (links.foldl (fun factors l => l.1.extend factors l.2.expr) factors)
  | .signed, us, e => Derives .signed us e
  | .juxtaposition, us, e => Derives .juxtaposition us e
  | .juxtapositionRest factors, us, e => ∃ others : List Part,
      (∀ p ∈ others, Derives .power p.tokens p.expr) ∧
      (∀ p ∈ others, startsOperand p.tokens = true) ∧ us = others.flatMap Part.tokens ∧
      e = .gather .juxtapose (factors ++ others.map Part.expr)
  | .power, us, e => Derives .power us e
  | .powerRest base, us, e => us = [] ∧ e = base ∨
      ∃ vs x, Derives .exponent vs x ∧ us = .caret :: vs ∧ e = .pow base x
  | .exponent, us, e => Derives .exponent us e
  | .factorial, us, e => Derives .factorial us e
  | .factorialRest a, us, e => ∃ n, us = List.replicate n .bang ∧ e = Expr.fact^[n] a
  | .operand, us, e => Derives .operand us e
  | .arguments name args, us, e => ∃ parts : List Part, parts ≠ [] ∧
      (∀ p ∈ parts, Derives .relation p.tokens p.expr) ∧
      us = Token.separate .comma (parts.map Part.tokens) ++ [.rightParen] ∧
      e = callOf name (args ++ parts.map Part.expr)
  | .argumentsRest name args, us, e => ∃ parts : List Part,
      (∀ p ∈ parts, Derives .relation p.tokens p.expr) ∧
      us = parts.flatMap (Token.comma :: ·.tokens) ++ [.rightParen] ∧
      e = callOf name (args ++ parts.map Part.expr)

/-- A phrase that was read has taken something, its companions perhaps nothing. -/
lemma weigh_lt_of_yields {p : Phrase} {ts rest : List Token} {e : Expr}
    (h : (p.read ts).Yields e rest) : Token.weigh rest < Token.weigh ts + p.grace :=
  h.2 ▸ weigh_rest_lt h.1

/-! ## One equation for all signs -/

lemma read_sumRest_sign (terms : List Expr) (sign : TermSign) (ts : List Token) :
    read (.sumRest terms) (sign.token :: ts) =
      ((read .product ts).andThen fun e rest =>
        read (.sumRest (terms ++ [sign.term e])) rest).after [sign.token] := by
  cases sign with
  | plus => exact read_sumRest_plus terms ts
  | minus => exact read_sumRest_minus terms ts

lemma read_productRest_sign (factors : List Expr) (sign : FactorSign) (ts : List Token) :
    read (.productRest factors) (sign.token :: ts) =
      ((read .signed ts).andThen fun e rest =>
        read (.productRest (sign.extend factors e)) rest).after [sign.token] := by
  cases sign with
  | times => exact read_productRest_times factors ts
  | slash => exact read_productRest_slash factors ts

/-- **Soundness of reading.**  Where a reader answers with an expression, the tokens it has taken
are a phrase of its kind that stands for this expression.  The tokens taken are what the tokens
given have in front of the tokens not reached, once words have been taken apart on either side.

The recursion is that of the reader: a phrase hands its tokens to a tighter one and the rest of
them, which weigh less, to its companion. -/
theorem accepts_of_yields : ∀ (p : Phrase) (ts : List Token) {e : Expr} {rest : List Token},
    (p.read ts).Yields e rest → ∃ us, spellOut ts = us ++ spellOut rest ∧ p.Accepts us e
  | .relation, ts, e, rest, h => by
      rw [read_relation, Outcome.yields_andThen] at h
      obtain ⟨a, mid, hfirst, hrest⟩ := h
      have hlt := weigh_lt_of_yields hfirst
      obtain ⟨us, hus, ha⟩ := accepts_of_yields .sum ts hfirst
      obtain ⟨vs, hvs, links, hlinks, rfl, rfl⟩ := accepts_of_yields _ mid hrest
      exact ⟨us ++ linked Token.relation links, by rw [hus, hvs, List.append_assoc],
        .relation links ha hlinks⟩
  | .relationRest chain, ts, e, rest, h => by
      by_cases hts : ∃ symbol ts', ts = .relation symbol :: ts'
      · obtain ⟨symbol, ts', hts⟩ := hts
        rw [hts, read_relationRest_relation, Outcome.yields_after, Outcome.yields_andThen] at h
        obtain ⟨a, mid, hfirst, hrest⟩ := h
        have hlt := weigh_lt_of_yields hfirst
        obtain ⟨us, hus, ha⟩ := accepts_of_yields .sum ts' hfirst
        obtain ⟨vs, hvs, links, hlinks, rfl, rfl⟩ := accepts_of_yields _ mid hrest
        refine ⟨.relation symbol :: us ++ linked Token.relation links, ?_,
          (symbol, ⟨us, a⟩) :: links, List.forall_mem_cons.mpr ⟨ha, hlinks⟩, rfl, rfl⟩
        simp [hts, spellOut_cons, hus, hvs]
      · rw [read_relationRest_stop chain fun symbol us hus => hts ⟨symbol, us, hus⟩] at h
        obtain ⟨rfl, rfl⟩ := Outcome.yields_stop.mp h
        exact ⟨[], rfl, [], by simp, rfl, rfl⟩
  | .sum, ts, e, rest, h => by
      rw [read_sum, Outcome.yields_andThen] at h
      obtain ⟨a, mid, hfirst, hrest⟩ := h
      have hlt := weigh_lt_of_yields hfirst
      obtain ⟨us, hus, ha⟩ := accepts_of_yields .product ts hfirst
      obtain ⟨vs, hvs, links, hlinks, rfl, rfl⟩ := accepts_of_yields _ mid hrest
      exact ⟨us ++ linked TermSign.token links, by rw [hus, hvs, List.append_assoc],
        .sum links ha hlinks⟩
  | .sumRest terms, ts, e, rest, h => by
      by_cases hts : ∃ (sign : TermSign) (ts' : List Token), ts = sign.token :: ts'
      · obtain ⟨sign, ts', hts⟩ := hts
        rw [hts, read_sumRest_sign, Outcome.yields_after, Outcome.yields_andThen] at h
        obtain ⟨a, mid, hfirst, hrest⟩ := h
        have hlt := weigh_lt_of_yields hfirst
        obtain ⟨us, hus, ha⟩ := accepts_of_yields .product ts' hfirst
        obtain ⟨vs, hvs, links, hlinks, rfl, rfl⟩ := accepts_of_yields _ mid hrest
        refine ⟨sign.token :: us ++ linked TermSign.token links, ?_,
          (sign, ⟨us, a⟩) :: links, List.forall_mem_cons.mpr ⟨ha, hlinks⟩, rfl, by simp⟩
        simp [hts, spellOut_cons, hus, hvs]
      · rw [read_sumRest_stop terms (fun us hus => hts ⟨.plus, us, hus⟩)
          fun us hus => hts ⟨.minus, us, hus⟩] at h
        obtain ⟨rfl, rfl⟩ := Outcome.yields_stop.mp h
        exact ⟨[], rfl, [], by simp, rfl, by simp⟩
  | .product, ts, e, rest, h => by
      rw [read_product, Outcome.yields_andThen] at h
      obtain ⟨a, mid, hfirst, hrest⟩ := h
      have hlt := weigh_lt_of_yields hfirst
      obtain ⟨us, hus, ha⟩ := accepts_of_yields .signed ts hfirst
      obtain ⟨vs, hvs, links, hlinks, rfl, rfl⟩ := accepts_of_yields _ mid hrest
      exact ⟨us ++ linked FactorSign.token links, by rw [hus, hvs, List.append_assoc],
        .product links ha hlinks⟩
  | .productRest factors, ts, e, rest, h => by
      by_cases hts : ∃ (sign : FactorSign) (ts' : List Token), ts = sign.token :: ts'
      · obtain ⟨sign, ts', hts⟩ := hts
        rw [hts, read_productRest_sign, Outcome.yields_after, Outcome.yields_andThen] at h
        obtain ⟨a, mid, hfirst, hrest⟩ := h
        have hlt := weigh_lt_of_yields hfirst
        obtain ⟨us, hus, ha⟩ := accepts_of_yields .signed ts' hfirst
        obtain ⟨vs, hvs, links, hlinks, rfl, rfl⟩ := accepts_of_yields _ mid hrest
        refine ⟨sign.token :: us ++ linked FactorSign.token links, ?_,
          (sign, ⟨us, a⟩) :: links, List.forall_mem_cons.mpr ⟨ha, hlinks⟩, rfl, rfl⟩
        simp [hts, spellOut_cons, hus, hvs]
      · rw [read_productRest_stop factors (fun us hus => hts ⟨.times, us, hus⟩)
          fun us hus => hts ⟨.slash, us, hus⟩] at h
        obtain ⟨rfl, rfl⟩ := Outcome.yields_stop.mp h
        exact ⟨[], rfl, [], by simp, rfl, rfl⟩
  | .signed, ts, e, rest, h => by
      by_cases hminus : ∃ ts', ts = .minus :: ts'
      · obtain ⟨ts', hts⟩ := hminus
        rw [hts, read_signed_minus, Outcome.yields_after, Outcome.yields_map] at h
        obtain ⟨a, hoperand, rfl⟩ := h
        obtain ⟨us, hus, ha⟩ := accepts_of_yields .signed ts' hoperand
        exact ⟨.minus :: us, by simp [hts, spellOut_cons, hus], .neg ha⟩
      by_cases hplus : ∃ ts', ts = .plus :: ts'
      · obtain ⟨ts', hts⟩ := hplus
        rw [hts, read_signed_plus, Outcome.yields_after, Outcome.yields_map] at h
        obtain ⟨a, hoperand, rfl⟩ := h
        obtain ⟨us, hus, ha⟩ := accepts_of_yields .signed ts' hoperand
        exact ⟨.plus :: us, by simp [hts, spellOut_cons, hus], .pos ha⟩
      rw [read_signed_unsigned (fun us hus => hminus ⟨us, hus⟩)
        fun us hus => hplus ⟨us, hus⟩] at h
      obtain ⟨us, hus, ha⟩ := accepts_of_yields .juxtaposition ts h
      exact ⟨us, hus, .unsigned ha⟩
  | .juxtaposition, ts, e, rest, h => by
      rw [read_juxtaposition, Outcome.yields_andThen] at h
      obtain ⟨a, mid, hfirst, hrest⟩ := h
      have hlt := weigh_lt_of_yields hfirst
      obtain ⟨us, hus, ha⟩ := accepts_of_yields .power ts hfirst
      obtain ⟨vs, hvs, others, hothers, hstart, rfl, rfl⟩ := accepts_of_yields _ mid hrest
      exact ⟨us ++ others.flatMap Part.tokens, by rw [hus, hvs, List.append_assoc],
        .juxtaposition others ha hothers hstart⟩
  | .juxtapositionRest factors, ts, e, rest, h => by
      cases hts : startsOperand ts with
      | true =>
        rw [read_juxtapositionRest_operand factors hts, Outcome.yields_andThen] at h
        obtain ⟨a, mid, hfirst, hrest⟩ := h
        have hlt := weigh_lt_of_yields hfirst
        obtain ⟨us, hus, ha⟩ := accepts_of_yields .power ts hfirst
        obtain ⟨vs, hvs, others, hothers, hstart, rfl, rfl⟩ := accepts_of_yields _ mid hrest
        have hstarts : startsOperand us = true := by
          rw [← startsOperand_spellOut, hus] at hts
          exact (startsOperand_append ha.ne_nil _).symm.trans hts
        refine ⟨us ++ others.flatMap Part.tokens, by rw [hus, hvs, List.append_assoc],
          ⟨us, a⟩ :: others, List.forall_mem_cons.mpr ⟨ha, hothers⟩,
          List.forall_mem_cons.mpr ⟨hstarts, hstart⟩, by simp, by simp⟩
      | false =>
        rw [read_juxtapositionRest_stop factors hts] at h
        obtain ⟨rfl, rfl⟩ := Outcome.yields_stop.mp h
        exact ⟨[], rfl, [], by simp, by simp, rfl, by simp⟩
  | .power, ts, e, rest, h => by
      rw [read_power, Outcome.yields_andThen] at h
      obtain ⟨b, mid, hbase, hrest⟩ := h
      have hlt := weigh_lt_of_yields hbase
      obtain ⟨us, hus, hb⟩ := accepts_of_yields .factorial ts hbase
      rcases accepts_of_yields _ mid hrest with ⟨vs, hvs, ⟨rfl, rfl⟩ | ⟨ws, x, hx, rfl, rfl⟩⟩
      · exact ⟨us, by rw [hus, hvs, List.nil_append], .base hb⟩
      · exact ⟨us ++ .caret :: ws, by rw [hus, hvs, List.append_assoc], .power hb hx⟩
  | .powerRest b, ts, e, rest, h => by
      by_cases hts : ∃ ts', ts = .caret :: ts'
      · obtain ⟨ts', hts⟩ := hts
        rw [hts, read_powerRest_caret, Outcome.yields_after, Outcome.yields_map] at h
        obtain ⟨x, hexponent, rfl⟩ := h
        obtain ⟨us, hus, hx⟩ := accepts_of_yields .exponent ts' hexponent
        exact ⟨.caret :: us, by simp [hts, spellOut_cons, hus], .inr ⟨us, x, hx, rfl, rfl⟩⟩
      · rw [read_powerRest_stop b fun us hus => hts ⟨us, hus⟩] at h
        obtain ⟨rfl, rfl⟩ := Outcome.yields_stop.mp h
        exact ⟨[], rfl, .inl ⟨rfl, rfl⟩⟩
  | .exponent, ts, e, rest, h => by
      by_cases hminus : ∃ ts', ts = .minus :: ts'
      · obtain ⟨ts', hts⟩ := hminus
        rw [hts, read_exponent_minus, Outcome.yields_after, Outcome.yields_map] at h
        obtain ⟨a, hoperand, rfl⟩ := h
        obtain ⟨us, hus, ha⟩ := accepts_of_yields .exponent ts' hoperand
        exact ⟨.minus :: us, by simp [hts, spellOut_cons, hus], .negExponent ha⟩
      by_cases hplus : ∃ ts', ts = .plus :: ts'
      · obtain ⟨ts', hts⟩ := hplus
        rw [hts, read_exponent_plus, Outcome.yields_after, Outcome.yields_map] at h
        obtain ⟨a, hoperand, rfl⟩ := h
        obtain ⟨us, hus, ha⟩ := accepts_of_yields .exponent ts' hoperand
        exact ⟨.plus :: us, by simp [hts, spellOut_cons, hus], .posExponent ha⟩
      rw [read_exponent_unsigned (fun us hus => hminus ⟨us, hus⟩)
        fun us hus => hplus ⟨us, hus⟩] at h
      obtain ⟨us, hus, ha⟩ := accepts_of_yields .power ts h
      exact ⟨us, hus, .exponent ha⟩
  | .factorial, ts, e, rest, h => by
      rw [read_factorial, Outcome.yields_andThen] at h
      obtain ⟨a, mid, hoperand, hrest⟩ := h
      have hlt := weigh_lt_of_yields hoperand
      obtain ⟨us, hus, ha⟩ := accepts_of_yields .operand ts hoperand
      obtain ⟨vs, hvs, n, rfl, rfl⟩ := accepts_of_yields _ mid hrest
      refine ⟨us ++ List.replicate n Token.bang, ?_, .factorial n ha⟩
      rw [hus, hvs, List.append_assoc]
  | .factorialRest a, ts, e, rest, h => by
      by_cases hts : ∃ ts', ts = .bang :: ts'
      · obtain ⟨ts', hts⟩ := hts
        rw [hts, read_factorialRest_bang, Outcome.yields_after] at h
        obtain ⟨us, hus, n, rfl, rfl⟩ := accepts_of_yields _ ts' h
        exact ⟨.bang :: List.replicate n .bang, by simp [hts, spellOut_cons, hus], n + 1, rfl, rfl⟩
      · rw [read_factorialRest_stop a fun us hus => hts ⟨us, hus⟩] at h
        obtain ⟨rfl, rfl⟩ := Outcome.yields_stop.mp h
        exact ⟨[], rfl, 0, rfl, rfl⟩
  | .operand, ts, e, rest, h => by
      match hts : ts with
      | .number numeral :: ts' =>
        rw [read_operand_number, Outcome.yields_after] at h
        obtain ⟨rfl, rfl⟩ := Outcome.yields_stop.mp h
        exact ⟨_, spellOut_cons (by simp) _, .number numeral⟩
      | .word (c :: d :: letters) :: ts' =>
        by_cases hcall : ∃ us, ts' = .leftParen :: us
        · obtain ⟨us, hts'⟩ := hcall
          by_cases hnil : ∃ vs, us = .rightParen :: vs
          · obtain ⟨vs, rfl⟩ := hnil
            rw [hts', read_operand_call_nil, Outcome.yields_after] at h
            obtain ⟨rfl, rfl⟩ := Outcome.yields_stop.mp h
            exact ⟨_, by simp [hts', spellOut_cons, separate], .call c d letters [] (by simp)⟩
          · rw [hts', read_operand_call c d letters fun vs hvs => hnil ⟨vs, hvs⟩,
              Outcome.yields_after] at h
            obtain ⟨vs, hvs, parts, _, hparts, rfl, rfl⟩ := accepts_of_yields _ us h
            exact ⟨_, by simp [hts', hvs], .call c d letters parts hparts⟩
        · have hword : ∀ us, ts' ≠ .leftParen :: us := fun us hus => hcall ⟨us, hus⟩
          rw [read_operand_letter c d letters hword] at h
          obtain ⟨rfl, rfl⟩ := Outcome.yields_stop.mp h
          exact ⟨[.word [c]], spellOut_letters c d letters hword, .letter c⟩
      | .word [c] :: ts' =>
        by_cases hsub : ∃ us, ts' = .underscore :: us
        · obtain ⟨us, hts'⟩ := hsub
          rw [hts', read_operand_subscript, Outcome.yields_after, Outcome.yields_map] at h
          obtain ⟨s, hsubscript, rfl⟩ := h
          obtain ⟨vs, hvs, hs⟩ := accepts_of_yields .operand us hsubscript
          exact ⟨.word [c] :: .underscore :: vs, by simp [hts', spellOut_cons, hvs],
            .subscript c hs⟩
        · rw [read_operand_lastLetter c fun us hus => hsub ⟨us, hus⟩, Outcome.yields_after] at h
          obtain ⟨rfl, rfl⟩ := Outcome.yields_stop.mp h
          exact ⟨[.word [c]], spellOut_letter c _, .letter c⟩
      | .leftParen :: ts' =>
        rw [read_operand_parens, Outcome.yields_after, Outcome.yields_andThen] at h
        obtain ⟨a, mid, hinner, hclose⟩ := h
        obtain ⟨rfl, rfl⟩ := Outcome.yields_close.mp hclose
        obtain ⟨us, hus, ha⟩ := accepts_of_yields .relation ts' hinner
        exact ⟨.leftParen :: us ++ [Token.rightParen], by simp [spellOut_cons, hus], .parens ha⟩
      | .bar :: ts' =>
        rw [read_operand_bars, Outcome.yields_after, Outcome.yields_andThen] at h
        obtain ⟨a, mid, hinner, hclose⟩ := h
        obtain ⟨rfl, rfl⟩ := Outcome.yields_close.mp hclose
        obtain ⟨us, hus, ha⟩ := accepts_of_yields .relation ts' hinner
        exact ⟨.bar :: us ++ [Token.bar], by simp [spellOut_cons, hus], .bars ha⟩
      | .word [] :: ts' | [] | .plus :: ts' | .minus :: ts' | .times :: ts' | .slash :: ts'
      | .caret :: ts' | .bang :: ts' | .underscore :: ts' | .rightParen :: ts' | .comma :: ts'
      | .relation _ :: ts' =>
        rw [read_operand_expected (by simp) (by simp) (by simp) (by simp)] at h
        exact absurd h Outcome.yields_fail
  | .arguments name args, ts, e, rest, h => by
      rw [read_arguments, Outcome.yields_andThen] at h
      obtain ⟨a, mid, hfirst, hrest⟩ := h
      have hlt := weigh_lt_of_yields hfirst
      obtain ⟨us, hus, ha⟩ := accepts_of_yields .relation ts hfirst
      obtain ⟨vs, hvs, parts, hparts, rfl, rfl⟩ := accepts_of_yields _ mid hrest
      exact ⟨_, by rw [hus, hvs, ← List.append_assoc], ⟨us, a⟩ :: parts, by simp,
        List.forall_mem_cons.mpr ⟨ha, hparts⟩, by simp [separate, List.flatMap_map], by simp⟩
  | .argumentsRest name args, ts, e, rest, h => by
      by_cases hts : ∃ ts', ts = .comma :: ts'
      · obtain ⟨ts', hts⟩ := hts
        rw [hts, read_argumentsRest_comma, Outcome.yields_after] at h
        obtain ⟨us, hus, parts, hne, hparts, rfl, rfl⟩ := accepts_of_yields _ ts' h
        refine ⟨_, by rw [hts, spellOut_cons (by simp), hus, ← List.cons_append], parts, hparts,
          ?_, rfl⟩
        cases parts with
        | nil => exact absurd rfl hne
        | cons part parts => simp [separate, List.flatMap_map]
      · rw [read_argumentsRest_close name args fun us hus => hts ⟨us, hus⟩] at h
        obtain ⟨rfl, rfl⟩ := Outcome.yields_close.mp h
        exact ⟨[.rightParen], by simp [spellOut_cons], [], by simp, by simp, by simp⟩
termination_by p ts => weigh ts * 16 + p.rank
decreasing_by
  all_goals
    simp only [weigh, weight, Phrase.grace, Phrase.rank, *] at *
    omega

end Phrase

end MathExpr
