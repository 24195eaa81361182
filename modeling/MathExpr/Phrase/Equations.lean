import Mathlib.Tactic.Lemma
import MathExpr.Phrase.Reading

/-!
# How each phrase goes on

One equation for each phrase and each token that it distinguishes.  Together they say all there is
to say about reading, so nothing else has to look into the recursion behind it.

* `Reading.outcome_andThen` and its neighbours — forgetting the proofs changes nothing else.
* `Phrase.weigh_rest_lt` — a phrase that was read has taken something.
* `Phrase.read_relation`, `Phrase.read_sum`, … — a phrase begins with a tighter one.
* `Phrase.read_sumRest_plus`, … — what a token makes a companion phrase do.
* `Phrase.read_sumRest_stop`, … — at any other token the phrase ends.
* `Phrase.read_operand_number`, … — the operands, by the tokens that begin them.
-/

namespace MathExpr

/-! ## Forgetting the proofs

Each way to combine readings combines their outcomes in the same way. -/

@[simp] lemma Outcome.after_nil (o : Outcome) : o.after [] = o := rfl

namespace Reading

variable {b b' : Nat}

@[simp] lemma outcome_stop (e : Expr) (rest : List Token) :
    (stop e rest).outcome = .stop e rest := rfl

@[simp] lemma outcome_failed (error : ReadError) (rest : List Token) :
    (failed error [] rest : Reading b).outcome = .fail error rest := rfl

@[simp] lemma outcome_after (tokens : List Token) (r : Reading b) (le : b ≤ b') :
    (r.after tokens le).outcome = r.outcome.after tokens := by
  cases r <;> rfl

@[simp] lemma outcome_map (f : Expr → Expr) (r : Reading b) :
    (r.map f).outcome = r.outcome.map f := by
  cases r <;> rfl

@[simp] lemma outcome_andThen (r : Reading b)
    (next : Expr → (rest : List Token) → Reading (Token.weigh rest + 1)) :
    (r.andThen fun e rest _ => next e rest).outcome =
      r.outcome.andThen fun e rest => (next e rest).outcome := by
  cases r with
  | done e trail rest lighter => exact outcome_after trail (next e rest) lighter
  | failed error trail rest => rfl

@[simp] lemma outcome_close (token : Token) (e : Expr) (ts : List Token) :
    (close token e ts).outcome = .close token e ts := by
  cases ts with
  | nil => rfl
  | cons t ts =>
      by_cases h : t = token
      · subst h
        simp [close, Outcome.close]
      · simp [close, Outcome.close, h]

/-- A success leaves tokens within the bound. -/
lemma weigh_rest_lt (r : Reading b) {e : Expr} (h : r.outcome.result = .ok e) :
    Token.weigh r.outcome.rest < b := by
  cases r with
  | done _ _ _ lighter => exact lighter
  | failed _ _ _ => simp [outcome] at h

end Reading

/-! ## Phrases -/

namespace Phrase

open Reading

/-- A phrase that was read has taken something, its companions perhaps nothing. -/
lemma weigh_rest_lt {p : Phrase} {ts : List Token} {e : Expr}
    (h : (p.read ts).result = .ok e) : Token.weigh (p.read ts).rest < Token.weigh ts + p.grace :=
  (p.reading ts).weigh_rest_lt h

lemma read_relation (ts : List Token) :
    read .relation ts =
      (read .sum ts).andThen fun e rest => read (.relationRest (.single e)) rest := by
  rw [read, reading.eq_def]
  simp [read]

lemma read_relationRest_relation (chain : RelationChain) (symbol : String) (ts : List Token) :
    read (.relationRest chain) (.relation symbol :: ts) =
      ((read .sum ts).andThen fun e rest =>
        read (.relationRest (chain.extend symbol e)) rest).after [.relation symbol] := by
  rw [read, reading.eq_def]
  simp [read]

lemma read_relationRest_stop (chain : RelationChain) {ts : List Token}
    (h : ∀ symbol us, ts ≠ .relation symbol :: us) :
    read (.relationRest chain) ts = .stop chain.toExpr ts := by
  rw [read, reading.eq_def]
  split <;> simp_all

lemma read_sum (ts : List Token) :
    read .sum ts = (read .product ts).andThen fun e rest => read (.sumRest [e]) rest := by
  rw [read, reading.eq_def]
  simp [read]

lemma read_sumRest_plus (terms : List Expr) (ts : List Token) :
    read (.sumRest terms) (.plus :: ts) =
      ((read .product ts).andThen fun e rest =>
        read (.sumRest (terms ++ [e])) rest).after [.plus] := by
  rw [read, reading.eq_def]
  simp [read]

lemma read_sumRest_minus (terms : List Expr) (ts : List Token) :
    read (.sumRest terms) (.minus :: ts) =
      ((read .product ts).andThen fun e rest =>
        read (.sumRest (terms ++ [.neg e { subtracted := true }])) rest).after [.minus] := by
  rw [read, reading.eq_def]
  simp [read]

lemma read_sumRest_stop (terms : List Expr) {ts : List Token}
    (hplus : ∀ us, ts ≠ .plus :: us) (hminus : ∀ us, ts ≠ .minus :: us) :
    read (.sumRest terms) ts = .stop (.gather .add terms) ts := by
  rw [read, reading.eq_def]
  split <;> simp_all

lemma read_product (ts : List Token) :
    read .product ts = (read .signed ts).andThen fun e rest => read (.productRest [e]) rest := by
  rw [read, reading.eq_def]
  simp [read]

lemma read_productRest_times (factors : List Expr) (ts : List Token) :
    read (.productRest factors) (.times :: ts) =
      ((read .signed ts).andThen fun e rest =>
        read (.productRest (factors ++ [e])) rest).after [.times] := by
  rw [read, reading.eq_def]
  simp [read]

lemma read_productRest_slash (factors : List Expr) (ts : List Token) :
    read (.productRest factors) (.slash :: ts) =
      ((read .signed ts).andThen fun e rest =>
        read (.productRest [.div (.gather .mul factors) e]) rest).after [.slash] := by
  rw [read, reading.eq_def]
  simp [read]

lemma read_productRest_stop (factors : List Expr) {ts : List Token}
    (htimes : ∀ us, ts ≠ .times :: us) (hslash : ∀ us, ts ≠ .slash :: us) :
    read (.productRest factors) ts = .stop (.gather .mul factors) ts := by
  rw [read, reading.eq_def]
  split <;> simp_all

lemma read_signed_minus (ts : List Token) :
    read .signed (.minus :: ts) =
      ((read .signed ts).map fun e => .neg e.unparenthesized).after [.minus] := by
  rw [read, reading.eq_def]
  simp [read]

lemma read_signed_plus (ts : List Token) :
    read .signed (.plus :: ts) =
      ((read .signed ts).map fun e => .pos e.unparenthesized).after [.plus] := by
  rw [read, reading.eq_def]
  simp [read]

lemma read_signed_unsigned {ts : List Token}
    (hminus : ∀ us, ts ≠ .minus :: us) (hplus : ∀ us, ts ≠ .plus :: us) :
    read .signed ts = read .juxtaposition ts := by
  rw [read, reading.eq_def]
  split <;> simp_all [read]

lemma read_juxtaposition (ts : List Token) :
    read .juxtaposition ts =
      (read .power ts).andThen fun e rest => read (.juxtapositionRest [e]) rest := by
  rw [read, reading.eq_def]
  simp [read]

lemma read_juxtapositionRest_operand (factors : List Expr) {ts : List Token}
    (h : startsOperand ts = true) :
    read (.juxtapositionRest factors) ts =
      (read .power ts).andThen fun e rest => read (.juxtapositionRest (factors ++ [e])) rest := by
  rw [read, reading.eq_def]
  simp [read, h]

lemma read_juxtapositionRest_stop (factors : List Expr) {ts : List Token}
    (h : startsOperand ts = false) :
    read (.juxtapositionRest factors) ts = .stop (.gather .juxtapose factors) ts := by
  rw [read, reading.eq_def]
  simp [h]

lemma read_power (ts : List Token) :
    read .power ts = (read .factorial ts).andThen fun e rest => read (.powerRest e) rest := by
  rw [read, reading.eq_def]
  simp [read]

lemma read_powerRest_caret (base : Expr) (ts : List Token) :
    read (.powerRest base) (.caret :: ts) =
      ((read .exponent ts).map fun e => .pow base e).after [.caret] := by
  rw [read, reading.eq_def]
  simp [read]

lemma read_powerRest_stop (base : Expr) {ts : List Token} (h : ∀ us, ts ≠ .caret :: us) :
    read (.powerRest base) ts = .stop base ts := by
  rw [read, reading.eq_def]
  split <;> simp_all

lemma read_exponent_minus (ts : List Token) :
    read .exponent (.minus :: ts) =
      ((read .exponent ts).map fun e => .neg e).after [.minus] := by
  rw [read, reading.eq_def]
  simp [read]

lemma read_exponent_plus (ts : List Token) :
    read .exponent (.plus :: ts) =
      ((read .exponent ts).map fun e => .pos e).after [.plus] := by
  rw [read, reading.eq_def]
  simp [read]

lemma read_exponent_unsigned {ts : List Token}
    (hminus : ∀ us, ts ≠ .minus :: us) (hplus : ∀ us, ts ≠ .plus :: us) :
    read .exponent ts = read .power ts := by
  rw [read, reading.eq_def]
  split <;> simp_all [read]

lemma read_factorial (ts : List Token) :
    read .factorial ts =
      (read .operand ts).andThen fun e rest => read (.factorialRest e) rest := by
  rw [read, reading.eq_def]
  simp [read]

lemma read_factorialRest_bang (e : Expr) (ts : List Token) :
    read (.factorialRest e) (.bang :: ts) =
      (read (.factorialRest (.fact e)) ts).after [.bang] := by
  rw [read, reading.eq_def]
  simp [read]

lemma read_factorialRest_stop (e : Expr) {ts : List Token} (h : ∀ us, ts ≠ .bang :: us) :
    read (.factorialRest e) ts = .stop e ts := by
  rw [read, reading.eq_def]
  split <;> simp_all

lemma read_operand_number (numeral : String) (ts : List Token) :
    read .operand (.number numeral :: ts) =
      (Outcome.stop (.number numeral) ts).after [.number numeral] := by
  rw [read, reading.eq_def]
  simp

/-- A word of two or more letters in front of a parenthesis names a function. -/
lemma read_operand_call_nil (c d : Char) (letters : List Char) (ts : List Token) :
    read .operand (.word (c :: d :: letters) :: .leftParen :: .rightParen :: ts) =
      (Outcome.stop (callOf (String.ofList (c :: d :: letters)) []) ts).after
        [.word (c :: d :: letters), .leftParen, .rightParen] := by
  rw [read, reading.eq_def]
  simp

lemma read_operand_call (c d : Char) (letters : List Char) {ts : List Token}
    (h : ∀ us, ts ≠ .rightParen :: us) :
    read .operand (.word (c :: d :: letters) :: .leftParen :: ts) =
      (read (.arguments (String.ofList (c :: d :: letters)) []) ts).after
        [.word (c :: d :: letters), .leftParen] := by
  rw [read, reading.eq_def]
  simp only [outcome_after, read]

/-- Anywhere else such a word lists variables, and only the first of them is read. -/
lemma read_operand_letter (c d : Char) (letters : List Char) {ts : List Token}
    (h : ∀ us, ts ≠ .leftParen :: us) :
    read .operand (.word (c :: d :: letters) :: ts) =
      .stop (.var (String.singleton c)) (.word (d :: letters) :: ts) := by
  rw [read, reading.eq_def]
  split <;> simp_all [Outcome.after, Outcome.stop]

lemma read_operand_subscript (c : Char) (ts : List Token) :
    read .operand (.word [c] :: .underscore :: ts) =
      ((read .operand ts).map fun e => .identifier (String.singleton c) (some e)).after
        [.word [c], .underscore] := by
  rw [read, reading.eq_def]
  simp [read]

lemma read_operand_lastLetter (c : Char) {ts : List Token}
    (h : ∀ us, ts ≠ .underscore :: us) :
    read .operand (.word [c] :: ts) =
      (Outcome.stop (.var (String.singleton c)) ts).after [.word [c]] := by
  rw [read, reading.eq_def]
  split <;> simp_all

lemma read_operand_parens (ts : List Token) :
    read .operand (.leftParen :: ts) =
      ((read .relation ts).andThen fun e rest =>
        .close .rightParen (.parens e) rest).after [.leftParen] := by
  rw [read, reading.eq_def]
  simp [read]

lemma read_operand_bars (ts : List Token) :
    read .operand (.bar :: ts) =
      ((read .relation ts).andThen fun e rest => .close .bar (.abs e) rest).after [.bar] := by
  rw [read, reading.eq_def]
  simp [read]

/-- Nothing else begins an operand, and least of all a word without letters. -/
lemma read_operand_expected {ts : List Token} (hnumber : ∀ numeral us, ts ≠ .number numeral :: us)
    (hword : ∀ c letters us, ts ≠ .word (c :: letters) :: us)
    (hparen : ∀ us, ts ≠ .leftParen :: us) (hbar : ∀ us, ts ≠ .bar :: us) :
    read .operand ts = .fail .expectedOperand ts := by
  rw [read, reading.eq_def]
  split <;> simp_all

lemma read_arguments (name : String) (args : List Expr) (ts : List Token) :
    read (.arguments name args) ts = (read .relation ts).andThen fun e rest =>
      read (.argumentsRest name (args ++ [e])) rest := by
  rw [read, reading.eq_def]
  simp [read]

lemma read_argumentsRest_comma (name : String) (args : List Expr) (ts : List Token) :
    read (.argumentsRest name args) (.comma :: ts) =
      (read (.arguments name args) ts).after [.comma] := by
  rw [read, reading.eq_def]
  simp [read]

lemma read_argumentsRest_close (name : String) (args : List Expr) {ts : List Token}
    (h : ∀ us, ts ≠ .comma :: us) :
    read (.argumentsRest name args) ts = .close .rightParen (callOf name args) ts := by
  rw [read, reading.eq_def]
  split <;> simp_all

end Phrase

end MathExpr
