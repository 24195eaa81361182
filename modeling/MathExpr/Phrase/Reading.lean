import MathExpr.Phrase.Outcome

/-!
# Reading phrases

A phrase begins with the next tighter phrase, and its companion decides by one token whether it goes
on.  Only a word needs a second token: two or more letters are a function's name if a parenthesis
follows, and the first of them is a variable if not.

* `Phrase.reading` — the reader, by recursion on the weight of the tokens and the rank of the
  phrase.
* `Phrase.read` — the same without the proofs.
-/

namespace MathExpr

namespace Phrase

open Reading

/-- Reads a phrase from the front of a list of tokens. -/
def reading (p : Phrase) (ts : List Token) : Reading (Token.weigh ts + p.grace) :=
  match p with
  | .relation =>
    (reading .sum ts).andThen fun e rest _ => reading (.relationRest (.single e)) rest
  | .relationRest chain =>
    match ts with
    | .relation symbol :: ts =>
      ((reading .sum ts).andThen fun e rest _ =>
        reading (.relationRest (chain.extend symbol e)) rest).after [.relation symbol]
    | ts => stop chain.toExpr ts
  | .sum =>
    (reading .product ts).andThen fun e rest _ => reading (.sumRest [e]) rest
  | .sumRest terms =>
    match ts with
    | .plus :: ts =>
      ((reading .product ts).andThen fun e rest _ =>
        reading (.sumRest (terms ++ [e])) rest).after [.plus]
    | .minus :: ts =>
      ((reading .product ts).andThen fun e rest _ =>
        reading (.sumRest (terms ++ [.neg e { subtracted := true }])) rest).after [.minus]
    | ts => stop (.gather .add terms) ts
  | .product =>
    (reading .signed ts).andThen fun e rest _ => reading (.productRest [e]) rest
  | .productRest factors =>
    match ts with
    | .times :: ts =>
      ((reading .signed ts).andThen fun e rest _ =>
        reading (.productRest (factors ++ [e])) rest).after [.times]
    | .slash :: ts =>
      ((reading .signed ts).andThen fun e rest _ =>
        reading (.productRest [.div (.gather .mul factors) e]) rest).after [.slash]
    | ts => stop (.gather .mul factors) ts
  | .signed =>
    match ts with
    | .minus :: ts => ((reading .signed ts).map fun e => .neg e.unparenthesized).after [.minus]
    | .plus :: ts => ((reading .signed ts).map fun e => .pos e.unparenthesized).after [.plus]
    | ts => reading .juxtaposition ts
  | .juxtaposition =>
    (reading .power ts).andThen fun e rest _ => reading (.juxtapositionRest [e]) rest
  | .juxtapositionRest factors =>
    if startsOperand ts then
      ((reading .power ts).andThen fun e rest _ =>
        reading (.juxtapositionRest (factors ++ [e])) rest).after []
    else stop (.gather .juxtapose factors) ts
  | .power =>
    (reading .factorial ts).andThen fun e rest _ => reading (.powerRest e) rest
  | .powerRest base =>
    match ts with
    | .caret :: ts => ((reading .exponent ts).map fun e => .pow base e).after [.caret]
    | ts => stop base ts
  | .exponent =>
    match ts with
    | .minus :: ts => ((reading .exponent ts).map fun e => .neg e).after [.minus]
    | .plus :: ts => ((reading .exponent ts).map fun e => .pos e).after [.plus]
    | ts => reading .power ts
  | .factorial =>
    (reading .operand ts).andThen fun e rest _ => reading (.factorialRest e) rest
  | .factorialRest e =>
    match ts with
    | .bang :: ts => (reading (.factorialRest (.fact e)) ts).after [.bang]
    | ts => stop e ts
  | .operand =>
    match ts with
    | .number numeral :: ts => (stop (.number numeral) ts).after [.number numeral]
    | .word (c :: d :: letters) :: .leftParen :: .rightParen :: ts =>
      (stop (callOf (String.ofList (c :: d :: letters)) []) ts).after
        [.word (c :: d :: letters), .leftParen, .rightParen]
    | .word (c :: d :: letters) :: .leftParen :: ts =>
      (reading (.arguments (String.ofList (c :: d :: letters)) []) ts).after
        [.word (c :: d :: letters), .leftParen]
    | .word (c :: d :: letters) :: ts =>
      (stop (.var (String.singleton c)) (.word (d :: letters) :: ts)).after []
    | .word [c] :: .underscore :: ts =>
      ((reading .operand ts).map fun e => .identifier (String.singleton c) (some e)).after
        [.word [c], .underscore]
    | .word [c] :: ts => (stop (.var (String.singleton c)) ts).after [.word [c]]
    | .leftParen :: ts =>
      ((reading .relation ts).andThen fun e rest _ =>
        close .rightParen (.parens e) rest).after [.leftParen]
    | .bar :: ts =>
      ((reading .relation ts).andThen fun e rest _ => close .bar (.abs e) rest).after [.bar]
    | ts => .failed .expectedOperand [] ts
  | .arguments name args =>
    (reading .relation ts).andThen fun e rest _ => reading (.argumentsRest name (args ++ [e])) rest
  | .argumentsRest name args =>
    match ts with
    | .comma :: ts => (reading (.arguments name args) ts).after [.comma]
    | ts => close .rightParen (callOf name args) ts
termination_by Token.weigh ts * 16 + p.rank
decreasing_by
  all_goals
    simp only [Token.weigh, Token.weight, Phrase.grace, Phrase.rank, List.length_cons] at *
    omega

/-- What reading a phrase from the front of a list of tokens comes to. -/
def read (p : Phrase) (ts : List Token) : Outcome :=
  (p.reading ts).outcome

end Phrase

end MathExpr
