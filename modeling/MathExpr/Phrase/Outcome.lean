import MathExpr.Error
import MathExpr.Phrase.Basic

/-!
# What reading comes to

Reading a phrase takes tokens from the front of a list.  The tokens that it leaves behind are part
of its answer, and they need not be the tokens that it took: letters are taken from the front of a
word one at a time, and of a word that has been used up the last letter is left behind.

* `Outcome` — an answer, with the tokens left behind and the tokens not reached.
* `Reading` — an outcome together with the proof that not too many tokens are left, which is what
  lets reading go on.
-/

namespace MathExpr

/-- What reading a phrase comes to. -/
structure Outcome where
  /-- The expression that was read, or why there is none. -/
  result : Except ReadError Expr
  /-- The tokens left behind, in order. -/
  trail : List Token
  /-- The tokens not reached. -/
  rest : List Token

namespace Outcome

/-- The outcome when `tokens` were left behind before. -/
def after (tokens : List Token) (o : Outcome) : Outcome :=
  { o with trail := tokens ++ o.trail }

/-- The outcome with its expression changed. -/
def map (f : Expr → Expr) (o : Outcome) : Outcome :=
  { o with result := o.result.map f }

/-- The expression is complete here. -/
def stop (e : Expr) (rest : List Token) : Outcome :=
  ⟨.ok e, [], rest⟩

/-- Reading cannot go on here. -/
def fail (error : ReadError) (rest : List Token) : Outcome :=
  ⟨.error error, [], rest⟩

/-- Expects the token that closes a group, and stays in front of any other token. -/
def close (token : Token) (e : Expr) : (ts : List Token) → Outcome
  | [] => fail .unclosedGroup []
  | t :: ts => if t = token then (stop e ts).after [t] else fail .unclosedGroup (t :: ts)

/-- Reads on after a success. -/
def andThen (o : Outcome) (next : Expr → List Token → Outcome) : Outcome :=
  match o.result with
  | .ok e => (next e o.rest).after o.trail
  | .error _ => o

end Outcome

/-- An outcome that, if it is a success, leaves tokens of less weight than `bound`. -/
inductive Reading (bound : Nat)
  | done (e : Expr) (trail rest : List Token) (lighter : Token.weigh rest < bound)
  | failed (error : ReadError) (trail rest : List Token)

namespace Reading

variable {b b' : Nat}

/-- A reading without its proof. -/
def outcome : Reading b → Outcome
  | .done e trail rest _ => ⟨.ok e, trail, rest⟩
  | .failed error trail rest => ⟨.error error, trail, rest⟩

/-- The expression is complete here. -/
def stop (e : Expr) (rest : List Token) : Reading (Token.weigh rest + 1) :=
  .done e [] rest (Nat.lt_succ_self _)

/-- The reading when `tokens` were left behind before. -/
def after (tokens : List Token) (r : Reading b)
    (le : b ≤ b' := by
      simp only [Token.weigh, Token.weight, Phrase.grace, List.length_cons] <;> omega) :
    Reading b' :=
  match r with
  | .done e trail rest lighter => .done e (tokens ++ trail) rest (Nat.lt_of_lt_of_le lighter le)
  | .failed error trail rest => .failed error (tokens ++ trail) rest

/-- The reading with its expression changed. -/
def map (f : Expr → Expr) : Reading b → Reading b
  | .done e trail rest lighter => .done (f e) trail rest lighter
  | .failed error trail rest => .failed error trail rest

/-- Reads on after a success.  What is read next may use that fewer tokens are left. -/
def andThen (r : Reading b)
    (next : Expr → (rest : List Token) → Token.weigh rest < b → Reading (Token.weigh rest + 1)) :
    Reading b :=
  match r with
  | .done e trail rest lighter => (next e rest lighter).after trail lighter
  | .failed error trail rest => .failed error trail rest

/-- Expects the token that closes a group, and stays in front of any other token. -/
def close (token : Token) (e : Expr) : (ts : List Token) → Reading (Token.weigh ts + 1)
  | [] => .failed .unclosedGroup [] []
  | t :: ts => if t = token then (stop e ts).after [t] else .failed .unclosedGroup [] (t :: ts)

end Reading

end MathExpr
