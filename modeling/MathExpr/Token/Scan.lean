import MathExpr.Error
import MathExpr.Text.Alphabetic
import MathExpr.Text.WhiteSpace
import MathExpr.Token.Basic

/-!
# Grouping characters into tokens

White space separates tokens and is dropped.  Numerals and words are longest runs, and a relation of
two characters is taken before one of a single character.

* `Token.ofSign`, `Token.first` — the token that a text without leading white space begins with.
* `Token.length_le_of_first` — taking a token leaves a shorter text, which is why scanning ends.
* `Token.ofChars`, `Token.ofText` — all tokens of a text.
-/

namespace MathExpr.Token

open Text

/-- The characters that a numeral is a run of. -/
def isNumeralChar (c : Char) : Bool :=
  c.isDigit || c == '.'

/-- Whether a text begins with a numeral: with a digit, or with a point and then a digit. -/
def startsNumeral : List Char → Bool
  | [] => false
  | [c] => c.isDigit
  | c :: d :: _ => c.isDigit || c == '.' && d.isDigit

/-- The sign or relation that the text `c :: cs` begins with, and what follows it. -/
def ofSign : (c : Char) → (cs : List Char) → Except ReadError (Token × List Char)
  | '<', '=' :: cs => .ok (.relation "<=", cs)
  | '>', '=' :: cs => .ok (.relation ">=", cs)
  | '!', '=' :: cs => .ok (.relation "!=", cs)
  | '<', cs => .ok (.relation "<", cs)
  | '>', cs => .ok (.relation ">", cs)
  | '=', cs => .ok (.relation "=", cs)
  | '!', cs => .ok (.bang, cs)
  | c, cs =>
    match ofChar? c with
    | some t => .ok (t, cs)
    | none => .error (.unexpectedCharacter c)

/-- The token that the text `c :: cs` begins with, and what follows it, for a `c` that is no white
space. -/
def first (c : Char) (cs : List Char) : Except ReadError (Token × List Char) :=
  if startsNumeral (c :: cs) then
    if 1 < ((c :: cs).takeWhile isNumeralChar).count '.' then .error .malformedNumber
    else .ok (.number (String.ofList ((c :: cs).takeWhile isNumeralChar)),
      (c :: cs).dropWhile isNumeralChar)
  else if isAlphabetic c then
    .ok (.word ((c :: cs).takeWhile isAlphabetic), (c :: cs).dropWhile isAlphabetic)
  else ofSign c cs

theorem length_le_of_ofSign {c : Char} {cs rest : List Char} {t : Token}
    (h : ofSign c cs = .ok (t, rest)) : rest.length ≤ cs.length := by
  unfold ofSign at h
  split at h
  case h_8 => split at h <;> simp_all
  all_goals grind

theorem isNumeralChar_of_startsNumeral {c : Char} {cs : List Char}
    (h : startsNumeral (c :: cs) = true) : isNumeralChar c = true := by
  cases cs <;> grind [startsNumeral, isNumeralChar]

/-- Taking a token leaves a shorter text. -/
theorem length_le_of_first {c : Char} {cs rest : List Char} {t : Token}
    (h : first c cs = .ok (t, rest)) : rest.length ≤ cs.length := by
  unfold first at h
  split at h
  · next hn =>
    have hc := isNumeralChar_of_startsNumeral hn
    split at h
    · simp at h
    · simp only [List.dropWhile_cons, hc, if_true, Except.ok.injEq, Prod.mk.injEq] at h
      exact h.2 ▸ (List.dropWhile_suffix _).length_le
  · split at h
    · next ha =>
      simp only [List.dropWhile_cons, ha, if_true, Except.ok.injEq, Prod.mk.injEq] at h
      exact h.2 ▸ (List.dropWhile_suffix _).length_le
    · exact length_le_of_ofSign h

/-- The tokens of a text, or the error of its first character that is in no token. -/
def ofChars : List Char → Except ReadError (List Token)
  | [] => .ok []
  | c :: cs =>
    if isWhiteSpace c then ofChars cs
    else match h : first c cs with
      | .error e => .error e
      | .ok (t, rest) =>
        have : rest.length ≤ cs.length := length_le_of_first h
        (ofChars rest).map (t :: ·)
termination_by text => text.length

/-- The tokens of a text. -/
def ofText (text : String) : Except ReadError (List Token) :=
  ofChars text.toList

end MathExpr.Token
