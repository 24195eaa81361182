import MathExpr.Expr.Basic
import MathExpr.Text.Alphabetic

/-!
# Printing expressions

An expression is printed as text in the notation it is read from.  An operand that binds more
loosely than its place allows is put in parentheses.  The rest is a matter of style: whether factors
without a sign between them are set apart by a space, and whether signs have spaces around them.

* `Style` — the choices.
* `Binding`, `Expr.binding` — how tightly each kind of expression holds together.
* `Expr.chars`, `Expr.print` — an expression's text; the default style also serves `toString`.
* `Printer` — any way to turn expressions into texts.
-/

namespace MathExpr

/-- What is open in the printed form of an expression. -/
structure Style where
  /-- Whether a space separates factors that have no sign between them.  Two digits are separated in
  any case, since `2 3` and `23` differ. -/
  spacedFactors : Bool := true
  /-- Whether a sign between operands has a space on either side. -/
  spacedSigns : Bool := true
deriving DecidableEq, Repr

/-- How tightly an expression holds together, loosest first. -/
inductive Binding
  | relation
  | sum
  | product
  | sign
  | juxtaposition
  | power
  | factorial
  | whole
deriving DecidableEq, Repr

namespace Binding

/-- The place of a binding among all, from loose to tight. -/
def rank : Binding → Nat
  | .relation => 0
  | .sum => 1
  | .product => 2
  | .sign => 3
  | .juxtaposition => 4
  | .power => 5
  | .factorial => 6
  | .whole => 7

instance : LT Binding := ⟨fun a b => a.rank < b.rank⟩

instance (a b : Binding) : Decidable (a < b) := inferInstanceAs (Decidable (a.rank < b.rank))

end Binding

/-- How tightly the operands of an operator hold together. -/
def Operator.binding (op : Operator) (marks : Marks) : Binding :=
  match op with
  | .eq | .ne | .lt | .le | .gt | .ge => .relation
  | .add => .sum
  | .mul => if marks.juxtaposed then .juxtaposition else .product
  | .div => .product
  | .neg | .pos => .sign
  | .pow => .power
  | .fact => .factorial
  | .abs | .nthRoot => .whole

namespace Expr

/-- How tightly an expression holds together. -/
def binding : Expr → Binding
  | .apply op _ marks => op.binding marks
  | _ => .whole

/-- How tightly an expression has to hold together to stand as an exponent without parentheses.  A
signed exponent needs none, since a sign right after `^` can only belong to the exponent. -/
def leastAsExponent : Expr → Binding
  | .apply .neg _ _ => .sign
  | .apply .pos _ _ => .sign
  | _ => .power

end Expr

namespace Style

/-- A sign between two operands. -/
def sign (style : Style) (symbol : String) : List Char :=
  if style.spacedSigns then ' ' :: symbol.toList ++ [' '] else symbol.toList

/-- Texts with a separator between them. -/
def join (separator : List Char) : List (List Char) → List Char
  | [] => []
  | [text] => text
  | text :: texts => text ++ separator ++ join separator texts

/-- A text in parentheses. -/
def parenthesize (text : List Char) : List Char :=
  '(' :: text ++ [')']

/-- Arguments between parentheses, separated by commas. -/
def arguments (texts : List (List Char)) : List Char :=
  parenthesize (join [',', ' '] texts)

/-- Whether text printed so far ends with a digit and a factor begins with a digit or a point.
`written` is that text backwards. -/
def digitsMeet (written factor : List Char) : Bool :=
  match written, factor with
  | c :: _, d :: _ => c.isDigit && (d.isDigit || d == '.')
  | _, _ => false

/-- Splits the last letter off a run of two or more letters that ends the text, so that a
parenthesis after it does not turn the run into the name of a function.  `written` is the text
backwards. -/
def splitLetters : (written : List Char) → List Char
  | c :: d :: written =>
    if Text.isAlphabetic c && Text.isAlphabetic d then c :: ' ' :: d :: written
    else c :: d :: written
  | written => written

/-- Places one more factor beside those already printed.  `written` is the text so far backwards,
and so is the answer. -/
def placeFactor (style : Style) (written factor : List Char) : List Char :=
  if written.isEmpty then factor.reverse
  else
    let spaced := if style.spacedFactors || digitsMeet written factor then ' ' :: written
      else written
    let split := if factor.head? = some '(' then splitLetters spaced else spaced
    factor.reverse ++ split

/-- Factors side by side. -/
def juxtapose (style : Style) (factors : List (List Char)) : List Char :=
  (factors.foldl style.placeFactor []).reverse

end Style

namespace Expr

/-- The text of an expression with the binding `b` at a place that needs at least `least`. -/
def bracket (b least : Binding) (text : List Char) : List Char :=
  if b < least then Style.parenthesize text else text

mutual

/-- The characters of an expression's printed form. -/
def chars (style : Style) : Expr → List Char
  | .number numeral => numeral.toList
  | .identifier name subscript => name.toList ++ subscriptChars style subscript
  | .parens body => Style.parenthesize (body.chars style)
  | .call name subscript args _ =>
    name.toList ++ subscriptChars style subscript ++ Style.arguments (charsAt style .relation args)
  | .apply op args marks =>
    match op, args with
    | .add, [] => []
    | .add, term :: terms =>
      bracket term.binding .product (term.chars style) ++ termsChars style terms
    | .mul, args =>
      if marks.juxtaposed then style.juxtapose (charsAt style .power args)
      else Style.join (style.sign "*") (charsAt style .sign args)
    | .div, [numerator, denominator] =>
      bracket numerator.binding .product (numerator.chars style) ++ style.sign "/" ++
        bracket denominator.binding .sign (denominator.chars style)
    | .div, args => "div".toList ++ Style.arguments (charsAt style .relation args)
    | .pow, [base, exponent] =>
      bracket base.binding .factorial (base.chars style) ++ '^' ::
        bracket exponent.binding exponent.leastAsExponent (exponent.chars style)
    | .pow, args => "pow".toList ++ Style.arguments (charsAt style .relation args)
    | .neg, args => '-' :: (charsAt style .sign args).headD []
    | .pos, args => '+' :: (charsAt style .sign args).headD []
    | .fact, args => (charsAt style .factorial args).headD [] ++ ['!']
    | .abs, args => '|' :: Style.join [',', ' '] (charsAt style .relation args) ++ ['|']
    | .nthRoot, args => "nthRoot".toList ++ Style.arguments (charsAt style .relation args)
    | relation, args =>
      Style.join (style.sign (relation.relationSymbol?.getD "")) (charsAt style .sum args)

/-- The characters of a subscript with the sign in front of it. -/
def subscriptChars (style : Style) : Option Expr → List Char
  | none => []
  | some e => '_' :: bracket e.binding .whole (e.chars style)

/-- The characters of each expression of a list, at a place that needs at least `least`. -/
def charsAt (style : Style) (least : Binding) : List Expr → List (List Char)
  | [] => []
  | e :: es => bracket e.binding least (e.chars style) :: charsAt style least es

/-- The characters of the terms after the first of a sum, each with the sign in front of it. -/
def termsChars (style : Style) : List Expr → List Char
  | [] => []
  | .apply .neg args ⟨_, true⟩ :: terms =>
    style.sign "-" ++ (charsAt style .product args).headD [] ++ termsChars style terms
  | term :: terms =>
    style.sign "+" ++ bracket term.binding .product (term.chars style) ++ termsChars style terms

end

/-- An expression as text. -/
def print (style : Style) (e : Expr) : String :=
  String.ofList (e.chars style)

instance : ToString Expr := ⟨print {}⟩

end Expr

/-- A way to turn expressions into texts.  Expressions with equal texts count as the same wherever a
printer is asked. -/
abbrev Printer := Expr → String

end MathExpr
