import MathExpr.Expr.Basic
import MathExpr.Text.Quoted

/-!
# Describing expressions

Messages about an expression that should not have been there show it node by node, with every field
named.  Texts are quoted.

* `Expr.describe` — the description.
-/

namespace MathExpr

/-- The capitalized name of an operator. -/
def Operator.describe : Operator → String
  | .add => "Add"
  | .mul => "Mul"
  | .div => "Div"
  | .pow => "Pow"
  | .neg => "Neg"
  | .pos => "Pos"
  | .abs => "Abs"
  | .fact => "Fact"
  | .nthRoot => "NthRoot"
  | .eq => "Eq"
  | .ne => "Ne"
  | .lt => "Lt"
  | .le => "Le"
  | .gt => "Gt"
  | .ge => "Ge"

/-- The description of an application, from those of its head and of its operands. -/
def describeApplication (head : String) (args : List String) (marks : Marks) : String :=
  "Apply(Apply \x7b op: " ++ head ++ ", args: [" ++ ", ".intercalate args ++ "], implicit: " ++
    toString marks.juxtaposed ++ ", was_minus: " ++ toString marks.subtracted ++ " \x7d)"

/-- The description of an identifier, from its name and the description of its subscript. -/
def describeIdentifier (name : String) (subscript : String) : String :=
  "Identifier \x7b name: " ++ Text.quoted name ++ ", subscript: " ++ subscript ++ " \x7d"

namespace Expr

mutual

/-- An expression node by node. -/
def describe : Expr → String
  | .number numeral => "Number(" ++ Text.quoted numeral ++ ")"
  | .identifier name subscript =>
    "Identifier(" ++ describeIdentifier name (describeOption subscript) ++ ")"
  | .apply op args marks => describeApplication op.describe (describeAll args) marks
  | .call name subscript args marks =>
    describeApplication ("Function(" ++ describeIdentifier name (describeOption subscript) ++ ")")
      (describeAll args) marks
  | .parens body => "Parentheses(" ++ body.describe ++ ")"

/-- A subscript, or the word for its absence. -/
def describeOption : Option Expr → String
  | none => "None"
  | some e => "Some(" ++ e.describe ++ ")"

/-- Each expression of a list. -/
def describeAll : List Expr → List String
  | [] => []
  | e :: es => e.describe :: describeAll es

end

end Expr

end MathExpr
