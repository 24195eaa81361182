import MathExpr.Expr.Base
import MathExpr.Expr.Degree
import MathExpr.Expr.Negation
import MathExpr.Expr.Value
import MathExpr.LikeTerms.Decomposition
import MathExpr.Phrase.Equations
import MathExpr.Reader
import MathExpr.Version
import MathExpr.Proofs.Grammar.Basic
import MathExpr.Proofs.Grammar.Soundness
import MathExpr.Proofs.Grammar.Completeness
import MathExpr.Proofs.Grammar.Progress
import MathExpr.Proofs.Grammar.Beginnings
import MathExpr.Proofs.LikeTerms.Conservation
import MathExpr.Proofs.LikeTerms.FactorOrder
import MathExpr.Proofs.Printing.Faithful
import MathExpr.Proofs.Printing.NormalForm
import MathExpr.Proofs.Printing.Styles
import MathExpr.Proofs.LikeTerms.Appending
import MathExpr.Proofs.LikeTerms.Contents
import MathExpr.Proofs.LikeTerms.Keys
import MathExpr.Proofs.LikeTerms.Exposed
import MathExpr.Proofs.LikeTerms.Reprinting
import MathExpr.Proofs.Grammar.Attempts
import MathExpr.Proofs.Grammar.Leaves
import MathExpr.Proofs.Printing.Canonical
import MathExpr.Proofs.Printing.Nesting
import MathExpr.Proofs.Scanning.Runs
import MathExpr.Proofs.Scanning.Barriers
import MathExpr.Proofs.Terms.Accounting
import MathExpr.Proofs.Terms.Negation
import MathExpr.Proofs.LikeTerms.Grouping
import MathExpr.Proofs.Terms.Opposite
import MathExpr.Proofs.Terms.LikeOpposites
import MathExpr.Proofs.Printing.Compact
import MathExpr.Proofs.Decimals.Places
import MathExpr.Proofs.Decimals.Rounding
import MathExpr.Proofs.Decimals.Counting
import MathExpr.Proofs.Decimals.Exactness
import MathExpr.Proofs.Decimals.Exponents
import MathExpr.Proofs.Decimals.Classification
import MathExpr.Proofs.Decimals.Writing
import MathExpr.Proofs.Terms.Recognition
import MathExpr.Proofs.Terms.Degrees
import MathExpr.Proofs.Terms.Bases
