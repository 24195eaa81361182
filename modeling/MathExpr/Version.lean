/-!
# The version of the library

* `version` — its number.
-/

namespace MathExpr

/-- The version that this library answers to. -/
def version : String :=
  "0.1.0"

end MathExpr
