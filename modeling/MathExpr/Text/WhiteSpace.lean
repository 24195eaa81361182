import MathExpr.Text.Ranges

/-!
# White space

Blanks between tokens, and around numerals, are the characters with the Unicode property
`White_Space`.  It holds the no-break spaces and the separators of lines and paragraphs, and leaves
out the zero-width characters.

* `whiteSpaceRanges`, `isWhiteSpace` — the property as a table and as a test.
* `trim` — a text without the white space at its two ends.
-/

namespace MathExpr.Text

/-- The characters with the property `White_Space`, as ascending ranges of code points. -/
def whiteSpaceRanges : CodePointRanges :=
  [(0x9, 0xD), (0x20, 0x20), (0x85, 0x85), (0xA0, 0xA0), (0x1680, 0x1680), (0x2000, 0x200A),
   (0x2028, 0x2029), (0x202F, 0x202F), (0x205F, 0x205F), (0x3000, 0x3000)]

/-- Whether `c` has the property `White_Space`. -/
def isWhiteSpace (c : Char) : Bool :=
  whiteSpaceRanges.contains c

/-- The text without the white space at its start and at its end. -/
def trim (text : List Char) : List Char :=
  ((text.dropWhile isWhiteSpace).reverse.dropWhile isWhiteSpace).reverse

end MathExpr.Text
