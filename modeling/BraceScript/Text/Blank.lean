import BraceScript.Text.Spans

/-!
# Blank characters

The white space of the interactive session and of number text: the ASCII controls from tab to
carriage return and from the file separator to the space, and the white space of Unicode 14.
-/

namespace BraceScript.Text

/-- Every blank character. -/
def blankSpans : Spans :=
  [(0x9, 0xd), (0x1c, 0x20), (0x85, 0x85), (0xa0, 0xa0), (0x1680, 0x1680), (0x2000, 0x200a),
   (0x2028, 0x2029), (0x202f, 0x202f), (0x205f, 0x205f), (0x3000, 0x3000)]

/-- Whether a character is white space in any script. -/
def isBlank (c : Char) : Bool := blankSpans.covers c.toNat

/-- The text without the blanks at its start. -/
def trimLeft (cs : List Char) : List Char := cs.dropWhile isBlank

/-- The text without the blanks at its two ends. -/
def trim (cs : List Char) : List Char :=
  ((trimLeft cs).reverse.dropWhile isBlank).reverse

/-- Splits at the first run of blanks: the word before it, and what follows the run. -/
def splitWord (cs : List Char) : List Char × List Char :=
  (cs.takeWhile (!isBlank ·), trimLeft (cs.dropWhile (!isBlank ·)))

end BraceScript.Text
