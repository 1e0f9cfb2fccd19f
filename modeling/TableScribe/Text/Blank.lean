import TableScribe.Text.Flips

/-!
# White space

`isBlank` is the property White_Space; the zero-width space and the byte-order mark are not in it.
`trimStart`, `trimEnd` and `trim` take blanks off the ends of a text.
-/

namespace TableScribe.Text

/-- Where the set of white-space characters begins and ends, by turns. -/
def blankFlips : List Nat := [
  0x9, 0xE, 0x20, 0x21, 0x85, 0x86, 0xA0, 0xA1, 0x1680, 0x1681, 0x2000, 0x200B, 0x2028, 0x202A,
  0x202F, 0x2030, 0x205F, 0x2060, 0x3000, 0x3001
]

def isBlank (c : Char) : Bool :=
  flipsContain blankFlips c.toNat

/-- The text without the blanks it starts with. -/
def trimStart (text : List Char) : List Char :=
  text.dropWhile isBlank

/-- The text without what it ends with of the characters in `p`. -/
def dropEndWhile (p : Char → Bool) (text : List Char) : List Char :=
  (text.reverse.dropWhile p).reverse

/-- The text without the blanks it ends with. -/
def trimEnd (text : List Char) : List Char :=
  dropEndWhile isBlank text

/-- The text without the blanks at either end. -/
def trim (text : List Char) : List Char :=
  trimEnd (trimStart text)

end TableScribe.Text
