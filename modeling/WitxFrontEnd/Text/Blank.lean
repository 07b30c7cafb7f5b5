/-!
# Blank characters

The characters that trimming removes and that count as indentation: the white space of Unicode
and the four information separators U+001C to U+001F. The white space that separates tokens is
a smaller set and belongs to the scanner.
-/

namespace WitxFrontEnd.Text

/-- A character that trimming removes. -/
def isBlank (c : Char) : Bool :=
  let n := c.toNat
  (0x09 ≤ n && n ≤ 0x0D) || (0x1C ≤ n && n ≤ 0x20) || n == 0x85 || n == 0xA0 || n == 0x1680 ||
    (0x2000 ≤ n && n ≤ 0x200A) || n == 0x2028 || n == 0x2029 || n == 0x202F || n == 0x205F ||
    n == 0x3000

/-- The text without the blanks at its end. -/
def trimRight (cs : List Char) : List Char :=
  (cs.reverse.dropWhile isBlank).reverse

/-- The number of blanks that a text starts with. -/
def indentation (cs : List Char) : Nat :=
  (cs.takeWhile isBlank).length

end WitxFrontEnd.Text
