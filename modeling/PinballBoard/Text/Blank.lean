/-!
# White space

Numbers that a person types arrive with white space around them, and white space means the
Unicode property `White_Space` here, which is wider than the four characters of ASCII: it holds the
no-break space and the ideographic space, but not the zero width space.

`trim` works on lists of characters, because everything that reads a number does.
-/

namespace PinballBoard.Text

/-- The characters with the Unicode property `White_Space`. -/
def isBlank (c : Char) : Bool :=
  let n := c.toNat
  (0x09 ≤ n && n ≤ 0x0d) || n == 0x20 || n == 0x85 || n == 0xa0 || n == 0x1680 ||
    (0x2000 ≤ n && n ≤ 0x200a) || n == 0x2028 || n == 0x2029 || n == 0x202f || n == 0x205f ||
    n == 0x3000

/-- Drop the white space at both ends. -/
def trim (s : List Char) : List Char :=
  ((s.dropWhile isBlank).reverse.dropWhile isBlank).reverse

end PinballBoard.Text
