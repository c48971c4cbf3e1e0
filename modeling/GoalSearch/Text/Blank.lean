/-!
# Blank characters

The characters that may surround a number: the blank and the layout characters of ASCII, and beyond
ASCII the characters that Unicode calls white space.
-/

namespace GoalSearch.Text

/-- Blank, or one of the layout characters from the tab to the carriage return. -/
def isAsciiBlank (c : Char) : Bool := c == ' ' || (9 ≤ c.toNat && c.toNat ≤ 13)

def wideBlanks : List Nat :=
  [0x85, 0xA0, 0x1680, 0x2000, 0x2001, 0x2002, 0x2003, 0x2004, 0x2005, 0x2006, 0x2007, 0x2008,
    0x2009, 0x200A, 0x2028, 0x2029, 0x202F, 0x205F, 0x3000]

def isBlank (c : Char) : Bool := isAsciiBlank c || wideBlanks.contains c.toNat

def trim (cs : List Char) : List Char :=
  ((cs.dropWhile isBlank).reverse.dropWhile isBlank).reverse

end GoalSearch.Text
