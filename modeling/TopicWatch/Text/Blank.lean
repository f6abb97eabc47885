/-!
# White space at the ends of a text

The characters with the Unicode property `White_Space`.
-/

namespace TopicWatch.Blank

/-- The code points that are white space. -/
def table : List Nat :=
  [0x9, 0xA, 0xB, 0xC, 0xD, 0x20, 0x85, 0xA0, 0x1680,
    0x2000, 0x2001, 0x2002, 0x2003, 0x2004, 0x2005, 0x2006, 0x2007, 0x2008, 0x2009, 0x200A,
    0x2028, 0x2029, 0x202F, 0x205F, 0x3000]

/-- Whether a character is white space. -/
def isBlank (c : Char) : Bool := table.contains c.toNat

/-- A list of characters without the white space around it. -/
def trim (cs : List Char) : List Char :=
  ((cs.dropWhile isBlank).reverse.dropWhile isBlank).reverse

example : table.length = 25 := rfl

end TopicWatch.Blank
