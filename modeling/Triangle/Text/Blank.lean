/-!
# Blank characters

The characters that separate tokens without belonging to one.  They are the code points with the
Unicode property `White_Space`, so a no-break space or an ideographic space separates two words
just as a plain space does.
-/

namespace Triangle.Text

/-- The code points with the property `White_Space`, in increasing order. -/
def blankCodes : List Nat :=
  [0x9, 0xa, 0xb, 0xc, 0xd, 0x20, 0x85, 0xa0, 0x1680, 0x2000, 0x2001, 0x2002, 0x2003, 0x2004,
    0x2005, 0x2006, 0x2007, 0x2008, 0x2009, 0x200a, 0x2028, 0x2029, 0x202f, 0x205f, 0x3000]

/-- Whether a character only separates tokens. -/
def isBlank (c : Char) : Bool :=
  blankCodes.contains c.toNat

end Triangle.Text
