/-!
# Clipped text

What remains of a text where only so many bytes of its encoding are kept.
-/

namespace Triangle.Text

/-- The characters whose bytes all fit into the given room.  A character that is cut into leaves
a replacement character. -/
def clip : Nat → List Char → List Char
  | _, [] => []
  | 0, _ => []
  | room, c :: rest =>
    if c.utf8Size ≤ room then c :: clip (room - c.utf8Size) rest
    else [Char.ofNat 0xfffd]

end Triangle.Text
