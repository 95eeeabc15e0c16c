import Triangle.Machine.Register
import Triangle.Word

/-!
# Frames

Where data is while a program runs: how deep the routine it belongs to is nested, and how far it
is from the base of that routine's frame.  A frame tells how deep the code being generated is
nested, and how many words lie in its frame at that point.
-/

namespace Triangle

/-- An address of data, or of a routine. -/
structure Address where
  /-- How deep the routine it belongs to is nested; zero is the main program. -/
  level : Nat
  displacement : Int
deriving DecidableEq

/-- The frame of a routine at some point of its code. -/
structure Frame where
  level : Nat
  /-- The number of words in it. -/
  size : Int
deriving DecidableEq

namespace Frame

/-- The deepest level. -/
def maxLevel : Nat := 255

/-- The frame of the main program at its start. -/
def global : Frame := ⟨0, 0⟩

/-- The frame of a routine that is declared here. -/
def push (frame : Frame) (size : Int) : Checked Frame :=
  if frame.level < maxLevel then .ok ⟨frame.level + 1, size⟩ else .error .add

/-- The frame after some words were pushed. -/
def expand (frame : Frame) (size : Int) : Checked Frame := do
  return ⟨frame.level, ← Word.add frame.size size⟩

/-- The address of the next word. -/
def top (frame : Frame) : Address :=
  ⟨frame.level, frame.size⟩

/-- The register by which the code in a frame reaches an address. -/
def display? (frame : Frame) (address : Address) : Option Register :=
  if address.level = 0 then some .sb
  else if address.level ≤ frame.level then Register.display? (frame.level - address.level)
  else none

end Frame

end Triangle
