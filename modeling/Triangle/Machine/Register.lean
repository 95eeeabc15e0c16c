/-!
# Registers

The registers of the machine.  Those that follow the static chain of a frame, from the frame
itself outwards, make up its display.
-/

namespace Triangle

/-- A register. -/
inductive Register where
  /-- Base and top of the code. -/
  | cb | ct
  /-- Base and top of the primitive routines. -/
  | pb | pt
  /-- Base and top of the stack. -/
  | sb | st
  /-- Base and top of the heap. -/
  | hb | ht
  /-- Base of the topmost frame, and of the frames around it. -/
  | lb | l1 | l2 | l3 | l4 | l5 | l6
  /-- The next instruction. -/
  | cp
deriving DecidableEq

namespace Register

/-- The registers, by their codes. -/
def all : List Register :=
  [cb, ct, pb, pt, sb, st, hb, ht, lb, l1, l2, l3, l4, l5, l6, cp]

/-- The code of a register. -/
def code : Register → Nat
  | cb => 0
  | ct => 1
  | pb => 2
  | pt => 3
  | sb => 4
  | st => 5
  | hb => 6
  | ht => 7
  | lb => 8
  | l1 => 9
  | l2 => 10
  | l3 => 11
  | l4 => 12
  | l5 => 13
  | l6 => 14
  | cp => 15

/-- The register with a given code. -/
def ofCode? (code : Int) : Option Register :=
  if code < 0 then none else all[code.toNat]?

/-- The name of a register. -/
def name : Register → String
  | cb => "CB"
  | ct => "CT"
  | pb => "PB"
  | pt => "PT"
  | sb => "SB"
  | st => "ST"
  | hb => "HB"
  | ht => "HT"
  | lb => "LB"
  | l1 => "L1"
  | l2 => "L2"
  | l3 => "L3"
  | l4 => "L4"
  | l5 => "L5"
  | l6 => "L6"
  | cp => "CP"

/-- The register for the frame that is a number of levels out. -/
def display? (levels : Nat) : Option Register :=
  [lb, l1, l2, l3, l4, l5, l6][levels]?

@[simp] theorem ofCode?_code (register : Register) : ofCode? register.code = some register := by
  cases register <;> rfl

end Register

end Triangle
