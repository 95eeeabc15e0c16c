/-!
# Primitive routines

Routines that the machine itself provides.  They are called like other routines, at addresses
relative to the base of the primitives.
-/

namespace Triangle

/-- A primitive routine. -/
inductive Primitive where
  | id
  | not
  | and
  | or
  | succ
  | pred
  | neg
  | add
  | sub
  | mult
  | div
  | mod
  | lt
  | le
  | ge
  | gt
  | eq
  | ne
  | eol
  | eof
  | get
  | put
  | geteol
  | puteol
  | getint
  | putint
  | new
  | dispose
deriving DecidableEq

/-- The address of a primitive routine. -/
def Primitive.displacement : Primitive → Int
  | id => 1
  | not => 2
  | and => 3
  | or => 4
  | succ => 5
  | pred => 6
  | neg => 7
  | add => 8
  | sub => 9
  | mult => 10
  | div => 11
  | mod => 12
  | lt => 13
  | le => 14
  | ge => 15
  | gt => 16
  | eq => 17
  | ne => 18
  | eol => 19
  | eof => 20
  | get => 21
  | put => 22
  | geteol => 23
  | puteol => 24
  | getint => 25
  | putint => 26
  | new => 27
  | dispose => 28

end Triangle
