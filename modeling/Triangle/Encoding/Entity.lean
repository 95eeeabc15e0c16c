import Triangle.Encoding.Frame
import Triangle.Machine.Limits
import Triangle.Machine.Primitive
import Triangle.Typing.Meaning

/-!
# Entities

How the code gets at what a declaration or a parameter stands for.
-/

namespace Triangle

/-- What a declared name is while a program runs. -/
inductive Entity where
  /-- A value that is part of the code. -/
  | knownValue (value : Int)
  /-- A value at an address. -/
  | unknownValue (address : Address)
  /-- A variable at an address. -/
  | knownAddress (address : Address)
  /-- A variable whose address is at an address. -/
  | unknownAddress (address : Address)
  /-- A routine of the program. -/
  | knownRoutine (address : Address)
  /-- A routine whose closure is at an address. -/
  | unknownRoutine (address : Address)
  /-- A routine of the machine. -/
  | primitive (routine : Primitive)
  /-- A comparison of two values of any size. -/
  | equality (routine : Primitive)
  /-- Something that code never refers to. -/
  | unrepresented
deriving DecidableEq

namespace Standard

/-- The value of a standard constant. -/
def value? : Standard → Option Int
  | false_ => some 0
  | true_ => some 1
  | maxint => some Machine.maxint
  | _ => none

/-- The routine behind a standard operator, function or procedure. -/
def primitive? : Standard → Option Primitive
  | not_ => some .not
  | and_ => some .and
  | or_ => some .or
  | add => some .add
  | sub => some .sub
  | mult => some .mult
  | div => some .div
  | mod => some .mod
  | lt => some .lt
  | le => some .le
  | gt => some .gt
  | ge => some .ge
  | eq => some .eq
  | ne => some .ne
  | chr | ord => some .id
  | eof => some .eof
  | eol => some .eol
  | get => some .get
  | put => some .put
  | getint => some .getint
  | putint => some .putint
  | geteol => some .geteol
  | puteol => some .puteol
  | boolean | char | integer | false_ | true_ | maxint => none

end Standard

/-- What a standard declaration stands for. -/
def Entity.ofStandard (declaration : Standard) : Entity :=
  match declaration.value? with
  | some value => .knownValue value
  | none =>
    match declaration.primitive? with
    | some routine =>
      if declaration = .eq ∨ declaration = .ne then .equality routine else .primitive routine
    | none => .unrepresented

end Triangle
