/-!
# Limits of the machine

What the target machine can hold, and the sizes in words of what the run-time keeps on its stack.
-/

namespace Triangle.Machine

/-- The greatest integer of the language. -/
def maxint : Int := 32767

/-- The number of instructions the code store holds. -/
def codeSize : Nat := 1024

/-- The greatest value that the length field of an instruction is given. -/
def maxLength : Int := 255

/-- The number of routines that may be nested in each other. -/
def maxRoutineLevel : Nat := 7

/-- The words at the base of a routine's frame: dynamic link, static link, return address. -/
def linkDataSize : Int := 3

/-- The words of a routine passed as an argument: static link and entry address. -/
def closureSize : Int := 2

/-- The words of an address. -/
def addressSize : Int := 1

/-- The words of a value of primitive type. -/
def primitiveSize : Int := 1

end Triangle.Machine
