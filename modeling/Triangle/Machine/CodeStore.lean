import Triangle.Machine.Instruction
import Triangle.Machine.Limits

/-!
# The code store

Instructions are stored one after the other, each at the next address.  The store holds
`Machine.codeSize` instructions; it drops the ones that come after that and remembers that there
were some.  A jump to code that is not there yet is stored without a target, which is patched in
once the code has been stored.

`ObjectCode` is what is stored in the end, as it is listed and written.
-/

namespace Triangle

/-- A code store. -/
structure CodeStore where
  /-- What was stored so far. -/
  code : List Instruction := []
  /-- Whether an instruction was dropped. -/
  overflowed : Bool := false

namespace CodeStore

/-- A store without code. -/
def empty : CodeStore := {}

/-- Where the next instruction goes. -/
def nextAddress (store : CodeStore) : Nat :=
  store.code.length

/-- Stores an instruction. -/
def emit (store : CodeStore) (instruction : Instruction) : CodeStore :=
  if store.code.length < Machine.codeSize then
    { store with code := store.code ++ [instruction] }
  else
    { store with overflowed := true }

/-- Makes the next address the operand of the instruction at an address. -/
def patch (store : CodeStore) (label : Nat) : CodeStore :=
  { store with code := store.code.modify label ({ · with d := store.nextAddress }) }

@[simp] theorem overflowed_patch (store : CodeStore) (label : Nat) :
    (store.patch label).overflowed = store.overflowed := rfl

end CodeStore

/-- The code of a program. -/
structure ObjectCode where
  instructions : List Instruction
deriving DecidableEq

namespace ObjectCode

/-- No code. -/
def empty : ObjectCode := ⟨[]⟩

/-- The bytes of the object file. -/
def bytes (object : ObjectCode) : List UInt8 :=
  object.instructions.flatMap Instruction.bytes

/-- The line for the instruction at an address. -/
def listingLine (address : Nat) (instruction : Instruction) : String :=
  Text.alignRight 4 (toString address) ++ ":  " ++ instruction.describe ++ "\n"

/-- The code as text, a line for each instruction. -/
def listing (object : ObjectCode) : String :=
  String.join (object.instructions.mapIdx listingLine)

end ObjectCode

/-- What a code store holds in the end. -/
def CodeStore.object (store : CodeStore) : ObjectCode :=
  ⟨store.code⟩

end Triangle
