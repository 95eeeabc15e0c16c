import Triangle.Machine.Register
import Triangle.Text.Pad
import Triangle.Word

/-!
# Instructions

An instruction has four fields: an operation, a register, a length and an operand.  The object
file holds each field as a word, the most significant byte first.
-/

namespace Triangle

/-- What an instruction does. -/
inductive Opcode where
  /-- Pushes words from an address. -/
  | load
  /-- Pushes an address. -/
  | loada
  /-- Pops an address and pushes the words there. -/
  | loadi
  /-- Pushes the operand. -/
  | loadl
  /-- Pops words into an address. -/
  | store
  /-- Pops an address, then words into it. -/
  | storei
  /-- Calls the routine at an address. -/
  | call
  /-- Pops a closure and calls it. -/
  | calli
  /-- Returns from a routine. -/
  | return_
  /-- Makes room on the stack. -/
  | push
  /-- Drops what is below the topmost words. -/
  | pop
  /-- Goes to an address. -/
  | jump
  /-- Pops an address and goes there. -/
  | jumpi
  /-- Pops a value and goes to an address if it has the given value. -/
  | jumpif
  /-- Stops. -/
  | halt
deriving DecidableEq

namespace Opcode

/-- The operations, in the order of their codes. -/
def all : List Opcode :=
  [load, loada, loadi, loadl, store, storei, call, calli, return_, push, pop, jump, jumpi,
    jumpif, halt]

/-- The code of an operation; there is no operation with code 9. -/
def code : Opcode → Nat
  | load => 0
  | loada => 1
  | loadi => 2
  | loadl => 3
  | store => 4
  | storei => 5
  | call => 6
  | calli => 7
  | return_ => 8
  | push => 10
  | pop => 11
  | jump => 12
  | jumpi => 13
  | jumpif => 14
  | halt => 15

/-- The operation with a given code. -/
def ofCode? (code : Int) : Option Opcode :=
  all.find? fun opcode => (opcode.code : Int) = code

/-- The name of an operation. -/
def name : Opcode → String
  | load => "LOAD"
  | loada => "LOADA"
  | loadi => "LOADI"
  | loadl => "LOADL"
  | store => "STORE"
  | storei => "STOREI"
  | call => "CALL"
  | calli => "CALLI"
  | return_ => "RETURN"
  | push => "PUSH"
  | pop => "POP"
  | jump => "JUMP"
  | jumpi => "JUMPI"
  | jumpif => "JUMPIF"
  | halt => "HALT"

@[simp] theorem ofCode?_code (opcode : Opcode) : ofCode? opcode.code = some opcode := by
  cases opcode <;> rfl

end Opcode

/-- An instruction of the machine. -/
structure Instruction where
  op : Opcode
  /-- The register that the operand is relative to. -/
  r : Register
  /-- A number of words, the value to jump at, or the code of the register of a static link. -/
  n : Int
  /-- An operand. -/
  d : Int
deriving DecidableEq

/-- The bytes of a word, the most significant first; a negative number stands for its residue
modulo 2 ^ 32. -/
def Word.bytes (n : Int) : List UInt8 :=
  [16777216, 65536, 256, 1].map fun unit => UInt8.ofNat ((n / unit) % 256).toNat

@[simp] theorem Word.length_bytes (n : Int) : (Word.bytes n).length = 4 := by
  simp [Word.bytes]

namespace Instruction

/-- The words of an instruction. -/
def fields (instruction : Instruction) : List Int :=
  [instruction.op.code, instruction.r.code, instruction.n, instruction.d]

/-- The bytes of an instruction. -/
def bytes (instruction : Instruction) : List UInt8 :=
  instruction.fields.flatMap Word.bytes

@[simp] theorem length_bytes (instruction : Instruction) : instruction.bytes.length = 16 := by
  simp [bytes, fields]

/-- A length as it is listed. -/
def lengthText (n : Int) : String :=
  "(" ++ toString n ++ ")"

/-- The register of a static link as it is listed; a code that no register has is listed as a
number. -/
def linkText (n : Int) : String :=
  match Register.ofCode? n with
  | some register => "(" ++ register.name ++ ")"
  | none => lengthText n

/-- An operation and a length, each in its column, with an address. -/
def withAddress (instruction : Instruction) (length : String) : String :=
  Text.alignLeft 8 instruction.op.name ++ Text.alignLeft 6 length ++ " " ++
    toString instruction.d ++ "[" ++ instruction.r.name ++ "]"

/-- An instruction as it is listed: the fields that its operation uses. -/
def describe (instruction : Instruction) : String :=
  match instruction.op with
  | .load | .store | .jumpif => instruction.withAddress (lengthText instruction.n)
  | .call => instruction.withAddress (linkText instruction.n)
  | .loada | .jump => instruction.withAddress ""
  | .loadi | .storei | .pop | .return_ =>
    Text.alignLeft 8 instruction.op.name ++ lengthText instruction.n ++ " " ++
      toString instruction.d
  | .loadl | .push => Text.alignLeft 8 instruction.op.name ++ toString instruction.d
  | .calli | .jumpi | .halt => instruction.op.name

end Instruction

end Triangle
