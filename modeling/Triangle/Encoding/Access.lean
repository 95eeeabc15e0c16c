import Triangle.Diagnostic.Problem
import Triangle.Encoding.Entity
import Triangle.Machine.CodeStore
import Triangle.Typing.Annotations

/-!
# Code for the use of entities

The steps of which code generation is made up: storing an instruction, calling a routine, and
fetching from and storing into what a V-name stands for.

A V-name stands for a part of an entity.  `Access` says which part: a fixed offset, and whether a
computed index lies on the stack.  What does not fit the machine is reported, and the code goes on
with something that fits.
-/

namespace Triangle

/-- What code generation has at hand. -/
structure EncodeState where
  store : CodeStore
  /-- What the declarations and parameters so far stand for. -/
  entities : NodeMap Entity
  log : Log Problem

/-- A step of code generation. -/
abbrev Encode := StateT EncodeState Checked

/-- The part of an entity that a V-name stands for. -/
structure Access where
  entity : Entity
  /-- The words before it, as far as they are known. -/
  offset : Int
  /-- Whether a number of further words lies on the stack. -/
  indexed : Bool

namespace Encode

/-! ## Instructions -/

/-- Stores an instruction. -/
def emit (op : Opcode) (r : Register) (n d : Int) : Encode Unit :=
  modify fun state => { state with store := state.store.emit ⟨op, r, n, d⟩ }

/-- The address of the next instruction. -/
def nextAddress : Encode Nat := do
  return (← get).store.nextAddress

/-- Stores a jump whose target comes later, and gives its address. -/
def forward (op : Opcode) (n : Int) : Encode Nat := do
  let label ← nextAddress
  emit op .cb n 0
  return label

/-- Makes the next address the target of the jump at an address. -/
def patch (label : Nat) : Encode Unit :=
  modify fun state => { state with store := state.store.patch label }

/-- Pushes a number. -/
def literal (value : Int) : Encode Unit :=
  emit .loadl .cb 0 value

/-! ## Limits of the machine -/

/-- Reports what the machine does not allow. -/
def restrict (span : Span) (restriction : Restriction) : Encode Unit :=
  modify fun state => { state with log := state.log.report span (.restriction restriction) }

/-- A number of words that one instruction can move. -/
def limit (size : Int) (span : Span) : Encode Int := do
  if size > Machine.maxLength then
    restrict span .valueTooLarge
    return Machine.maxLength
  else
    return size

/-- The register by which the code in a frame reaches an address. -/
def display (frame : Frame) (address : Address) (span : Span) : Encode Register := do
  match frame.display? address with
  | some register => return register
  | none =>
    restrict span .outOfReach
    return .l6

/-! ## Entities -/

/-- Files what a declaration or a parameter stands for. -/
def represent (id : NodeId) (entity : Entity) : Encode Unit :=
  modify fun state => { state with entities := state.entities.insert id entity }

/-- What a name or operator stands for. -/
def entityOf (annotations : Annotations) (name : Terminal) : Encode Entity := do
  match annotations.referentOf? name.mark.id with
  | some (.node id) => return ((← get).entities.get? id).getD .unrepresented
  | some (.standard declaration) => return .ofStandard declaration
  | none => return .unrepresented

/-! ## Routines -/

/-- Calls a routine of the machine; the one that does nothing needs no call. -/
def callPrimitive (routine : Primitive) : Encode Unit :=
  unless routine = .id do
    emit .call .pb (Register.sb.code) routine.displacement

/-- Calls a routine whose arguments, a number of words, are on the stack. -/
def call (entity : Entity) (frame : Frame) (arguments : Int) (span : Span) : Encode Unit := do
  match entity with
  | .knownRoutine address =>
    let link ← display frame address span
    emit .call .cb link.code address.displacement
  | .unknownRoutine address =>
    let register ← display frame address span
    emit .load register Machine.closureSize address.displacement
    emit .calli .cb 0 0
  | .primitive routine => callPrimitive routine
  | .equality routine =>
    literal (arguments.tdiv 2)
    callPrimitive routine
  | _ => return

/-- Pushes the closure of a routine. -/
def fetchRoutine (entity : Entity) (frame : Frame) (span : Span) : Encode Unit := do
  match entity with
  | .knownRoutine address =>
    let link ← display frame address span
    emit .loada link 0 0
    emit .loada .cb 0 address.displacement
  | .unknownRoutine address =>
    let register ← display frame address span
    emit .load register Machine.closureSize address.displacement
  | .primitive routine =>
    emit .loada .sb 0 0
    emit .loada .pb 0 routine.displacement
  | _ => return

/-! ## Values and variables -/

/-- Pushes the address of the part of a variable whose own address is at an address. -/
def indirectAddress (access : Access) (address : Address) (frame : Frame) (span : Span) :
    Encode Unit := do
  let register ← display frame address span
  emit .load register Machine.addressSize address.displacement
  if access.indexed then
    callPrimitive .add
  if access.offset ≠ 0 then
    literal access.offset
    callPrimitive .add

/-- Moves words between the stack and an address: with one instruction where the address is
fixed, and with another where an index has to be added to it. -/
def move (direct indirect : Opcode) (access : Access) (address : Address) (size : Int)
    (frame : Frame) (span : Span) : Encode Unit := do
  let register ← display frame address span
  let displacement ← Word.add address.displacement access.offset
  if access.indexed then
    emit .loada register 0 displacement
    callPrimitive .add
    emit indirect .cb size 0
  else
    emit direct register size displacement

/-- Pushes a value. -/
def fetch (access : Access) (size : Int) (frame : Frame) (span : Span) : Encode Unit := do
  let size ← limit size span
  match access.entity with
  | .knownValue value => literal value
  | .unknownValue address | .knownAddress address =>
    move .load .loadi access address size frame span
  | .unknownAddress address =>
    indirectAddress access address frame span
    emit .loadi .cb size 0
  | _ => return

/-- Pops a value into a variable. -/
def store (access : Access) (size : Int) (frame : Frame) (span : Span) : Encode Unit := do
  let size ← limit size span
  match access.entity with
  | .knownAddress address => move .store .storei access address size frame span
  | .unknownAddress address =>
    indirectAddress access address frame span
    emit .storei .cb size 0
  | _ => return

/-- Pushes the address of a variable. -/
def fetchAddress (access : Access) (frame : Frame) (span : Span) : Encode Unit := do
  match access.entity with
  | .unknownValue address | .knownAddress address =>
    let register ← display frame address span
    emit .loada register 0 (← Word.add address.displacement access.offset)
    if access.indexed then
      callPrimitive .add
  | .unknownAddress address => indirectAddress access address frame span
  | _ => return

end Encode

end Triangle
