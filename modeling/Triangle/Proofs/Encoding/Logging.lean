import Triangle.Proofs.Runs
import Triangle.Encoding.Phrases

/-!
# Code generation with a log

What code generation does on its way cannot all be seen in the code that it leaves behind: which
jumps it patched and how often, which frames it made, which display registers it looked up and from
where.  `Logged` is code generation that tells these things as well.  Forward jumps are told by
`Logged.forward` and `Logged.patch`, frames of routines by `Logged.push` and lookups by
`Logged.display`; what was told is kept even if an overflow ends the run.

There is one logged step for each step that tells something and one logged function for each
function that makes such a step.  Without the log, each phrase is encoded as before
(`Command.erase_logged`).
-/

namespace Triangle

open Encode

/-- What code generation tells about itself. -/
inductive CodeEvent where
  /-- A jump is stored without a target. -/
  | placed (label : Nat)
  /-- A jump gets a target. -/
  | patched (label target : Nat)
  /-- A routine gets a frame. -/
  | entered (frame : Frame)
  /-- The display register for an address is looked up from a frame. -/
  | consulted (frame : Frame) (address : Address)
deriving DecidableEq

/-- A step of code generation that tells what it does. -/
def Logged (α : Type) : Type := EncodeState → Checked (α × EncodeState) × List CodeEvent

namespace Logged

/-- The result of a step, after what has been told. -/
def after {α : Type} (events : List CodeEvent) (end_ : Checked α × List CodeEvent) :
    Checked α × List CodeEvent :=
  (end_.1, events ++ end_.2)

instance : Monad Logged where
  pure a := fun s => (.ok (a, s), [])
  bind x f := fun s =>
    match (x s).1 with
    | .ok (a, t) => after (x s).2 (f a t)
    | .error cause => (.error cause, (x s).2)

/-- A step that tells nothing. -/
instance : MonadLift Encode Logged where
  monadLift x := fun s => (x.run s, [])

/-- Tells something. -/
def note (event : CodeEvent) : Logged Unit := fun s => (.ok ((), s), [event])

/-- Stores a jump whose target comes later, and gives its address. -/
def forward (op : Opcode) (n : Int) : Logged Nat := do
  let label ← Encode.forward op n
  note (.placed label)
  return label

/-- Makes the next address the target of the jump at an address. -/
def patch (label : Nat) : Logged Unit := do
  note (.patched label (← nextAddress))
  Encode.patch label

/-- The frame of a routine that is declared here. -/
def push (frame : Frame) (size : Int) : Logged Frame := do
  let inner ← frame.push size
  note (.entered inner)
  return inner

/-- The register by which the code in a frame reaches an address. -/
def display (frame : Frame) (address : Address) (span : Span) : Logged Register := do
  note (.consulted frame address)
  Encode.display frame address span

/-- Calls a routine whose arguments, a number of words, are on the stack. -/
def call (entity : Entity) (frame : Frame) (arguments : Int) (span : Span) : Logged Unit := do
  match entity with
  | .knownRoutine address =>
    let link ← display frame address span
    emit .call .cb link.code address.displacement
  | .unknownRoutine address =>
    let register ← display frame address span
    emit .load register Machine.closureSize address.displacement
    emit .calli .cb 0 0
  | .primitive routine => callPrimitive routine
  | .equality routine =>
    literal (arguments.tdiv 2)
    callPrimitive routine
  | _ => return

/-- Pushes the closure of a routine. -/
def fetchRoutine (entity : Entity) (frame : Frame) (span : Span) : Logged Unit := do
  match entity with
  | .knownRoutine address =>
    let link ← display frame address span
    emit .loada link 0 0
    emit .loada .cb 0 address.displacement
  | .unknownRoutine address =>
    let register ← display frame address span
    emit .load register Machine.closureSize address.displacement
  | .primitive routine =>
    emit .loada .sb 0 0
    emit .loada .pb 0 routine.displacement
  | _ => return

/-- Pushes the address of the part of a variable whose own address is at an address. -/
def indirectAddress (access : Access) (address : Address) (frame : Frame) (span : Span) :
    Logged Unit := do
  let register ← display frame address span
  emit .load register Machine.addressSize address.displacement
  if access.indexed then
    callPrimitive .add
  if access.offset ≠ 0 then
    literal access.offset
    callPrimitive .add

/-- Moves words between the stack and an address. -/
def move (direct indirect : Opcode) (access : Access) (address : Address) (size : Int)
    (frame : Frame) (span : Span) : Logged Unit := do
  let register ← display frame address span
  let displacement ← Word.add address.displacement access.offset
  if access.indexed then
    emit .loada register 0 displacement
    callPrimitive .add
    emit indirect .cb size 0
  else
    emit direct register size displacement

/-- Pushes a value. -/
def fetch (access : Access) (size : Int) (frame : Frame) (span : Span) : Logged Unit := do
  let size ← limit size span
  match access.entity with
  | .knownValue value => literal value
  | .unknownValue address | .knownAddress address =>
    move .load .loadi access address size frame span
  | .unknownAddress address =>
    indirectAddress access address frame span
    emit .loadi .cb size 0
  | _ => return

/-- Pops a value into a variable. -/
def store (access : Access) (size : Int) (frame : Frame) (span : Span) : Logged Unit := do
  let size ← limit size span
  match access.entity with
  | .knownAddress address => move .store .storei access address size frame span
  | .unknownAddress address =>
    indirectAddress access address frame span
    emit .storei .cb size 0
  | _ => return

/-- Pushes the address of a variable. -/
def fetchAddress (access : Access) (frame : Frame) (span : Span) : Logged Unit := do
  match access.entity with
  | .unknownValue address | .knownAddress address =>
    let register ← display frame address span
    emit .loada register 0 (← Word.add address.displacement access.offset)
    if access.indexed then
      callPrimitive .add
  | .unknownAddress address => indirectAddress access address frame span
  | _ => return

/-- The code of a routine. -/
def routine (annotations : Annotations) (declaration : Mark) (parameters : Parameters)
    (frame : Frame) (body : Frame → Logged Int) : Logged Int := do
  let skip ← forward .jump 0
  represent declaration.id (.knownRoutine ⟨frame.level, ← nextAddress⟩)
  let (arguments, result) ←
    if frame.level ≥ Machine.maxRoutineLevel then do
      restrict declaration.span .nestingTooDeep
      pure (0, 0)
    else do
      let arguments ← parameters.encode annotations (← push frame 0)
      let result ← body (← push frame Machine.linkDataSize)
      pure (arguments, result)
  let result ← limit result declaration.span
  emit .return_ .cb result arguments
  patch skip
  return 0

end Logged

mutual

/-- The code of a command. -/
def Command.logged (annotations : Annotations) : Command → Frame → Logged Unit
  | .assign _ target value, frame => do
    let size ← value.logged annotations frame
    let frame ← frame.expand size
    let access ← target.logged annotations frame
    Logged.store access size frame target.mark.span
  | .doubleAssign _ first second firstValue secondValue, frame => do
    let firstSize ← firstValue.logged annotations frame
    let frame ← frame.expand firstSize
    let access ← first.logged annotations frame
    Logged.fetchAddress access frame first.mark.span
    let frame ← frame.expand Machine.addressSize
    let secondSize ← secondValue.logged annotations frame
    let frame ← frame.expand secondSize
    let access ← second.logged annotations frame
    Logged.fetchAddress access frame second.mark.span
    emit .storei .cb (← limit secondSize second.mark.span) 0
    emit .storei .cb (← limit firstSize first.mark.span) 0
  | .call _ name arguments, frame => do
    let size ← arguments.logged annotations frame
    let entity ← entityOf annotations name
    Logged.call entity (← frame.expand size) size name.mark.span
  | .empty _, _ => return
  | .ifElse _ condition first second, frame => do
    let _ ← condition.logged annotations frame
    let toSecond ← Logged.forward .jumpif 0
    first.logged annotations frame
    let toEnd ← Logged.forward .jump 0
    Logged.patch toSecond
    second.logged annotations frame
    Logged.patch toEnd
  | .letIn _ declaration body, frame => do
    let extra ← declaration.logged annotations frame
    body.logged annotations (← frame.expand extra)
    if extra > 0 then
      emit .pop .cb 0 extra
  | .sequential _ first second, frame => do
    first.logged annotations frame
    second.logged annotations frame
  | .whileDo _ condition body, frame => do
    let toTest ← Logged.forward .jump 0
    let start ← nextAddress
    body.logged annotations frame
    Logged.patch toTest
    let _ ← condition.logged annotations frame
    emit .jumpif .cb 1 start
  | .loopWhile _ prelude condition body, frame => do
    let start ← nextAddress
    prelude.logged annotations frame
    let _ ← condition.logged annotations frame
    let toExit ← Logged.forward .jumpif 0
    body.logged annotations frame
    emit .jump .cb 0 start
    Logged.patch toExit

/-- The code of an expression, and the size of its value. -/
def Expression.logged (annotations : Annotations) : Expression → Frame → Logged Int
  | .array _ elements, frame => elements.logged annotations frame
  | .binary m left operator right, frame => do
    let leftSize ← left.logged annotations frame
    let rightSize ← right.logged annotations (← frame.expand leftSize)
    let operands ← Word.add leftSize rightSize
    let entity ← entityOf annotations operator
    Logged.call entity (← frame.expand operands) operands operator.mark.span
    annotations.sizeOf m.id
  | .call m name arguments, frame => do
    let size ← arguments.logged annotations frame
    let entity ← entityOf annotations name
    Logged.call entity (← frame.expand size) size name.mark.span
    annotations.sizeOf m.id
  | .character _ literal, _ => do
    Encode.literal (literal.characterCode?.getD 0)
    return Machine.primitiveSize
  | .empty _, _ => return 0
  | .ifElse _ condition first second, frame => do
    let _ ← condition.logged annotations frame
    let toSecond ← Logged.forward .jumpif 0
    let size ← first.logged annotations frame
    let toEnd ← Logged.forward .jump 0
    Logged.patch toSecond
    let _ ← second.logged annotations frame
    Logged.patch toEnd
    return size
  | .integer _ literal, _ => do
    Encode.literal (literal.number?.getD 0)
    return Machine.primitiveSize
  | .letIn m declaration body, frame => do
    let extra ← declaration.logged annotations frame
    let size ← body.logged annotations (← frame.expand extra)
    if extra > 0 then
      emit .pop .cb (← limit size m.span) extra
    return size
  | .record _ fields, frame => fields.logged annotations frame
  | .unary m operator operand, frame => do
    let size ← operand.logged annotations frame
    let entity ← entityOf annotations operator
    Logged.call entity (← frame.expand size) size operator.mark.span
    annotations.sizeOf m.id
  | .vname m vname, frame => do
    let size ← annotations.sizeOf m.id
    let access ← vname.logged annotations frame
    Logged.fetch access size frame vname.mark.span
    return size

/-- The code of a declaration, and the size of what it keeps on the stack. -/
def Declaration.logged (annotations : Annotations) : Declaration → Frame → Logged Int
  | .binaryOperator _ _ _ _ _, _ => return 0
  | .const m _ value, frame =>
    match value.literal? with
    | some known => do
      represent m.id (.knownValue known)
      return 0
    | none => do
      let size ← value.logged annotations frame
      represent m.id (.unknownValue frame.top)
      return size
  | .func m _ parameters _ body, frame =>
    Logged.routine annotations m parameters frame fun frame => body.logged annotations frame
  | .proc m _ parameters body, frame =>
    Logged.routine annotations m parameters frame fun frame => do
      body.logged annotations frame
      return 0
  | .sequential _ first second, frame => do
    let firstSize ← first.logged annotations frame
    let secondSize ← second.logged annotations (← frame.expand firstSize)
    Word.add firstSize secondSize
  | .type _ _ _, _ => return 0
  | .unaryOperator _ _ _ _, _ => return 0
  | .var m _ _, frame => do
    let size ← annotations.sizeOf m.id
    emit .push .cb 0 size
    represent m.id (.knownAddress frame.top)
    return size

/-- The part of an entity that a V-name stands for, with code for subscripts that have to be
computed. -/
def Vname.logged (annotations : Annotations) : Vname → Frame → Logged Access
  | .dot _ record field, frame => do
    let access ← record.logged annotations frame
    let offset ← annotations.fieldOffset record field
    return { access with offset := ← Word.add access.offset offset }
  | .simple _ name, _ => return ⟨← entityOf annotations name, 0, false⟩
  | .subscript m array index, frame => do
    let access ← array.logged annotations frame
    let element ← annotations.sizeOf m.id
    match index.integerLiteral? with
    | some value =>
      let words ← Word.mul value element
      return { access with offset := ← Word.add access.offset words }
    | none =>
      let frame ← if access.indexed then frame.expand Machine.primitiveSize else pure frame
      let _ ← index.logged annotations frame
      if element ≠ 1 then
        Encode.literal element
        callPrimitive .mult
      if access.indexed then
        callPrimitive .add
      return { access with indexed := true }

/-- The code of an argument, and its size. -/
def Argument.logged (annotations : Annotations) : Argument → Frame → Logged Int
  | .const _ value, frame => value.logged annotations frame
  | .func _ name, frame | .proc _ name, frame => do
    Logged.fetchRoutine (← entityOf annotations name) frame name.mark.span
    return Machine.closureSize
  | .var _ vname, frame => do
    let access ← vname.logged annotations frame
    Logged.fetchAddress access frame vname.mark.span
    return Machine.addressSize

/-- The code of arguments, and their size. -/
def Arguments.logged (annotations : Annotations) : Arguments → Frame → Logged Int
  | .empty _, _ => return 0
  | .single _ argument, frame => argument.logged annotations frame
  | .multiple _ first rest, frame => do
    let firstSize ← first.logged annotations frame
    let restSize ← rest.logged annotations (← frame.expand firstSize)
    Word.add firstSize restSize

/-- The code of the elements of an array, and their size. -/
def ArrayAggregate.logged (annotations : Annotations) : ArrayAggregate → Frame → Logged Int
  | .single _ element, frame => element.logged annotations frame
  | .multiple _ first rest, frame => do
    let firstSize ← first.logged annotations frame
    let restSize ← rest.logged annotations (← frame.expand firstSize)
    Word.add firstSize restSize

/-- The code of the fields of a record, and their size. -/
def RecordAggregate.logged (annotations : Annotations) : RecordAggregate → Frame → Logged Int
  | .single _ _ value, frame => value.logged annotations frame
  | .multiple _ _ value rest, frame => do
    let firstSize ← value.logged annotations frame
    let restSize ← rest.logged annotations (← frame.expand firstSize)
    Word.add firstSize restSize

end

/-- The code of a program; the start of the main program is told as well. -/
def Program.logged (program : Program) (annotations : Annotations) : Logged Unit := do
  Logged.note (.entered .global)
  program.command.logged annotations .global
  emit .halt .cb 0 0
  if (← (get : Encode EncodeState)).store.overflowed then
    restrict program.mark.span .codeTooLarge

/-! ## Without the log

Forgetting the log goes through every way of putting steps together.  So it gives the encoder back,
and what is shown of the log is about its runs. -/

namespace Logged

variable {α β : Type}

theorem bind_ok {t : Logged α} {f : α → Logged β} {s u : EncodeState} {a : α}
    (h : (t s).1 = .ok (a, u)) : (t >>= f) s = after (t s).2 (f a u) := by
  simp only [bind, h]

/-- What failed is not gone on with, but what it has logged stays. -/
theorem bind_error {t : Logged α} {f : α → Logged β} {s : EncodeState} {cause : Overflow}
    (h : (t s).1 = .error cause) : (t >>= f) s = (.error cause, (t s).2) := by
  simp only [bind, h]

theorem bind_pure (t : Logged α) : t >>= pure = t := by
  funext s
  cases h : (t s).1 with
  | error cause => rw [bind_error h, ← h]
  | ok pair =>
    rw [bind_ok h]
    exact Prod.ext h.symm (List.append_nil _)

/-- A step that logs nothing can be taken apart, and still logs nothing. -/
theorem lift_bind (x : Encode α) (f : α → Encode β) :
    (liftM (x >>= f) : Logged β) = liftM x >>= fun a => liftM (f a) := by
  funext s
  show ((x >>= f).run s, []) = _
  rw [StateT.run_bind]
  cases h : x.run s with
  | error cause => rw [bind_error h]; rfl
  | ok pair => rw [bind_ok h]; rfl

/-- The step itself. -/
def erase (t : Logged α) : Encode α := fun s => (t s).1

@[simp] theorem erase_pure (a : α) : erase (pure a) = pure a := rfl

@[simp] theorem erase_lift (x : Encode α) : erase (liftM x) = x := rfl

@[simp] theorem erase_checked (x : Checked α) : erase (liftM x) = liftM x := rfl

@[simp] theorem erase_bind (t : Logged α) (f : α → Logged β) :
    (t >>= f).erase = t.erase >>= fun a => (f a).erase := by
  funext s
  show (match (t s).1 with
    | .ok (a, u) => after (t s).2 (f a u)
    | .error cause => (.error cause, (t s).2)).1 = (t s).1 >>= fun (a, u) => (f a u).1
  rcases (t s).1 with cause | ⟨a, u⟩ <;> rfl

@[simp] theorem erase_ite {c : Prop} [Decidable c] (t t' : Logged α) :
    erase (if c then t else t') = if c then t.erase else t'.erase := apply_ite _ _ _ _

@[simp] theorem erase_note (event : CodeEvent) : (note event).erase = pure () := rfl

@[simp] theorem erase_forward (op : Opcode) (n : Int) :
    (forward op n).erase = Encode.forward op n := by
  simp [forward]

@[simp] theorem erase_patch (label : Nat) : (patch label).erase = Encode.patch label := rfl

@[simp] theorem erase_push (frame : Frame) (size : Int) :
    (push frame size).erase = liftM (frame.push size) := by
  simp [push]

@[simp] theorem erase_display (frame : Frame) (address : Address) (span : Span) :
    (display frame address span).erase = Encode.display frame address span := by
  simp [display]

@[simp] theorem erase_call (entity : Entity) (frame : Frame) (arguments : Int) (span : Span) :
    (call entity frame arguments span).erase = Encode.call entity frame arguments span := by
  cases entity <;> simp [call, Encode.call]

@[simp] theorem erase_fetchRoutine (entity : Entity) (frame : Frame) (span : Span) :
    (fetchRoutine entity frame span).erase = Encode.fetchRoutine entity frame span := by
  cases entity <;> simp [fetchRoutine, Encode.fetchRoutine]

@[simp] theorem erase_indirectAddress (access : Access) (address : Address) (frame : Frame)
    (span : Span) : (indirectAddress access address frame span).erase =
      Encode.indirectAddress access address frame span := by
  simp [indirectAddress, Encode.indirectAddress]

@[simp] theorem erase_move (direct indirect : Opcode) (access : Access) (address : Address)
    (size : Int) (frame : Frame) (span : Span) :
    (move direct indirect access address size frame span).erase =
      Encode.move direct indirect access address size frame span := by
  simp [move, Encode.move]

@[simp] theorem erase_fetch (access : Access) (size : Int) (frame : Frame) (span : Span) :
    (fetch access size frame span).erase = Encode.fetch access size frame span := by
  obtain ⟨entity, offset, indexed⟩ := access
  cases entity <;> simp [fetch, Encode.fetch]

@[simp] theorem erase_store (access : Access) (size : Int) (frame : Frame) (span : Span) :
    (store access size frame span).erase = Encode.store access size frame span := by
  obtain ⟨entity, offset, indexed⟩ := access
  cases entity <;> simp [store, Encode.store]

@[simp] theorem erase_fetchAddress (access : Access) (frame : Frame) (span : Span) :
    (fetchAddress access frame span).erase = Encode.fetchAddress access frame span := by
  obtain ⟨entity, offset, indexed⟩ := access
  cases entity <;> simp [fetchAddress, Encode.fetchAddress]

theorem erase_routine (A : Annotations) (m : Mark) (parameters : Parameters) (frame : Frame)
    (body : Frame → Logged Int) : (routine A m parameters frame body).erase =
      Encode.routine A m parameters frame fun inner => (body inner).erase := by
  simp [routine, Encode.routine]

end Logged

mutual

/-- **Telling changes nothing.**  The code of a command is generated with the log as it is without.
-/
theorem Command.erase_logged (A : Annotations) : (c : Command) → (frame : Frame) →
    (c.logged A frame).erase = c.encode A frame
  | .assign _ target value, _ => by
    simp [Command.logged, Command.encode, value.erase_logged, target.erase_logged]
  | .doubleAssign _ first second firstValue secondValue, _ => by
    simp [Command.logged, Command.encode, first.erase_logged, second.erase_logged,
      firstValue.erase_logged, secondValue.erase_logged]
  | .call _ _ arguments, _ => by simp [Command.logged, Command.encode, arguments.erase_logged]
  | .empty _, _ => rfl
  | .ifElse _ condition first second, _ => by
    simp [Command.logged, Command.encode, condition.erase_logged, first.erase_logged,
      second.erase_logged]
  | .letIn _ declaration body, _ => by
    simp [Command.logged, Command.encode, declaration.erase_logged, body.erase_logged]
  | .sequential _ first second, _ => by
    simp [Command.logged, Command.encode, first.erase_logged, second.erase_logged]
  | .whileDo _ condition body, _ => by
    simp [Command.logged, Command.encode, condition.erase_logged, body.erase_logged]
  | .loopWhile _ prelude condition body, _ => by
    simp [Command.logged, Command.encode, prelude.erase_logged, condition.erase_logged,
      body.erase_logged]

theorem Expression.erase_logged (A : Annotations) : (e : Expression) → (frame : Frame) →
    (e.logged A frame).erase = e.encode A frame
  | .array _ elements, _ => by simp [Expression.logged, Expression.encode, elements.erase_logged]
  | .binary _ left _ right, _ => by
    simp [Expression.logged, Expression.encode, left.erase_logged, right.erase_logged]
  | .call _ _ arguments, _ => by
    simp [Expression.logged, Expression.encode, arguments.erase_logged]
  | .character _ _, _ | .integer _ _, _ | .empty _, _ => rfl
  | .ifElse _ condition first second, _ => by
    simp [Expression.logged, Expression.encode, condition.erase_logged, first.erase_logged,
      second.erase_logged]
  | .letIn _ declaration body, _ => by
    simp [Expression.logged, Expression.encode, declaration.erase_logged, body.erase_logged]
  | .record _ fields, _ => by simp [Expression.logged, Expression.encode, fields.erase_logged]
  | .unary _ _ operand, _ => by
    simp [Expression.logged, Expression.encode, operand.erase_logged]
  | .vname _ vname, _ => by simp [Expression.logged, Expression.encode, vname.erase_logged]

theorem Declaration.erase_logged (A : Annotations) : (d : Declaration) → (frame : Frame) →
    (d.logged A frame).erase = d.encode A frame
  | .binaryOperator _ _ _ _ _, _ | .type _ _ _, _ | .unaryOperator _ _ _ _, _ => rfl
  | .const _ _ value, _ => by
    rw [Declaration.logged, Declaration.encode]
    cases value.literal? <;> simp [value.erase_logged]
  | .func m _ parameters _ body, frame => by
    simp [Declaration.logged, Declaration.encode, Logged.erase_routine, body.erase_logged]
  | .proc m _ parameters body, frame => by
    simp [Declaration.logged, Declaration.encode, Logged.erase_routine, body.erase_logged]
  | .sequential _ first second, _ => by
    simp [Declaration.logged, Declaration.encode, first.erase_logged, second.erase_logged]
  | .var _ _ _, _ => by simp [Declaration.logged, Declaration.encode]

theorem Vname.erase_logged (A : Annotations) : (v : Vname) → (frame : Frame) →
    (v.logged A frame).erase = v.encode A frame
  | .dot _ record _, _ => by simp [Vname.logged, Vname.encode, record.erase_logged]
  | .simple _ _, _ => by simp [Vname.logged, Vname.encode]
  | .subscript _ array index, _ => by
    simp only [Vname.logged, Vname.encode, Logged.erase_bind, array.erase_logged]
    congr
    funext access
    cases index.integerLiteral? <;> simp [index.erase_logged]

theorem Argument.erase_logged (A : Annotations) : (a : Argument) → (frame : Frame) →
    (a.logged A frame).erase = a.encode A frame
  | .const _ value, _ => by simp [Argument.logged, Argument.encode, value.erase_logged]
  | .func _ _, _ | .proc _ _, _ => by simp [Argument.logged, Argument.encode]
  | .var _ vname, _ => by simp [Argument.logged, Argument.encode, vname.erase_logged]

theorem Arguments.erase_logged (A : Annotations) : (a : Arguments) → (frame : Frame) →
    (a.logged A frame).erase = a.encode A frame
  | .empty _, _ => rfl
  | .single _ argument, _ => by simp [Arguments.logged, Arguments.encode, argument.erase_logged]
  | .multiple _ first rest, _ => by
    simp [Arguments.logged, Arguments.encode, first.erase_logged, rest.erase_logged]

theorem ArrayAggregate.erase_logged (A : Annotations) : (a : ArrayAggregate) → (frame : Frame) →
    (a.logged A frame).erase = a.encode A frame
  | .single _ element, _ => by
    simp [ArrayAggregate.logged, ArrayAggregate.encode, element.erase_logged]
  | .multiple _ first rest, _ => by
    simp [ArrayAggregate.logged, ArrayAggregate.encode, first.erase_logged, rest.erase_logged]

theorem RecordAggregate.erase_logged (A : Annotations) : (r : RecordAggregate) → (frame : Frame) →
    (r.logged A frame).erase = r.encode A frame
  | .single _ _ value, _ => by
    simp [RecordAggregate.logged, RecordAggregate.encode, value.erase_logged]
  | .multiple _ _ value rest, _ => by
    simp [RecordAggregate.logged, RecordAggregate.encode, value.erase_logged, rest.erase_logged]

end

theorem Program.erase_logged (program : Program) (A : Annotations) :
    (program.logged A).erase = (do
      program.command.encode A .global
      emit .halt .cb 0 0
      if (← get).store.overflowed then
        restrict program.mark.span .codeTooLarge) := by
  rw [Program.logged]
  simp only [Logged.erase_bind, Logged.erase_note, Logged.erase_lift, Logged.erase_ite,
    Logged.erase_pure, Command.erase_logged, pure_bind]

end Triangle
