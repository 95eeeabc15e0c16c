import Triangle.Encoding.Access

/-!
# Code for phrases

The code of each phrase, generated from left to right in one pass over a checked tree.  Each
phrase is given the frame in which it runs:

* the code of a command leaves the stack as it was;
* the code of an expression pushes the words of its value, and their number is its result;
* the code of a declaration pushes what it has to keep, and the number of those words is its
  result.

A declaration files what it stands for under its node before the code that may refer to it is
generated, a routine even before its own body.
-/

namespace Triangle

open Encode

/-! ## Parameters -/

/-- The address of a parameter, below the base of the frame.  The frame counts the words of the
parameters that come after it. -/
def Frame.parameter (frame : Frame) (size : Int) : Checked Address := do
  return ⟨frame.level, ← Word.sub (-frame.size) size⟩

/-- Gives a parameter its address, and tells its size. -/
def Parameter.encode (annotations : Annotations) (frame : Frame) : Parameter → Encode Int
  | .const m _ _ => do
    let size ← annotations.sizeOf m.id
    represent m.id (.unknownValue (← frame.parameter size))
    return size
  | .func m _ _ _ | .proc m _ _ => do
    represent m.id (.unknownRoutine (← frame.parameter Machine.closureSize))
    return Machine.closureSize
  | .var m _ _ => do
    represent m.id (.unknownAddress (← frame.parameter Machine.addressSize))
    return Machine.addressSize

/-- Gives parameters their addresses, the last one first, and tells their size. -/
def Parameters.encode (annotations : Annotations) (frame : Frame) : Parameters → Encode Int
  | .empty _ => return 0
  | .single _ parameter => parameter.encode annotations frame
  | .multiple _ first rest => do
    let after ← rest.encode annotations frame
    let size ← first.encode annotations (← frame.expand after)
    Word.add size after

/-! ## Known values -/

/-- The number that an integer literal stands for. -/
def Terminal.number? (literal : Terminal) : Option Int :=
  Literal.integerValue? literal.spelling

/-- The code of the character that a character literal stands for. -/
def Terminal.characterCode? (literal : Terminal) : Option Int :=
  (Literal.characterValue? literal.spelling).map fun c => c.toNat

/-- The value of a literal. -/
def Expression.literal? : Expression → Option Int
  | .integer _ literal => literal.number?
  | .character _ literal => literal.characterCode?
  | _ => none

/-- The value of an integer literal. -/
def Expression.integerLiteral? : Expression → Option Int
  | .integer _ literal => literal.number?
  | _ => none

/-- The offset of a field in the record that a V-name stands for. -/
def Annotations.fieldOffset (annotations : Annotations) (record : Vname) (field : Terminal) :
    Checked Int := do
  match annotations.typeOf? record.mark.id with
  | some ty => return ((← ty.field field.spelling).map (·.1)).getD 0
  | none => return 0

/-! ## Phrases -/

/-- The code of a routine: a jump over it, its body in a frame of its own, and the return.  The
body tells the size of its result. -/
def Encode.routine (annotations : Annotations) (declaration : Mark) (parameters : Parameters)
    (frame : Frame) (body : Frame → Encode Int) : Encode Int := do
  let skip ← forward .jump 0
  represent declaration.id (.knownRoutine ⟨frame.level, ← nextAddress⟩)
  let (arguments, result) ←
    if frame.level ≥ Machine.maxRoutineLevel then do
      restrict declaration.span .nestingTooDeep
      pure (0, 0)
    else do
      let arguments ← parameters.encode annotations (← frame.push 0)
      let result ← body (← frame.push Machine.linkDataSize)
      pure (arguments, result)
  let result ← limit result declaration.span
  emit .return_ .cb result arguments
  patch skip
  return 0

mutual

/-- The code of a command. -/
def Command.encode (annotations : Annotations) : Command → Frame → Encode Unit
  | .assign _ target value, frame => do
    let size ← value.encode annotations frame
    let frame ← frame.expand size
    let access ← target.encode annotations frame
    Encode.store access size frame target.mark.span
  | .doubleAssign _ first second firstValue secondValue, frame => do
    let firstSize ← firstValue.encode annotations frame
    let frame ← frame.expand firstSize
    let access ← first.encode annotations frame
    fetchAddress access frame first.mark.span
    let frame ← frame.expand Machine.addressSize
    let secondSize ← secondValue.encode annotations frame
    let frame ← frame.expand secondSize
    let access ← second.encode annotations frame
    fetchAddress access frame second.mark.span
    emit .storei .cb (← limit secondSize second.mark.span) 0
    emit .storei .cb (← limit firstSize first.mark.span) 0
  | .call _ name arguments, frame => do
    let size ← arguments.encode annotations frame
    let entity ← entityOf annotations name
    Encode.call entity (← frame.expand size) size name.mark.span
  | .empty _, _ => return
  | .ifElse _ condition first second, frame => do
    let _ ← condition.encode annotations frame
    let toSecond ← forward .jumpif 0
    first.encode annotations frame
    let toEnd ← forward .jump 0
    patch toSecond
    second.encode annotations frame
    patch toEnd
  | .letIn _ declaration body, frame => do
    let extra ← declaration.encode annotations frame
    body.encode annotations (← frame.expand extra)
    if extra > 0 then
      emit .pop .cb 0 extra
  | .sequential _ first second, frame => do
    first.encode annotations frame
    second.encode annotations frame
  | .whileDo _ condition body, frame => do
    let toTest ← forward .jump 0
    let start ← nextAddress
    body.encode annotations frame
    patch toTest
    let _ ← condition.encode annotations frame
    emit .jumpif .cb 1 start
  | .loopWhile _ prelude condition body, frame => do
    let start ← nextAddress
    prelude.encode annotations frame
    let _ ← condition.encode annotations frame
    let toExit ← forward .jumpif 0
    body.encode annotations frame
    emit .jump .cb 0 start
    patch toExit

/-- The code of an expression, and the size of its value. -/
def Expression.encode (annotations : Annotations) : Expression → Frame → Encode Int
  | .array _ elements, frame => elements.encode annotations frame
  | .binary m left operator right, frame => do
    let leftSize ← left.encode annotations frame
    let rightSize ← right.encode annotations (← frame.expand leftSize)
    let operands ← Word.add leftSize rightSize
    let entity ← entityOf annotations operator
    Encode.call entity (← frame.expand operands) operands operator.mark.span
    annotations.sizeOf m.id
  | .call m name arguments, frame => do
    let size ← arguments.encode annotations frame
    let entity ← entityOf annotations name
    Encode.call entity (← frame.expand size) size name.mark.span
    annotations.sizeOf m.id
  | .character _ literal, _ => do
    Encode.literal (literal.characterCode?.getD 0)
    return Machine.primitiveSize
  | .empty _, _ => return 0
  | .ifElse _ condition first second, frame => do
    let _ ← condition.encode annotations frame
    let toSecond ← forward .jumpif 0
    let size ← first.encode annotations frame
    let toEnd ← forward .jump 0
    patch toSecond
    let _ ← second.encode annotations frame
    patch toEnd
    return size
  | .integer _ literal, _ => do
    Encode.literal (literal.number?.getD 0)
    return Machine.primitiveSize
  | .letIn m declaration body, frame => do
    let extra ← declaration.encode annotations frame
    let size ← body.encode annotations (← frame.expand extra)
    if extra > 0 then
      emit .pop .cb (← limit size m.span) extra
    return size
  | .record _ fields, frame => fields.encode annotations frame
  | .unary m operator operand, frame => do
    let size ← operand.encode annotations frame
    let entity ← entityOf annotations operator
    Encode.call entity (← frame.expand size) size operator.mark.span
    annotations.sizeOf m.id
  | .vname m vname, frame => do
    let size ← annotations.sizeOf m.id
    let access ← vname.encode annotations frame
    fetch access size frame vname.mark.span
    return size

/-- The code of a declaration, and the size of what it keeps on the stack. -/
def Declaration.encode (annotations : Annotations) : Declaration → Frame → Encode Int
  | .binaryOperator _ _ _ _ _, _ => return 0
  | .const m _ value, frame =>
    match value.literal? with
    | some known => do
      represent m.id (.knownValue known)
      return 0
    | none => do
      let size ← value.encode annotations frame
      represent m.id (.unknownValue frame.top)
      return size
  | .func m _ parameters _ body, frame =>
    Encode.routine annotations m parameters frame fun frame => body.encode annotations frame
  | .proc m _ parameters body, frame =>
    Encode.routine annotations m parameters frame fun frame => do
      body.encode annotations frame
      return 0
  | .sequential _ first second, frame => do
    let firstSize ← first.encode annotations frame
    let secondSize ← second.encode annotations (← frame.expand firstSize)
    Word.add firstSize secondSize
  | .type _ _ _, _ => return 0
  | .unaryOperator _ _ _ _, _ => return 0
  | .var m _ _, frame => do
    let size ← annotations.sizeOf m.id
    emit .push .cb 0 size
    represent m.id (.knownAddress frame.top)
    return size

/-- The part of an entity that a V-name stands for, with code for subscripts that have to be
computed. -/
def Vname.encode (annotations : Annotations) : Vname → Frame → Encode Access
  | .dot _ record field, frame => do
    let access ← record.encode annotations frame
    let offset ← annotations.fieldOffset record field
    return { access with offset := ← Word.add access.offset offset }
  | .simple _ name, _ => return ⟨← entityOf annotations name, 0, false⟩
  | .subscript m array index, frame => do
    let access ← array.encode annotations frame
    let element ← annotations.sizeOf m.id
    match index.integerLiteral? with
    | some value =>
      let words ← Word.mul value element
      return { access with offset := ← Word.add access.offset words }
    | none =>
      let frame ← if access.indexed then frame.expand Machine.primitiveSize else pure frame
      let _ ← index.encode annotations frame
      if element ≠ 1 then
        Encode.literal element
        callPrimitive .mult
      if access.indexed then
        callPrimitive .add
      return { access with indexed := true }

/-- The code of an argument, and its size. -/
def Argument.encode (annotations : Annotations) : Argument → Frame → Encode Int
  | .const _ value, frame => value.encode annotations frame
  | .func _ name, frame | .proc _ name, frame => do
    fetchRoutine (← entityOf annotations name) frame name.mark.span
    return Machine.closureSize
  | .var _ vname, frame => do
    let access ← vname.encode annotations frame
    fetchAddress access frame vname.mark.span
    return Machine.addressSize

/-- The code of arguments, and their size. -/
def Arguments.encode (annotations : Annotations) : Arguments → Frame → Encode Int
  | .empty _, _ => return 0
  | .single _ argument, frame => argument.encode annotations frame
  | .multiple _ first rest, frame => do
    let firstSize ← first.encode annotations frame
    let restSize ← rest.encode annotations (← frame.expand firstSize)
    Word.add firstSize restSize

/-- The code of the elements of an array, and their size. -/
def ArrayAggregate.encode (annotations : Annotations) : ArrayAggregate → Frame → Encode Int
  | .single _ element, frame => element.encode annotations frame
  | .multiple _ first rest, frame => do
    let firstSize ← first.encode annotations frame
    let restSize ← rest.encode annotations (← frame.expand firstSize)
    Word.add firstSize restSize

/-- The code of the fields of a record, and their size. -/
def RecordAggregate.encode (annotations : Annotations) : RecordAggregate → Frame → Encode Int
  | .single _ _ value, frame => value.encode annotations frame
  | .multiple _ _ value rest, frame => do
    let firstSize ← value.encode annotations frame
    let restSize ← rest.encode annotations (← frame.expand firstSize)
    Word.add firstSize restSize

end

/-- The code of a program, and the log after that.  There is code even where something was
reported. -/
def Program.encode (program : Program) (annotations : Annotations) (log : Log Problem) :
    Checked (ObjectCode × Log Problem) := do
  let code : Encode Unit := do
    program.command.encode annotations .global
    emit .halt .cb 0 0
    if (← get).store.overflowed then
      restrict program.mark.span .codeTooLarge
  let (_, state) ← code.run ⟨.empty, .empty, log⟩
  return (state.store.object, state.log)

end Triangle
