import Triangle.Encoding.Phrases

/-!
# The code of a phrase, as a relation

What code generation does where nothing is out of bounds, said without a code store that has to be
patched: a draft goes over into another that has the code of a phrase at its end, and the targets of
jumps are simply the addresses they turn out to be.  There is one clause for each form of phrase,
and the intermediate drafts in it are those between its parts.

A draft also keeps a trace.  It says which phrase was visited where and in which frame, what was
asked for at each use of a name, and where the code of each routine is.  The code does not depend on
the trace; it is there so that statements about all that happens while code is generated can be made
of the result.

To take a run apart is to prove one clause here.  In what order the store is patched during a run is
not in it; that is what the logged runs are for.
-/

namespace Triangle

/-! ## Drafts -/

/-- What code generation does with a name or an operator. -/
inductive Use where
  /-- Calls it. -/
  | call (entity : Entity)
  /-- Pushes its closure. -/
  | closure (entity : Entity)
  /-- Pushes its value. -/
  | fetch (access : Access)
  /-- Pops a value into it. -/
  | store (access : Access)
  /-- Pushes its address. -/
  | address (access : Access)

/-- A phrase that has code. -/
inductive Phrase where
  | command (command : Command)
  | expression (expression : Expression)
  | declaration (declaration : Declaration)
  | vname (vname : Vname)
  | argument (argument : Argument)
  | arguments (arguments : Arguments)
  | elements (elements : ArrayAggregate)
  | fields (fields : RecordAggregate)

/-- Something that happens while code is generated. -/
inductive Event where
  /-- A name or an operator is used, by code that starts at an address.  The formal parameters are
  those of the routines around it. -/
  | use (name : Terminal) (use : Use) (formals : List Parameter) (frame : Frame) (address : Nat)
  /-- The code of a phrase, from an address up to another, runs in a frame and pushes some words. -/
  | visit (phrase : Phrase) (frame : Frame) (start stop : Nat) (pushed : Int)
  /-- The code of a routine, from its entry to the instruction that returns. -/
  | routine (declaration : NodeId) (entry last : Nat)

/-- What was generated so far. -/
structure Draft where
  code : List Instruction
  entities : NodeMap Entity
  trace : List Event

namespace Draft

/-- Nothing. -/
def empty : Draft := ⟨[], .empty, []⟩

/-- The address of the next instruction. -/
def address (draft : Draft) : Nat := draft.code.length

/-- More code. -/
def emit (draft : Draft) (code : List Instruction) : Draft :=
  { draft with code := draft.code ++ code }

/-- A declaration or a parameter stands for an entity. -/
def represent (draft : Draft) (id : NodeId) (entity : Entity) : Draft :=
  { draft with entities := draft.entities.insert id entity }

/-- Something has happened. -/
def record (draft : Draft) (event : Event) : Draft :=
  { draft with trace := draft.trace ++ [event] }

/-- A phrase was visited whose code starts at an address. -/
def visit (draft : Draft) (phrase : Phrase) (frame : Frame) (start : Nat) (pushed : Int) : Draft :=
  draft.record (.visit phrase frame start draft.address pushed)

/-- A name is about to be used. -/
def use (draft : Draft) (name : Terminal) (use : Use) (formals : List Parameter) (frame : Frame) :
    Draft :=
  draft.record (.use name use formals frame draft.address)

section

variable (p : Draft) (code : List Instruction) (id : NodeId) (entity : Entity) (event : Event)
  (phrase : Phrase) (frame : Frame) (start : Nat) (pushed : Int) (name : Terminal)
  (formals : List Parameter)

@[simp] theorem code_emit : (p.emit code).code = p.code ++ code := rfl

@[simp] theorem code_represent : (p.represent id entity).code = p.code := rfl

@[simp] theorem code_record : (p.record event).code = p.code := rfl

@[simp] theorem code_visit : (p.visit phrase frame start pushed).code = p.code := rfl

@[simp] theorem code_use (u : Use) : (p.use name u formals frame).code = p.code := rfl

@[simp] theorem entities_emit : (p.emit code).entities = p.entities := rfl

@[simp] theorem entities_represent :
    (p.represent id entity).entities = p.entities.insert id entity := rfl

@[simp] theorem entities_record : (p.record event).entities = p.entities := rfl

@[simp] theorem entities_visit : (p.visit phrase frame start pushed).entities = p.entities := rfl

@[simp] theorem entities_use (u : Use) : (p.use name u formals frame).entities = p.entities := rfl

@[simp] theorem address_emit : (p.emit code).address = p.address + code.length := by
  simp [address]

@[simp] theorem address_represent : (p.represent id entity).address = p.address := rfl

@[simp] theorem address_record : (p.record event).address = p.address := rfl

@[simp] theorem address_visit : (p.visit phrase frame start pushed).address = p.address := rfl

@[simp] theorem address_use (u : Use) : (p.use name u formals frame).address = p.address := rfl

end

end Draft

/-! ## The code of uses -/

/-- What a name stands for. -/
def Annotations.entityOf (A : Annotations) (entities : NodeMap Entity) (name : Terminal) : Entity :=
  match A.referentOf? name.mark.id with
  | some (.node id) => (entities.get? id).getD .unrepresented
  | some (.standard declaration) => .ofStandard declaration
  | none => .unrepresented

/-- Pushing a number. -/
def literalCode (value : Int) : List Instruction := [⟨.loadl, .cb, 0, value⟩]

/-- Calling a routine of the machine. -/
def primitiveCode (routine : Primitive) : List Instruction :=
  if routine = .id then [] else [⟨.call, .pb, Register.sb.code, routine.displacement⟩]

/-- Scaling an index by the size of the elements, and adding it to the index before it. -/
def scaleCode (element : Int) (indexed : Bool) : List Instruction :=
  (if element ≠ 1 then literalCode element ++ primitiveCode .mult else []) ++
    if indexed then primitiveCode .add else []

/-- Calling an entity whose arguments are on the stack. -/
def Entity.Called (entity : Entity) (frame : Frame) (arguments : Int) (code : List Instruction) :
    Prop :=
  match entity with
  | .knownRoutine address =>
    ∃ link, frame.display? address = some link ∧
      code = [⟨.call, .cb, link.code, address.displacement⟩]
  | .unknownRoutine address =>
    ∃ register, frame.display? address = some register ∧
      code = [⟨.load, register, Machine.closureSize, address.displacement⟩, ⟨.calli, .cb, 0, 0⟩]
  | .primitive routine => code = primitiveCode routine
  | .equality routine => code = literalCode (arguments.tdiv 2) ++ primitiveCode routine
  | _ => code = []

/-- Pushing the closure of an entity. -/
def Entity.Closed (entity : Entity) (frame : Frame) (code : List Instruction) : Prop :=
  match entity with
  | .knownRoutine address =>
    ∃ link, frame.display? address = some link ∧
      code = [⟨.loada, link, 0, 0⟩, ⟨.loada, .cb, 0, address.displacement⟩]
  | .unknownRoutine address =>
    ∃ register, frame.display? address = some register ∧
      code = [⟨.load, register, Machine.closureSize, address.displacement⟩]
  | .primitive routine => code = [⟨.loada, .sb, 0, 0⟩, ⟨.loada, .pb, 0, routine.displacement⟩]
  | _ => code = []

/-- Pushing the address of a part of a variable whose own address is at an address. -/
def Access.Pointed (access : Access) (address : Address) (frame : Frame)
    (code : List Instruction) : Prop :=
  ∃ register, frame.display? address = some register ∧
    code = [⟨.load, register, Machine.addressSize, address.displacement⟩] ++
      (if access.indexed then primitiveCode .add else []) ++
      (if access.offset ≠ 0 then literalCode access.offset ++ primitiveCode .add else [])

/-- Moving words between the stack and an address. -/
def Access.Moved (direct indirect : Opcode) (access : Access) (address : Address) (size : Int)
    (frame : Frame) (code : List Instruction) : Prop :=
  ∃ register displacement, frame.display? address = some register ∧
    Word.add address.displacement access.offset = .ok displacement ∧
    code = if access.indexed then
        [⟨.loada, register, 0, displacement⟩] ++ primitiveCode .add ++ [⟨indirect, .cb, size, 0⟩]
      else [⟨direct, register, size, displacement⟩]

/-- Pushing the value of a part of an entity. -/
def Access.Fetched (access : Access) (size : Int) (frame : Frame) (code : List Instruction) :
    Prop :=
  size ≤ Machine.maxLength ∧
  match access.entity with
  | .knownValue value => code = literalCode value
  | .unknownValue address | .knownAddress address =>
    access.Moved .load .loadi address size frame code
  | .unknownAddress address =>
    ∃ pointer, access.Pointed address frame pointer ∧ code = pointer ++ [⟨.loadi, .cb, size, 0⟩]
  | _ => code = []

/-- Popping a value into a part of an entity. -/
def Access.Stored (access : Access) (size : Int) (frame : Frame) (code : List Instruction) :
    Prop :=
  size ≤ Machine.maxLength ∧
  match access.entity with
  | .knownAddress address => access.Moved .store .storei address size frame code
  | .unknownAddress address =>
    ∃ pointer, access.Pointed address frame pointer ∧ code = pointer ++ [⟨.storei, .cb, size, 0⟩]
  | _ => code = []

/-- Pushing the address of a part of an entity. -/
def Access.Addressed (access : Access) (frame : Frame) (code : List Instruction) : Prop :=
  match access.entity with
  | .unknownValue address | .knownAddress address =>
    ∃ register displacement, frame.display? address = some register ∧
      Word.add address.displacement access.offset = .ok displacement ∧
      code = [⟨.loada, register, 0, displacement⟩] ++
        if access.indexed then primitiveCode .add else []
  | .unknownAddress address => access.Pointed address frame code
  | _ => code = []

/-! ## Parameters -/

/-- The parameters in a sequence. -/
def Parameters.toList : Parameters → List Parameter
  | .empty _ => []
  | .single _ parameter => [parameter]
  | .multiple _ first rest => first :: rest.toList

/-- A parameter gets its address, and has a size. -/
def Parameter.Placed (A : Annotations) (frame : Frame) (p : Draft) (size : Int) (q : Draft) :
    Parameter → Prop
  | .const m _ _ =>
    A.sizeOf m.id = .ok size ∧
    ∃ address, frame.parameter size = .ok address ∧ q = p.represent m.id (.unknownValue address)
  | .func m _ _ _ | .proc m _ _ =>
    size = Machine.closureSize ∧
    ∃ address, frame.parameter size = .ok address ∧ q = p.represent m.id (.unknownRoutine address)
  | .var m _ _ =>
    size = Machine.addressSize ∧
    ∃ address, frame.parameter size = .ok address ∧ q = p.represent m.id (.unknownAddress address)

/-- Parameters get their addresses, the last one first, and have a size together. -/
def Parameters.Placed (A : Annotations) (frame : Frame) :
    Parameters → Draft → Int → Draft → Prop
  | .empty _, p, size, q => size = 0 ∧ q = p
  | .single _ parameter, p, size, q => parameter.Placed A frame p size q
  | .multiple _ first rest, p, size, q =>
    ∃ after r above first', rest.Placed A frame p after r ∧ frame.expand after = .ok above ∧
      first.Placed A above r first' q ∧ Word.add first' after = .ok size

/-! ## Phrases -/

/-- The code of a routine, whose body runs in a frame of its own and pushes its result. -/
def Emission.Routine (A : Annotations) (declaration : Mark) (parameters : Parameters)
    (frame : Frame) (body : Frame → Draft → Int → Draft → Prop) (p q : Draft) : Prop :=
  ∃ inner outer arguments result r₁ r₂,
    frame.level < Machine.maxRoutineLevel ∧
    frame.push 0 = .ok outer ∧ frame.push Machine.linkDataSize = .ok inner ∧
    parameters.Placed A outer
      ((p.emit [⟨.jump, .cb, 0, (r₂.address + 1 : Nat)⟩]).represent declaration.id
        (.knownRoutine ⟨frame.level, (p.address + 1 : Nat)⟩)) arguments r₁ ∧
    body inner r₁ result r₂ ∧ result ≤ Machine.maxLength ∧
    q = (r₂.emit [⟨.return_, .cb, result, arguments⟩]).record
      (.routine declaration.id (p.address + 1) r₂.address)

mutual

/-- The code of a command. -/
def Command.Emits (A : Annotations) : Command → List Parameter → Frame → Draft → Draft → Prop
  | .assign m target value, F, frame, p, q =>
    ∃ size above access r₁ r₂ code,
      value.Emits A F frame p size r₁ ∧ frame.expand size = .ok above ∧
      target.Emits A F above r₁ access r₂ ∧ access.Stored size above code ∧
      q = ((r₂.use target.root (.store access) F above).emit code).visit
        (.command (.assign m target value)) frame p.address 0
  | .doubleAssign m first second firstValue secondValue, F, frame, p, q =>
    ∃ size above access r₁ r₂ code above' size' above'' access' r₃ r₄ code',
      firstValue.Emits A F frame p size r₁ ∧ frame.expand size = .ok above ∧
      first.Emits A F above r₁ access r₂ ∧ access.Addressed above code ∧
      above.expand Machine.addressSize = .ok above' ∧
      secondValue.Emits A F above' ((r₂.use first.root (.address access) F above).emit code)
        size' r₃ ∧ above'.expand size' = .ok above'' ∧
      second.Emits A F above'' r₃ access' r₄ ∧ access'.Addressed above'' code' ∧
      size ≤ Machine.maxLength ∧ size' ≤ Machine.maxLength ∧
      q = ((r₄.use second.root (.address access') F above'').emit
          (code' ++ [⟨.storei, .cb, size', 0⟩, ⟨.storei, .cb, size, 0⟩])).visit
        (.command (.doubleAssign m first second firstValue secondValue)) frame p.address 0
  | .call m name arguments, F, frame, p, q =>
    ∃ size above r code,
      arguments.Emits A F frame p size r ∧ frame.expand size = .ok above ∧
      (A.entityOf r.entities name).Called above size code ∧
      q = ((r.use name (.call (A.entityOf r.entities name)) F above).emit code).visit
        (.command (.call m name arguments)) frame p.address 0
  | .empty m, _, frame, p, q => q = p.visit (.command (.empty m)) frame p.address 0
  | .ifElse m condition first second, F, frame, p, q =>
    ∃ size r₁ r₂ r₃,
      condition.Emits A F frame p size r₁ ∧
      first.Emits A F frame (r₁.emit [⟨.jumpif, .cb, 0, (r₂.address + 1 : Nat)⟩]) r₂ ∧
      second.Emits A F frame (r₂.emit [⟨.jump, .cb, 0, r₃.address⟩]) r₃ ∧
      q = r₃.visit (.command (.ifElse m condition first second)) frame p.address 0
  | .letIn m declaration body, F, frame, p, q =>
    ∃ extra above r₁ r₂,
      declaration.Emits A F frame p extra r₁ ∧ frame.expand extra = .ok above ∧
      body.Emits A F above r₁ r₂ ∧
      q = (r₂.emit (if extra > 0 then [⟨.pop, .cb, 0, extra⟩] else [])).visit
        (.command (.letIn m declaration body)) frame p.address 0
  | .sequential m first second, F, frame, p, q =>
    ∃ r₁ r₂, first.Emits A F frame p r₁ ∧ second.Emits A F frame r₁ r₂ ∧
      q = r₂.visit (.command (.sequential m first second)) frame p.address 0
  | .whileDo m condition body, F, frame, p, q =>
    ∃ size r₁ r₂,
      body.Emits A F frame (p.emit [⟨.jump, .cb, 0, r₁.address⟩]) r₁ ∧
      condition.Emits A F frame r₁ size r₂ ∧
      q = (r₂.emit [⟨.jumpif, .cb, 1, (p.address + 1 : Nat)⟩]).visit
        (.command (.whileDo m condition body)) frame p.address 0
  | .loopWhile m prelude condition body, F, frame, p, q =>
    ∃ size r₁ r₂ r₃,
      prelude.Emits A F frame p r₁ ∧ condition.Emits A F frame r₁ size r₂ ∧
      body.Emits A F frame (r₂.emit [⟨.jumpif, .cb, 0, (r₃.address + 1 : Nat)⟩]) r₃ ∧
      q = (r₃.emit [⟨.jump, .cb, 0, p.address⟩]).visit
        (.command (.loopWhile m prelude condition body)) frame p.address 0

/-- The code of an expression, and the size of its value. -/
def Expression.Emits (A : Annotations) :
    Expression → List Parameter → Frame → Draft → Int → Draft → Prop
  | .array m elements, F, frame, p, size, q =>
    ∃ r, elements.Emits A F frame p size r ∧
      q = r.visit (.expression (.array m elements)) frame p.address size
  | .binary m left operator right, F, frame, p, size, q =>
    ∃ leftSize above rightSize operands above' r₁ r₂ code,
      left.Emits A F frame p leftSize r₁ ∧ frame.expand leftSize = .ok above ∧
      right.Emits A F above r₁ rightSize r₂ ∧ Word.add leftSize rightSize = .ok operands ∧
      frame.expand operands = .ok above' ∧
      (A.entityOf r₂.entities operator).Called above' operands code ∧ A.sizeOf m.id = .ok size ∧
      q = ((r₂.use operator (.call (A.entityOf r₂.entities operator)) F above').emit code).visit
        (.expression (.binary m left operator right)) frame p.address size
  | .call m name arguments, F, frame, p, size, q =>
    ∃ words above r code,
      arguments.Emits A F frame p words r ∧ frame.expand words = .ok above ∧
      (A.entityOf r.entities name).Called above words code ∧ A.sizeOf m.id = .ok size ∧
      q = ((r.use name (.call (A.entityOf r.entities name)) F above).emit code).visit
        (.expression (.call m name arguments)) frame p.address size
  | .character m literal, _, frame, p, size, q =>
    size = Machine.primitiveSize ∧
    q = (p.emit (literalCode (literal.characterCode?.getD 0))).visit
      (.expression (.character m literal)) frame p.address size
  | .empty m, _, frame, p, size, q =>
    size = 0 ∧ q = p.visit (.expression (.empty m)) frame p.address size
  | .ifElse m condition first second, F, frame, p, size, q =>
    ∃ test size' r₁ r₂ r₃,
      condition.Emits A F frame p test r₁ ∧
      first.Emits A F frame (r₁.emit [⟨.jumpif, .cb, 0, (r₂.address + 1 : Nat)⟩]) size r₂ ∧
      second.Emits A F frame (r₂.emit [⟨.jump, .cb, 0, r₃.address⟩]) size' r₃ ∧
      q = r₃.visit (.expression (.ifElse m condition first second)) frame p.address size
  | .integer m literal, _, frame, p, size, q =>
    size = Machine.primitiveSize ∧
    q = (p.emit (literalCode (literal.number?.getD 0))).visit
      (.expression (.integer m literal)) frame p.address size
  | .letIn m declaration body, F, frame, p, size, q =>
    ∃ extra above r₁ r₂,
      declaration.Emits A F frame p extra r₁ ∧ frame.expand extra = .ok above ∧
      body.Emits A F above r₁ size r₂ ∧ (extra > 0 → size ≤ Machine.maxLength) ∧
      q = (r₂.emit (if extra > 0 then [⟨.pop, .cb, size, extra⟩] else [])).visit
        (.expression (.letIn m declaration body)) frame p.address size
  | .record m fields, F, frame, p, size, q =>
    ∃ r, fields.Emits A F frame p size r ∧
      q = r.visit (.expression (.record m fields)) frame p.address size
  | .unary m operator operand, F, frame, p, size, q =>
    ∃ words above r code,
      operand.Emits A F frame p words r ∧ frame.expand words = .ok above ∧
      (A.entityOf r.entities operator).Called above words code ∧ A.sizeOf m.id = .ok size ∧
      q = ((r.use operator (.call (A.entityOf r.entities operator)) F above).emit code).visit
        (.expression (.unary m operator operand)) frame p.address size
  | .vname m vname, F, frame, p, size, q =>
    ∃ access r code,
      A.sizeOf m.id = .ok size ∧ vname.Emits A F frame p access r ∧
      access.Fetched size frame code ∧
      q = ((r.use vname.root (.fetch access) F frame).emit code).visit
        (.expression (.vname m vname)) frame p.address size

/-- The code of a declaration, and the size of what it keeps. -/
def Declaration.Emits (A : Annotations) :
    Declaration → List Parameter → Frame → Draft → Int → Draft → Prop
  | .binaryOperator m operator left right result, _, frame, p, size, q =>
    size = 0 ∧
    q = p.visit (.declaration (.binaryOperator m operator left right result)) frame p.address size
  | .const m name value, F, frame, p, size, q =>
    ∃ r, (match value.literal? with
        | some known => size = 0 ∧ r = p.represent m.id (.knownValue known)
        | none => ∃ r', value.Emits A F frame p size r' ∧
            r = r'.represent m.id (.unknownValue frame.top)) ∧
      q = r.visit (.declaration (.const m name value)) frame p.address size
  | .func m name parameters result body, F, frame, p, size, q =>
    ∃ r, Emission.Routine A m parameters frame
        (fun inner p' words q' => body.Emits A (F ++ parameters.toList) inner p' words q') p r ∧
      size = 0 ∧
      q = r.visit (.declaration (.func m name parameters result body)) frame p.address size
  | .proc m name parameters body, F, frame, p, size, q =>
    ∃ r, Emission.Routine A m parameters frame
        (fun inner p' words q' => body.Emits A (F ++ parameters.toList) inner p' q' ∧ words = 0)
        p r ∧
      size = 0 ∧ q = r.visit (.declaration (.proc m name parameters body)) frame p.address size
  | .sequential m first second, F, frame, p, size, q =>
    ∃ firstSize above secondSize r₁ r₂,
      first.Emits A F frame p firstSize r₁ ∧ frame.expand firstSize = .ok above ∧
      second.Emits A F above r₁ secondSize r₂ ∧ Word.add firstSize secondSize = .ok size ∧
      q = r₂.visit (.declaration (.sequential m first second)) frame p.address size
  | .type m name of, _, frame, p, size, q =>
    size = 0 ∧ q = p.visit (.declaration (.type m name of)) frame p.address size
  | .unaryOperator m operator operand result, _, frame, p, size, q =>
    size = 0 ∧
    q = p.visit (.declaration (.unaryOperator m operator operand result)) frame p.address size
  | .var m name of, _, frame, p, size, q =>
    A.sizeOf m.id = .ok size ∧
    q = ((p.emit [⟨.push, .cb, 0, size⟩]).represent m.id (.knownAddress frame.top)).visit
      (.declaration (.var m name of)) frame p.address size

/-- The code of the subscripts in a V-name, and the part of an entity that it stands for. -/
def Vname.Emits (A : Annotations) :
    Vname → List Parameter → Frame → Draft → Access → Draft → Prop
  | .dot m record field, F, frame, p, access, q =>
    ∃ whole offset sum r,
      record.Emits A F frame p whole r ∧ A.fieldOffset record field = .ok offset ∧
      Word.add whole.offset offset = .ok sum ∧ access = { whole with offset := sum } ∧
      q = r.visit (.vname (.dot m record field)) frame p.address
        (if access.indexed then 1 else 0)
  | .simple m name, _, frame, p, access, q =>
    access = ⟨A.entityOf p.entities name, 0, false⟩ ∧
    q = p.visit (.vname (.simple m name)) frame p.address 0
  | .subscript m array index, F, frame, p, access, q =>
    ∃ whole element r r',
      array.Emits A F frame p whole r ∧ A.sizeOf m.id = .ok element ∧
      (match index.integerLiteral? with
        | some value => r' = r ∧ ∃ words sum, Word.mul value element = .ok words ∧
            Word.add whole.offset words = .ok sum ∧ access = { whole with offset := sum }
        | none => ∃ above size r'',
            (if whole.indexed then frame.expand Machine.primitiveSize else .ok frame) = .ok above ∧
            index.Emits A F above r size r'' ∧ access = { whole with indexed := true } ∧
            r' = r''.emit (scaleCode element whole.indexed)) ∧
      q = r'.visit (.vname (.subscript m array index)) frame p.address
        (if access.indexed then 1 else 0)

/-- The code of an argument, and its size. -/
def Argument.Emits (A : Annotations) :
    Argument → List Parameter → Frame → Draft → Int → Draft → Prop
  | .const m value, F, frame, p, size, q =>
    ∃ r, value.Emits A F frame p size r ∧
      q = r.visit (.argument (.const m value)) frame p.address size
  | .func m name, F, frame, p, size, q =>
    ∃ code, (A.entityOf p.entities name).Closed frame code ∧ size = Machine.closureSize ∧
      q = ((p.use name (.closure (A.entityOf p.entities name)) F frame).emit code).visit
        (.argument (.func m name)) frame p.address size
  | .proc m name, F, frame, p, size, q =>
    ∃ code, (A.entityOf p.entities name).Closed frame code ∧ size = Machine.closureSize ∧
      q = ((p.use name (.closure (A.entityOf p.entities name)) F frame).emit code).visit
        (.argument (.proc m name)) frame p.address size
  | .var m vname, F, frame, p, size, q =>
    ∃ access r code, vname.Emits A F frame p access r ∧ access.Addressed frame code ∧
      size = Machine.addressSize ∧
      q = ((r.use vname.root (.address access) F frame).emit code).visit
        (.argument (.var m vname)) frame p.address size

/-- The code of arguments, and their size. -/
def Arguments.Emits (A : Annotations) :
    Arguments → List Parameter → Frame → Draft → Int → Draft → Prop
  | .empty m, _, frame, p, size, q =>
    size = 0 ∧ q = p.visit (.arguments (.empty m)) frame p.address size
  | .single m argument, F, frame, p, size, q =>
    ∃ r, argument.Emits A F frame p size r ∧
      q = r.visit (.arguments (.single m argument)) frame p.address size
  | .multiple m first rest, F, frame, p, size, q =>
    ∃ firstSize above restSize r₁ r₂,
      first.Emits A F frame p firstSize r₁ ∧ frame.expand firstSize = .ok above ∧
      rest.Emits A F above r₁ restSize r₂ ∧ Word.add firstSize restSize = .ok size ∧
      q = r₂.visit (.arguments (.multiple m first rest)) frame p.address size

/-- The code of the elements of an array, and their size. -/
def ArrayAggregate.Emits (A : Annotations) :
    ArrayAggregate → List Parameter → Frame → Draft → Int → Draft → Prop
  | .single m element, F, frame, p, size, q =>
    ∃ r, element.Emits A F frame p size r ∧
      q = r.visit (.elements (.single m element)) frame p.address size
  | .multiple m first rest, F, frame, p, size, q =>
    ∃ firstSize above restSize r₁ r₂,
      first.Emits A F frame p firstSize r₁ ∧ frame.expand firstSize = .ok above ∧
      rest.Emits A F above r₁ restSize r₂ ∧ Word.add firstSize restSize = .ok size ∧
      q = r₂.visit (.elements (.multiple m first rest)) frame p.address size

/-- The code of the fields of a record, and their size. -/
def RecordAggregate.Emits (A : Annotations) :
    RecordAggregate → List Parameter → Frame → Draft → Int → Draft → Prop
  | .single m field value, F, frame, p, size, q =>
    ∃ r, value.Emits A F frame p size r ∧
      q = r.visit (.fields (.single m field value)) frame p.address size
  | .multiple m field value rest, F, frame, p, size, q =>
    ∃ firstSize above restSize r₁ r₂,
      value.Emits A F frame p firstSize r₁ ∧ frame.expand firstSize = .ok above ∧
      rest.Emits A F above r₁ restSize r₂ ∧ Word.add firstSize restSize = .ok size ∧
      q = r₂.visit (.fields (.multiple m field value rest)) frame p.address size

end

/-- The code of a program, and the trace of generating it. -/
def Program.Emits (program : Program) (A : Annotations) (code : List Instruction)
    (trace : List Event) : Prop :=
  ∃ q, program.command.Emits A [] .global .empty q ∧
    code = q.code ++ [⟨.halt, .cb, 0, 0⟩] ∧ trace = q.trace

end Triangle
