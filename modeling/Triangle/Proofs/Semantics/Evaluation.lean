import Triangle.Proofs.Semantics.Values
import Triangle.Token.Literal
import Triangle.Typing.Annotations

/-!
# The meaning of programs

A reference semantics of the whole language, as an interpreter with fuel: a phrase has a result if
some amount of fuel is enough, and a phrase that fails or does not terminate has none.  Names stand
for what the annotations say that they refer to; how they are spelled plays no part.

Evaluating an expression yields a value and changes nothing, since no command occurs in an
expression.  Commands change a state: the store of the variables, what is left of the input, and
what was written.  The state also keeps a record of all assignments, in order, so that two runs can
be compared by what they assigned.

How text is read and written is left to a device.
-/

namespace Triangle

/-! ## What programs run on -/

/-- How the standard routines read from the rest of an input, and what they write. -/
structure Device where
  eof : List Char → Bool
  eol : List Char → Bool
  /-- Reads a character. -/
  get : List Char → Option (Char × List Char)
  /-- Reads an integer. -/
  getint : List Char → Option (Int × List Char)
  /-- Skips the rest of a line. -/
  geteol : List Char → Option (List Char)
  /-- The text of the character with a code. -/
  put : Int → List Char
  /-- The text of an integer. -/
  putint : Int → List Char
  /-- The end of a line. -/
  puteol : List Char

/-- The device that reads and writes plain text.  An integer is read after white space, up to the
first character that is not a digit. -/
def Device.plain : Device where
  eof input := input.isEmpty
  eol input := input.head? = some '\n'
  get input := input.head?.map fun c => (c, input.tail)
  getint input :=
    let input := input.dropWhile Char.isWhitespace
    let negative := input.head? = some '-'
    let input := if negative then input.tail else input
    let digits := input.takeWhile Text.isDigit
    (Text.readNatural? digits).map fun n =>
      (if negative then -(n : Int) else n, input.drop digits.length)
  geteol input := some ((input.dropWhile (· ≠ '\n')).drop 1)
  put code := [Char.ofNat code.toNat]
  putint n := (toString n).toList
  puteol := ['\n']

/-- Where the value of a V-name comes from. -/
inductive Root where
  /-- A constant. -/
  | value (value : Value)
  /-- A variable, which has a location in the store. -/
  | location (location : Nat)

/-- A part of a constant or of a variable. -/
structure Place where
  root : Root
  path : List Selector

/-- An assignment that was made. -/
structure Assignment where
  location : Nat
  path : List Selector
  value : Value

/-- What a program works on. -/
structure State where
  /-- What the variables hold, by location. -/
  store : List Value
  /-- What is left to read. -/
  input : List Char
  /-- What was written. -/
  output : List Char
  /-- What was assigned, in order. -/
  assigned : List Assignment

namespace State

/-- The state of a program before it runs. -/
def start (input : List Char) : State := ⟨[], input, [], []⟩

/-- What a constant or a variable holds. -/
def contents (s : State) : Root → Option Value
  | .value value => some value
  | .location location => s.store[location]?

/-- A part of a place, if there is one; so subscripts are within bounds. -/
def select (s : State) (place : Place) (selector : Selector) : Option Place := do
  let whole ← s.contents place.root
  let path := place.path ++ [selector]
  let _ ← whole.part path
  return ⟨place.root, path⟩

/-- The value at a place, if something was assigned to all of it. -/
def fetch (s : State) (place : Place) : Option Value := do
  let whole ← s.contents place.root
  let value ← whole.part place.path
  if value.defined then some value else none

/-- Assigns a value to a place in a variable. -/
def assign (s : State) (place : Place) (value : Value) : Option State :=
  match place.root with
  | .value _ => none
  | .location location => do
    let whole ← s.store[location]?
    let whole ← whole.update place.path value
    return { s with
      store := s.store.set location whole
      assigned := s.assigned ++ [⟨location, place.path, value⟩] }

/-- Makes room for one more variable. -/
def allocate (s : State) (value : Value) : State := { s with store := s.store ++ [value] }

/-- Gives up the variables from a location on. -/
def release (s : State) (location : Nat) : State := { s with store := s.store.take location }

/-- Writes some text. -/
def write (s : State) (text : List Char) : State := { s with output := s.output ++ text }

end State

/-! ## What names stand for -/

mutual

/-- What a name stands for while a program runs. -/
inductive Denotee where
  | value (value : Value)
  | variable (place : Place)
  /-- A procedure, with what the names in its text stand for. -/
  | procedure (id : NodeId) (parameters : Parameters) (body : Command) (environment : Environment)
  /-- A function, with what the names in its text stand for. -/
  | function (id : NodeId) (parameters : Parameters) (body : Expression) (environment : Environment)
  /-- A routine of the standard environment. -/
  | standard (routine : Standard)

/-- What the declarations and parameters of a program stand for, the innermost first. -/
inductive Environment where
  | empty
  | bind (id : NodeId) (denotee : Denotee) (rest : Environment)

end

/-- What a declaration or a parameter stands for. -/
def Environment.find? (id : NodeId) : Environment → Option Denotee
  | .empty => none
  | .bind other denotee rest => if other = id then some denotee else rest.find? id

/-- What a standard name stands for. -/
def Standard.denotee? : Standard → Option Denotee
  | false_ => some (.value (.bool false))
  | true_ => some (.value (.bool true))
  | maxint => some (.value (.int Machine.maxint))
  | chr => some (.standard chr)
  | ord => some (.standard ord)
  | eof => some (.standard eof)
  | eol => some (.standard eol)
  | get => some (.standard get)
  | put => some (.standard put)
  | getint => some (.standard getint)
  | putint => some (.standard putint)
  | geteol => some (.standard geteol)
  | puteol => some (.standard puteol)
  | _ => none

/-- What a name stands for, by what it refers to. -/
def Annotations.denotee? (A : Annotations) (environment : Environment) (name : Terminal) :
    Option Denotee :=
  match A.referentOf? name.mark.id with
  | some (.node id) => environment.find? id
  | some (.standard declaration) => declaration.denotee?
  | none => none

/-- The standard operator that an operator refers to. -/
def Annotations.operator? (A : Annotations) (operator : Terminal) : Option Standard :=
  match A.referentOf? operator.mark.id with
  | some (.standard declaration) => some declaration
  | _ => none

/-- Parameters stand for what is passed for them. -/
def Parameters.bind : Parameters → List Denotee → Environment → Option Environment
  | .empty _, [], environment => some environment
  | .single _ parameter, [passed], environment =>
    some (.bind parameter.mark.id passed environment)
  | .multiple _ first rest, passed :: others, environment =>
    rest.bind others (.bind first.mark.id passed environment)
  | _, _, _ => none

namespace Standard

/-- What a standard procedure does. -/
def execute (device : Device) : Standard → List Denotee → State → Option State
  | get, [.variable place], s => do
    let (c, rest) ← device.get s.input
    { s with input := rest }.assign place (.char c.toNat)
  | getint, [.variable place], s => do
    let (n, rest) ← device.getint s.input
    { s with input := rest }.assign place (← Value.integer? n)
  | geteol, [], s => do
    let rest ← device.geteol s.input
    return { s with input := rest }
  | put, [.value (.char code)], s => some (s.write (device.put code))
  | putint, [.value (.int n)], s => some (s.write (device.putint n))
  | puteol, [], s => some (s.write device.puteol)
  | _, _, _ => none

/-- What a standard function yields. -/
def apply (device : Device) : Standard → List Denotee → State → Option Value
  | chr, [.value (.int n)], _ => some (.char n)
  | ord, [.value (.char code)], _ => some (.int code)
  | eof, [], s => some (.bool (device.eof s.input))
  | eol, [], s => some (.bool (device.eol s.input))
  | _, _, _ => none

end Standard

/-! ## Phrases -/

mutual

/-- What a command does. -/
def Command.execute (device : Device) (A : Annotations) :
    Nat → Command → Environment → State → Option State
  | 0, _, _, _ => none
  | fuel + 1, .assign _ target value, env, s => do
    let value ← value.evaluate device A fuel env s
    let place ← target.identify device A fuel env s
    s.assign place value
  | fuel + 1, .doubleAssign _ first second firstValue secondValue, env, s => do
    let value ← firstValue.evaluate device A fuel env s
    let place ← first.identify device A fuel env s
    let value' ← secondValue.evaluate device A fuel env s
    let place' ← second.identify device A fuel env s
    let s ← s.assign place' value'
    s.assign place value
  | fuel + 1, .call _ name arguments, env, s => do
    let passed ← arguments.pass device A fuel env s
    let routine ← A.denotee? env name
    routine.execute device A fuel passed s
  | _ + 1, .empty _, _, s => some s
  | fuel + 1, .ifElse _ condition first second, env, s => do
    match ← condition.evaluate device A fuel env s with
    | .bool true => first.execute device A fuel env s
    | .bool false => second.execute device A fuel env s
    | _ => none
  | fuel + 1, .letIn _ declaration body, env, s => do
    let (inner, s') ← declaration.elaborate device A fuel env s
    let s' ← body.execute device A fuel inner s'
    return s'.release s.store.length
  | fuel + 1, .sequential _ first second, env, s => do
    let s ← first.execute device A fuel env s
    second.execute device A fuel env s
  | fuel + 1, .whileDo m condition body, env, s => do
    match ← condition.evaluate device A fuel env s with
    | .bool true =>
      let s ← body.execute device A fuel env s
      Command.execute device A fuel (.whileDo m condition body) env s
    | .bool false => some s
    | _ => none
  | fuel + 1, .loopWhile m prelude condition body, env, s => do
    let s ← prelude.execute device A fuel env s
    match ← condition.evaluate device A fuel env s with
    | .bool true =>
      let s ← body.execute device A fuel env s
      Command.execute device A fuel (.loopWhile m prelude condition body) env s
    | .bool false => some s
    | _ => none

/-- What an expression yields. -/
def Expression.evaluate (device : Device) (A : Annotations) :
    Nat → Expression → Environment → State → Option Value
  | 0, _, _, _ => none
  | fuel + 1, .array _ elements, env, s => do
    let values ← elements.evaluate device A fuel env s
    return .composite (.ofElements 0 values)
  | fuel + 1, .binary _ left operator right, env, s => do
    let left ← left.evaluate device A fuel env s
    let right ← right.evaluate device A fuel env s
    (← A.operator? operator).binary? left right
  | fuel + 1, .call _ name arguments, env, s => do
    let passed ← arguments.pass device A fuel env s
    let routine ← A.denotee? env name
    routine.apply device A fuel passed s
  | _ + 1, .character _ literal, _, _ => do
    let c ← Literal.characterValue? literal.spelling
    return .char c.toNat
  | _ + 1, .empty _, _, _ => none
  | fuel + 1, .ifElse _ condition first second, env, s => do
    match ← condition.evaluate device A fuel env s with
    | .bool true => first.evaluate device A fuel env s
    | .bool false => second.evaluate device A fuel env s
    | _ => none
  | _ + 1, .integer _ literal, _, _ => do
    Value.integer? (← Literal.integerValue? literal.spelling)
  | fuel + 1, .letIn _ declaration body, env, s => do
    let (inner, s) ← declaration.elaborate device A fuel env s
    body.evaluate device A fuel inner s
  | fuel + 1, .record _ fields, env, s => do
    return .composite (← fields.evaluate device A fuel env s)
  | fuel + 1, .unary _ operator operand, env, s => do
    let operand ← operand.evaluate device A fuel env s
    (← A.operator? operator).unary? operand
  | fuel + 1, .vname _ vname, env, s => do
    s.fetch (← vname.identify device A fuel env s)

/-- What a declaration introduces, and the variables that it makes. -/
def Declaration.elaborate (device : Device) (A : Annotations) :
    Nat → Declaration → Environment → State → Option (Environment × State)
  | 0, _, _, _ => none
  | _ + 1, .binaryOperator _ _ _ _ _, _, _ | _ + 1, .unaryOperator _ _ _ _, _, _ => none
  | fuel + 1, .const m _ value, env, s => do
    return (.bind m.id (.value (← value.evaluate device A fuel env s)) env, s)
  | _ + 1, .func m _ parameters _ body, env, s =>
    some (.bind m.id (.function m.id parameters body env) env, s)
  | _ + 1, .proc m _ parameters body, env, s =>
    some (.bind m.id (.procedure m.id parameters body env) env, s)
  | fuel + 1, .sequential _ first second, env, s => do
    let (env, s) ← first.elaborate device A fuel env s
    second.elaborate device A fuel env s
  | _ + 1, .type _ _ _, env, s => some (env, s)
  | _ + 1, .var m _ _, env, s => do
    let type ← A.typeOf? m.id
    return (.bind m.id (.variable ⟨.location s.store.length, []⟩) env, s.allocate type.unassigned)

/-- What a V-name stands for. -/
def Vname.identify (device : Device) (A : Annotations) :
    Nat → Vname → Environment → State → Option Place
  | 0, _, _, _ => none
  | fuel + 1, .dot _ record field, env, s => do
    s.select (← record.identify device A fuel env s) (.field field.spelling)
  | _ + 1, .simple _ name, env, _ =>
    match A.denotee? env name with
    | some (.value value) => some ⟨.value value, []⟩
    | some (.variable place) => some place
    | _ => none
  | fuel + 1, .subscript _ array index, env, s => do
    let place ← array.identify device A fuel env s
    match ← index.evaluate device A fuel env s with
    | .int i => s.select place (.index i)
    | _ => none

/-- What an argument passes. -/
def Argument.pass (device : Device) (A : Annotations) :
    Nat → Argument → Environment → State → Option Denotee
  | 0, _, _, _ => none
  | fuel + 1, .const _ value, env, s => do
    return .value (← value.evaluate device A fuel env s)
  | _ + 1, .func _ name, env, _ | _ + 1, .proc _ name, env, _ => A.denotee? env name
  | fuel + 1, .var _ vname, env, s => do
    return .variable (← vname.identify device A fuel env s)

/-- What arguments pass. -/
def Arguments.pass (device : Device) (A : Annotations) :
    Nat → Arguments → Environment → State → Option (List Denotee)
  | 0, _, _, _ => none
  | _ + 1, .empty _, _, _ => some []
  | fuel + 1, .single _ argument, env, s => do
    return [← argument.pass device A fuel env s]
  | fuel + 1, .multiple _ first rest, env, s => do
    let passed ← first.pass device A fuel env s
    return passed :: (← rest.pass device A fuel env s)

/-- The elements of an array. -/
def ArrayAggregate.evaluate (device : Device) (A : Annotations) :
    Nat → ArrayAggregate → Environment → State → Option (List Value)
  | 0, _, _, _ => none
  | fuel + 1, .single _ element, env, s => do
    return [← element.evaluate device A fuel env s]
  | fuel + 1, .multiple _ first rest, env, s => do
    let value ← first.evaluate device A fuel env s
    return value :: (← rest.evaluate device A fuel env s)

/-- The fields of a record. -/
def RecordAggregate.evaluate (device : Device) (A : Annotations) :
    Nat → RecordAggregate → Environment → State → Option Parts
  | 0, _, _, _ => none
  | fuel + 1, .single _ field value, env, s => do
    return .cons (.field field.spelling) (← value.evaluate device A fuel env s) .nil
  | fuel + 1, .multiple _ field value rest, env, s => do
    let value ← value.evaluate device A fuel env s
    return .cons (.field field.spelling) value (← rest.evaluate device A fuel env s)

/-- Calls a procedure.  In its text it stands for itself. -/
def Denotee.execute (device : Device) (A : Annotations) :
    Nat → Denotee → List Denotee → State → Option State
  | fuel + 1, .procedure id parameters body env, passed, s => do
    let env ← parameters.bind passed (.bind id (.procedure id parameters body env) env)
    body.execute device A fuel env s
  | _ + 1, .standard routine, passed, s => routine.execute device passed s
  | _, _, _, _ => none

/-- Calls a function.  In its text it stands for itself. -/
def Denotee.apply (device : Device) (A : Annotations) :
    Nat → Denotee → List Denotee → State → Option Value
  | fuel + 1, .function id parameters body env, passed, s => do
    let env ← parameters.bind passed (.bind id (.function id parameters body env) env)
    body.evaluate device A fuel env s
  | _ + 1, .standard routine, passed, s => routine.apply device passed s
  | _, _, _, _ => none

end

/-- A program, run on an input, terminates without a fault in a state. -/
def Program.Terminates (program : Program) (device : Device) (A : Annotations) (input : List Char)
    (final : State) : Prop :=
  ∃ fuel, program.command.execute device A fuel .empty (.start input) = some final

end Triangle
