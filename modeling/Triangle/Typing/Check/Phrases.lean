import Triangle.Typing.Check.State

/-!
# Checking

One function for each sort of phrase.  Parts are checked from left to right, and everything found
out is recorded, so that after an error the rest of the tree is checked as well.  A phrase that
was complained about has the erroneous type, which fits everywhere.

The name of a routine belongs to the scope around it and is known in its body, but not to its
parameters, which have a scope of their own around the body.
-/

namespace Triangle

open Check

/-! ## Types -/

mutual

/-- The type that a denoter stands for. -/
def TypeDenoter.check : TypeDenoter → Check Ty
  | .any m => typed m.id .any
  | .array m size element => do
    let element ← element.check
    match Literal.integerValue? size.spelling with
    | some length =>
      if 0 < length then
        typed m.id (.array length element)
      else
        report size.mark.span .emptyArray
        typed m.id .error
    | none => typed m.id .error
  | .bool m => typed m.id .bool
  | .char m => typed m.id .char
  | .error m => typed m.id .error
  | .int m => typed m.id .int
  | .record m fields => do
    let fields ← fields.check
    typed m.id (.record fields)
  | .simple m name => do
    match ← resolve name with
    | some (.type of) => typed m.id of
    | some _ =>
      wrongRole name .type
      typed m.id .error
    | none => typed m.id .error

/-- The fields that a record type has. -/
def FieldDenoters.check : FieldDenoters → Check Fields
  | .single _ name of => do
    let of ← of.check
    prependField name of .nil
  | .multiple _ name of rest => do
    let of ← of.check
    let rest ← rest.check
    prependField name of rest

end

/-! ## Formal parameters -/

mutual

/-- Declares a formal parameter in the innermost scope. -/
def Parameter.check : Parameter → Check Formal
  | .const m name of => do
    let of ← of.check
    let of ← typed m.id of
    declare name m.id (.const of)
    return .const of
  | .func m name parameters result => do
    openScope
    let formals ← parameters.check
    let _ ← closeScope
    let result ← result.check
    let result ← typed m.id result
    declare name m.id (.func formals result)
    return .func formals result
  | .proc m name parameters => do
    openScope
    let formals ← parameters.check
    let _ ← closeScope
    declare name m.id (.proc formals)
    return .proc formals
  | .var m name of => do
    let of ← of.check
    let of ← typed m.id of
    declare name m.id (.var of)
    return .var of

/-- Declares formal parameters in the innermost scope. -/
def Parameters.check : Parameters → Check Formals
  | .empty _ => return .nil
  | .single _ parameter => do
    let formal ← parameter.check
    return .cons formal .nil
  | .multiple _ first rest => do
    let first ← first.check
    let rest ← rest.check
    return .cons first rest

end

/-- Checks a routine: its parameters in a scope of their own, then its name in the scope around
it, then its body inside both. -/
def Check.routine (name : Terminal) (declaration : NodeId) (parameters : Parameters)
    (meaning : Formals → Meaning) (body : Check Unit) : Check Unit := do
  openScope
  let formals ← parameters.check
  let scope ← closeScope
  declare name declaration (meaning formals)
  restoreScope scope
  body
  let _ ← closeScope

/-- Records the type of a V-name and whether it is a variable, and passes both on. -/
def Check.named (id : NodeId) (ty : Ty) (assignable : Bool) : Check (Ty × Bool) := do
  let ty ← typed id ty
  if assignable then
    modify fun state => { state with annotations := state.annotations.withVariable id }
  return (ty, assignable)

/-- Reports a phrase that should be a variable and is not; an erroneous one is let pass. -/
def Check.requireVariable (ty : Ty) (assignable : Bool) (span : Span) (fault : ContextFault) :
    Check Unit :=
  unless assignable || ty.isError do
    report span fault

/-- Reports an argument of the wrong mode. -/
def Check.modeMismatch (span : Span) (formal : Formal) (found : Mode) : Check Unit :=
  report span (.modeMismatch formal.mode found)

/-! ## Commands, expressions and declarations -/

mutual

/-- Checks a command. -/
def Command.check : Command → Check Unit
  | .assign _ target value => do
    let (expected, assignable) ← target.check
    requireVariable expected assignable target.mark.span .notAVariable
    let found ← value.check
    require expected found value.mark.span
  | .doubleAssign _ first second firstValue secondValue => do
    let (expected, assignable) ← first.check
    requireVariable expected assignable first.mark.span .notAVariable
    let found ← firstValue.check
    require expected found firstValue.mark.span
    let (expected, assignable) ← second.check
    requireVariable expected assignable second.mark.span .notAVariable
    let found ← secondValue.check
    require expected found secondValue.mark.span
  | .call _ name arguments => do
    match ← procedure name with
    | some formals => arguments.check formals
    | none => return
  | .empty _ => return
  | .ifElse _ condition first second => do
    let found ← condition.check
    require .bool found condition.mark.span
    first.check
    second.check
  | .letIn _ declaration body => do
    openScope
    declaration.check
    body.check
    let _ ← closeScope
  | .sequential _ first second => do
    first.check
    second.check
  | .whileDo _ condition body => do
    let found ← condition.check
    require .bool found condition.mark.span
    body.check
  | .loopWhile _ prelude condition body => do
    prelude.check
    let found ← condition.check
    require .bool found condition.mark.span
    body.check

/-- The type of an expression. -/
def Expression.check : Expression → Check Ty
  | .array m elements => do
    let (element, length) ← elements.check
    typed m.id (.array length element)
  | .binary m left operator right => do
    let leftType ← left.check
    let rightType ← right.check
    match ← resolve operator with
    | some (.binary expectedLeft expectedRight result) =>
      if expectedLeft == .any then
        unless leftType.equivalent rightType do
          report m.span (.incompatibleOperands operator.spelling leftType rightType)
      else
        require expectedLeft leftType left.mark.span
        require expectedRight rightType right.mark.span
      typed m.id result
    | some _ =>
      wrongRole operator .binaryOperator
      typed m.id .error
    | none => typed m.id .error
  | .call m name arguments => do
    match ← function name with
    | some (formals, result) =>
      arguments.check formals
      typed m.id result
    | none => typed m.id .error
  | .character m _ => typed m.id .char
  | .empty m => typed m.id .error
  | .ifElse m condition first second => do
    let found ← condition.check
    require .bool found condition.mark.span
    let firstType ← first.check
    let secondType ← second.check
    unless firstType.equivalent secondType do
      report m.span (.incompatibleLimbs firstType secondType)
    typed m.id firstType
  | .integer m _ => typed m.id .int
  | .letIn m declaration body => do
    openScope
    declaration.check
    let found ← body.check
    let _ ← closeScope
    typed m.id found
  | .record m fields => do
    let fields ← fields.check
    typed m.id (.record fields)
  | .unary m operator operand => do
    let operandType ← operand.check
    match ← resolve operator with
    | some (.unary expected result) =>
      require expected operandType operand.mark.span
      typed m.id result
    | some _ =>
      wrongRole operator .unaryOperator
      typed m.id .error
    | none => typed m.id .error
  | .vname m vname => do
    let (found, _) ← vname.check
    typed m.id found

/-- Checks a declaration and introduces its names into the innermost scope. -/
def Declaration.check : Declaration → Check Unit
  | .binaryOperator m operator left right result => do
    let left ← left.check
    let right ← right.check
    let result ← result.check
    declare operator m.id (.binary left right result)
  | .const m name value => do
    let of ← value.check
    let of ← typed m.id of
    declare name m.id (.const of)
  | .func m name parameters result body => do
    let result ← result.check
    let result ← typed m.id result
    routine name m.id parameters (.func · result) do
      let found ← body.check
      require result found body.mark.span
  | .proc m name parameters body =>
    routine name m.id parameters .proc body.check
  | .sequential _ first second => do
    first.check
    second.check
  | .type m name of => do
    let of ← of.check
    let of ← typed m.id of
    declare name m.id (.type of)
  | .unaryOperator m operator operand result => do
    let operand ← operand.check
    let result ← result.check
    declare operator m.id (.unary operand result)
  | .var m name of => do
    let of ← of.check
    let of ← typed m.id of
    declare name m.id (.var of)

/-- The type of a V-name, and whether it is a variable. -/
def Vname.check : Vname → Check (Ty × Bool)
  | .dot m record field => do
    let (recordType, assignable) ← record.check
    match recordType with
    | .error => named m.id .error assignable
    | .record _ =>
      match ← recordType.field field.spelling with
      | some (_, of) => named m.id of assignable
      | none =>
        report field.mark.span (.noSuchField field.spelling recordType)
        named m.id .error assignable
    | _ =>
      report record.mark.span (.notARecord recordType)
      named m.id .error assignable
  | .simple m name => do
    match ← resolve name with
    | some (.const of) => named m.id of false
    | some (.var of) => named m.id of true
    | some _ =>
      wrongRole name .value
      named m.id .error false
    | none => named m.id .error false
  | .subscript m array index => do
    let (arrayType, assignable) ← array.check
    let found ← index.check
    require .int found index.mark.span
    match arrayType with
    | .error => named m.id .error assignable
    | .array _ element => named m.id element assignable
    | _ =>
      report array.mark.span (.notAnArray arrayType)
      named m.id .error assignable

/-- Checks an actual parameter against a formal one. -/
def Argument.check : Argument → Formal → Check Unit
  | .const m value, formal => do
    let found ← value.check
    match formal with
    | .const expected => require expected found value.mark.span
    | _ => modeMismatch m.span formal .const
  | .func m name, formal => do
    match ← function name with
    | some (formals, result) =>
      match formal with
      | .func _ _ =>
        unless (Formal.func formals result).matches formal do
          report name.mark.span (.wrongSignature name.spelling)
      | _ => modeMismatch m.span formal .func
    | none => return
  | .proc m name, formal => do
    match ← procedure name with
    | some formals =>
      match formal with
      | .proc expected =>
        unless expected.matches formals do
          report name.mark.span (.wrongSignature name.spelling)
      | _ => modeMismatch m.span formal .proc
    | none => return
  | .var m vname, formal => do
    let (found, assignable) ← vname.check
    requireVariable found assignable vname.mark.span .notAVariableArgument
    match formal with
    | .var expected => require expected found vname.mark.span
    | _ => modeMismatch m.span formal .var

/-- Checks actual parameters against formal ones. -/
def Arguments.check : Arguments → Formals → Check Unit
  | .empty m, formals =>
    match formals with
    | .nil => return
    | .cons _ _ => report m.span .tooFewArguments
  | .single m argument, formals =>
    match formals with
    | .nil => report m.span .tooManyArguments
    | .cons formal .nil => argument.check formal
    | .cons formal _ => do
      argument.check formal
      report m.span .tooFewArguments
  | .multiple m first rest, formals =>
    match formals with
    | .nil => report m.span .tooManyArguments
    | .cons formal others => do
      first.check formal
      rest.check others

/-- The type and the number of the elements of an array. -/
def ArrayAggregate.check : ArrayAggregate → Check (Ty × Int)
  | .single _ element => do
    let found ← element.check
    return (found, 1)
  | .multiple _ first rest => do
    let element ← first.check
    let (others, count) ← rest.check
    require element others rest.mark.span
    return (element, count + 1)

/-- The fields of a record. -/
def RecordAggregate.check : RecordAggregate → Check Fields
  | .single _ field value => do
    let of ← value.check
    prependField field of .nil
  | .multiple _ field value rest => do
    let of ← value.check
    let rest ← rest.check
    prependField field of rest

end

/-- What is known about a program after checking it, and the log after that. -/
def Program.check (program : Program) (log : Log Problem) :
    Checked (Annotations × Log Problem) := do
  let (_, state) ← program.command.check.run ⟨.initial, .empty, log⟩
  return (state.annotations, state.log)

end Triangle
