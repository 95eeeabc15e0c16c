import Triangle.Syntax.Tree

/-!
# Numbering a tree

A tree that was not read from a text gets its marks here: identities in post-order, a phrase
after its parts, and one span for all of it.
-/

namespace Triangle

/-- Computations that hand out identities one after the other. -/
abbrev Supply := StateM Nat

/-- A mark with the next identity. -/
def Supply.issue (span : Span) : Supply Mark :=
  modifyGet fun issued => (⟨issued, span⟩, issued + 1)

open Supply (issue)

/-- Numbers a terminal. -/
def Terminal.number (span : Span) (terminal : Terminal) : Supply Terminal := do
  return { terminal with mark := ← issue span }

mutual

/-- Numbers a type denoter. -/
def TypeDenoter.number (span : Span) : TypeDenoter → Supply TypeDenoter
  | .any _ => return .any (← issue span)
  | .array _ size element => do
    let size ← size.number span
    let element ← element.number span
    return .array (← issue span) size element
  | .bool _ => return .bool (← issue span)
  | .char _ => return .char (← issue span)
  | .error _ => return .error (← issue span)
  | .int _ => return .int (← issue span)
  | .record _ fields => do
    let fields ← fields.number span
    return .record (← issue span) fields
  | .simple _ name => do
    let name ← name.number span
    return .simple (← issue span) name

/-- Numbers the fields of a record type. -/
def FieldDenoters.number (span : Span) : FieldDenoters → Supply FieldDenoters
  | .single _ name of => do
    let name ← name.number span
    let of ← of.number span
    return .single (← issue span) name of
  | .multiple _ name of rest => do
    let name ← name.number span
    let of ← of.number span
    let rest ← rest.number span
    return .multiple (← issue span) name of rest

end

mutual

/-- Numbers a formal parameter. -/
def Parameter.number (span : Span) : Parameter → Supply Parameter
  | .const _ name of => do
    let name ← name.number span
    let of ← of.number span
    return .const (← issue span) name of
  | .func _ name parameters result => do
    let name ← name.number span
    let parameters ← parameters.number span
    let result ← result.number span
    return .func (← issue span) name parameters result
  | .proc _ name parameters => do
    let name ← name.number span
    let parameters ← parameters.number span
    return .proc (← issue span) name parameters
  | .var _ name of => do
    let name ← name.number span
    let of ← of.number span
    return .var (← issue span) name of

/-- Numbers a sequence of formal parameters. -/
def Parameters.number (span : Span) : Parameters → Supply Parameters
  | .empty _ => return .empty (← issue span)
  | .single _ parameter => do
    let parameter ← parameter.number span
    return .single (← issue span) parameter
  | .multiple _ first rest => do
    let first ← first.number span
    let rest ← rest.number span
    return .multiple (← issue span) first rest

end

mutual

/-- Numbers a command. -/
def Command.number (span : Span) : Command → Supply Command
  | .assign _ target value => do
    let target ← target.number span
    let value ← value.number span
    return .assign (← issue span) target value
  | .doubleAssign _ first second firstValue secondValue => do
    let first ← first.number span
    let second ← second.number span
    let firstValue ← firstValue.number span
    let secondValue ← secondValue.number span
    return .doubleAssign (← issue span) first second firstValue secondValue
  | .call _ name arguments => do
    let name ← name.number span
    let arguments ← arguments.number span
    return .call (← issue span) name arguments
  | .empty _ => return .empty (← issue span)
  | .ifElse _ condition first second => do
    let condition ← condition.number span
    let first ← first.number span
    let second ← second.number span
    return .ifElse (← issue span) condition first second
  | .letIn _ declaration body => do
    let declaration ← declaration.number span
    let body ← body.number span
    return .letIn (← issue span) declaration body
  | .sequential _ first second => do
    let first ← first.number span
    let second ← second.number span
    return .sequential (← issue span) first second
  | .whileDo _ condition body => do
    let condition ← condition.number span
    let body ← body.number span
    return .whileDo (← issue span) condition body
  | .loopWhile _ prelude condition body => do
    let prelude ← prelude.number span
    let condition ← condition.number span
    let body ← body.number span
    return .loopWhile (← issue span) prelude condition body

/-- Numbers an expression. -/
def Expression.number (span : Span) : Expression → Supply Expression
  | .array _ elements => do
    let elements ← elements.number span
    return .array (← issue span) elements
  | .binary _ left operator right => do
    let left ← left.number span
    let operator ← operator.number span
    let right ← right.number span
    return .binary (← issue span) left operator right
  | .call _ name arguments => do
    let name ← name.number span
    let arguments ← arguments.number span
    return .call (← issue span) name arguments
  | .character _ literal => do
    let literal ← literal.number span
    return .character (← issue span) literal
  | .empty _ => return .empty (← issue span)
  | .ifElse _ condition first second => do
    let condition ← condition.number span
    let first ← first.number span
    let second ← second.number span
    return .ifElse (← issue span) condition first second
  | .integer _ literal => do
    let literal ← literal.number span
    return .integer (← issue span) literal
  | .letIn _ declaration body => do
    let declaration ← declaration.number span
    let body ← body.number span
    return .letIn (← issue span) declaration body
  | .record _ fields => do
    let fields ← fields.number span
    return .record (← issue span) fields
  | .unary _ operator operand => do
    let operator ← operator.number span
    let operand ← operand.number span
    return .unary (← issue span) operator operand
  | .vname _ vname => do
    let vname ← vname.number span
    return .vname (← issue span) vname

/-- Numbers a declaration. -/
def Declaration.number (span : Span) : Declaration → Supply Declaration
  | .binaryOperator _ operator left right result => do
    let operator ← operator.number span
    let left ← left.number span
    let right ← right.number span
    let result ← result.number span
    return .binaryOperator (← issue span) operator left right result
  | .const _ name value => do
    let name ← name.number span
    let value ← value.number span
    return .const (← issue span) name value
  | .func _ name parameters result body => do
    let name ← name.number span
    let parameters ← parameters.number span
    let result ← result.number span
    let body ← body.number span
    return .func (← issue span) name parameters result body
  | .proc _ name parameters body => do
    let name ← name.number span
    let parameters ← parameters.number span
    let body ← body.number span
    return .proc (← issue span) name parameters body
  | .sequential _ first second => do
    let first ← first.number span
    let second ← second.number span
    return .sequential (← issue span) first second
  | .type _ name of => do
    let name ← name.number span
    let of ← of.number span
    return .type (← issue span) name of
  | .unaryOperator _ operator operand result => do
    let operator ← operator.number span
    let operand ← operand.number span
    let result ← result.number span
    return .unaryOperator (← issue span) operator operand result
  | .var _ name of => do
    let name ← name.number span
    let of ← of.number span
    return .var (← issue span) name of

/-- Numbers a V-name. -/
def Vname.number (span : Span) : Vname → Supply Vname
  | .dot _ record field => do
    let record ← record.number span
    let field ← field.number span
    return .dot (← issue span) record field
  | .simple _ name => do
    let name ← name.number span
    return .simple (← issue span) name
  | .subscript _ array index => do
    let array ← array.number span
    let index ← index.number span
    return .subscript (← issue span) array index

/-- Numbers an actual parameter. -/
def Argument.number (span : Span) : Argument → Supply Argument
  | .const _ value => do
    let value ← value.number span
    return .const (← issue span) value
  | .func _ name => do
    let name ← name.number span
    return .func (← issue span) name
  | .proc _ name => do
    let name ← name.number span
    return .proc (← issue span) name
  | .var _ vname => do
    let vname ← vname.number span
    return .var (← issue span) vname

/-- Numbers a sequence of actual parameters. -/
def Arguments.number (span : Span) : Arguments → Supply Arguments
  | .empty _ => return .empty (← issue span)
  | .single _ argument => do
    let argument ← argument.number span
    return .single (← issue span) argument
  | .multiple _ first rest => do
    let first ← first.number span
    let rest ← rest.number span
    return .multiple (← issue span) first rest

/-- Numbers the elements of an array. -/
def ArrayAggregate.number (span : Span) : ArrayAggregate → Supply ArrayAggregate
  | .single _ element => do
    let element ← element.number span
    return .single (← issue span) element
  | .multiple _ first rest => do
    let first ← first.number span
    let rest ← rest.number span
    return .multiple (← issue span) first rest

/-- Numbers the fields of a record. -/
def RecordAggregate.number (span : Span) : RecordAggregate → Supply RecordAggregate
  | .single _ field value => do
    let field ← field.number span
    let value ← value.number span
    return .single (← issue span) field value
  | .multiple _ field value rest => do
    let field ← field.number span
    let value ← value.number span
    let rest ← rest.number span
    return .multiple (← issue span) field value rest

end

/-- The program that is a command, with the same span for every node. -/
def Program.ofCommand (span : Span) (command : Command) : Program :=
  let (command, issued) := (command.number span).run 0
  ⟨⟨issued, span⟩, command, issued + 1⟩

end Triangle
