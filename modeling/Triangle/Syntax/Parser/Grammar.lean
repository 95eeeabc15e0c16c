import Triangle.Syntax.Numbering
import Triangle.Syntax.Parser.State

/-!
# Parsing

One function for each sort of phrase, each of which looks at the current token only.  A tree is
always built: what is missing is replaced by an empty phrase, a made-up terminal or an erroneous
type denoter.

All binary operators have the same precedence and group to the left; a unary operator takes the
primary expression after it.  Sequences of commands, declarations, parameters, arguments, elements
and fields group to the right.

The first argument of each function bounds how deeply calls may nest below it.  Between two calls
of the same function a token is passed, so a bound proportional to the number of tokens is enough,
and `parse` uses such a bound.
-/

namespace Triangle

namespace Parser

/-! ## Types -/

/-- An erroneous type denoter at the current token. -/
def erroneousType : Parser TypeDenoter := do
  let start ← here
  return .error (← node start)

mutual

/-- A type denoter. -/
def typeDenoter : Nat → Parser TypeDenoter
  | 0 => failure
  | depth + 1 => do
    let start ← here
    match ← kind with
    | .identifier =>
      let name ← terminal
      return .simple (← node start) name
    | .keyword .array =>
      let _ ← advance
      let size ← terminalOf .integer
      keyword .of
      let element ← typeDenoter depth
      return .array (← node start) size element
    | .keyword .record =>
      let _ ← advance
      let fields ← fieldDenoters depth
      keyword .end_
      return .record (← node start) fields
    | _ =>
      recover .typeDenoter
      erroneousType

/-- The fields of a record type. -/
def fieldDenoters : Nat → Parser FieldDenoters
  | 0 => failure
  | depth + 1 => do
    let start ← here
    let name ← identifier
    expect .colon
    let of ← typeDenoter depth
    if ← looksAt .comma then
      let _ ← advance
      let rest ← fieldDenoters depth
      return .multiple (← node start) name of rest
    else
      return .single (← node start) name of

end

/-! ## Formal parameters -/

mutual

/-- Formal parameters between parentheses. -/
def parameters : Nat → Parser Parameters
  | 0 => failure
  | depth + 1 => do
    expect .openParen
    let start ← here
    let sequence ←
      if ← looksAt .closeParen then
        pure (.empty (← node start))
      else
        properParameters depth
    expect .closeParen
    return sequence

/-- One or more formal parameters. -/
def properParameters : Nat → Parser Parameters
  | 0 => failure
  | depth + 1 => do
    let start ← here
    let first ← parameter depth
    if ← looksAt .comma then
      let _ ← advance
      let rest ← properParameters depth
      return .multiple (← node start) first rest
    else
      return .single (← node start) first

/-- A formal parameter. -/
def parameter : Nat → Parser Parameter
  | 0 => failure
  | depth + 1 => do
    let start ← here
    match ← kind with
    | .identifier =>
      let name ← terminal
      expect .colon
      let of ← typeDenoter depth
      return .const (← node start) name of
    | .keyword .var =>
      let _ ← advance
      let name ← identifier
      expect .colon
      let of ← typeDenoter depth
      return .var (← node start) name of
    | .keyword .proc =>
      let _ ← advance
      let name ← identifier
      let parameters ← parameters depth
      return .proc (← node start) name parameters
    | .keyword .func =>
      let _ ← advance
      let name ← identifier
      let parameters ← parameters depth
      expect .colon
      let result ← typeDenoter depth
      return .func (← node start) name parameters result
    | _ =>
      recover .parameter
      let name ← missing
      let of ← erroneousType
      return .const (← node start) name of

end

/-! ## Commands, expressions and declarations -/

/-- An empty command at the current token. -/
def emptyCommand : Parser Command := do
  let start ← here
  return .empty (← node start)

mutual

/-- A command. -/
def command : Nat → Parser Command
  | 0 => failure
  | depth + 1 => do
    let start ← here
    let first ← singleCommand depth
    if ← looksAt .semicolon then
      let _ ← advance
      let second ← command depth
      return .sequential (← node start) first second
    else
      return first

/-- A command that is not a sequence. -/
def singleCommand : Nat → Parser Command
  | 0 => failure
  | depth + 1 => do
    let start ← here
    match ← kind with
    | .identifier =>
      let name ← terminal
      if ← looksAt .openParen then
        let arguments ← arguments depth
        return .call (← node start) name arguments
      let target ← vnameFrom depth name
      if ← looksAt .comma then
        let _ ← advance
        let second ← vname depth
        expect .becomes
        let firstValue ← expression depth
        expect .comma
        let secondValue ← expression depth
        return .doubleAssign (← node start) target second firstValue secondValue
      else
        expect .becomes
        let value ← expression depth
        return .assign (← node start) target value
    | .keyword .begin =>
      let _ ← advance
      let body ← command depth
      keyword .end_
      return body
    | .keyword .let_ =>
      let _ ← advance
      let declaration ← declaration depth
      keyword .in_
      let body ← singleCommand depth
      return .letIn (← node start) declaration body
    | .keyword .if_ =>
      let _ ← advance
      let condition ← expression depth
      keyword .then_
      let first ← singleCommand depth
      keyword .else_
      let second ← singleCommand depth
      return .ifElse (← node start) condition first second
    | .keyword .while_ =>
      let _ ← advance
      let condition ← expression depth
      match ← kind with
      | .keyword .do_ =>
        let _ ← advance
        let body ← singleCommand depth
        return .whileDo (← node start) condition body
      | .openCurly =>
        let _ ← advance
        let prelude ← emptyCommand
        let body ← command depth
        expect .closeCurly
        return .loopWhile (← node start) prelude condition body
      | _ =>
        complain .loopBody
        let body ← emptyCommand
        return .whileDo (← node start) condition body
    | .keyword .loop =>
      let _ ← advance
      let prelude ← singleCommand depth
      keyword .while_
      let condition ← expression depth
      keyword .do_
      let body ← singleCommand depth
      return .loopWhile (← node start) prelude condition body
    | .semicolon | .closeCurly | .endOfText | .keyword .end_ | .keyword .else_ | .keyword .in_ =>
      emptyCommand
    | _ =>
      recover .command
      emptyCommand

/-- An expression. -/
def expression : Nat → Parser Expression
  | 0 => failure
  | depth + 1 => do
    let start ← here
    match ← kind with
    | .keyword .let_ =>
      let _ ← advance
      let declaration ← declaration depth
      keyword .in_
      let body ← expression depth
      return .letIn (← node start) declaration body
    | .keyword .if_ =>
      let _ ← advance
      let condition ← expression depth
      keyword .then_
      let first ← expression depth
      keyword .else_
      let second ← expression depth
      return .ifElse (← node start) condition first second
    | _ =>
      let first ← primaryExpression depth
      operations depth start first

/-- What binary operators make of the expression to their left. -/
def operations : Nat → Span → Expression → Parser Expression
  | 0, _, _ => failure
  | depth + 1, start, left => do
    if ← looksAt .operator then
      let operator ← terminal
      let right ← primaryExpression depth
      operations depth start (.binary (← node start) left operator right)
    else
      return left

/-- An expression that no operator divides. -/
def primaryExpression : Nat → Parser Expression
  | 0 => failure
  | depth + 1 => do
    let start ← here
    match ← kind with
    | .integer =>
      let literal ← terminal
      return .integer (← node start) literal
    | .character =>
      let literal ← terminal
      return .character (← node start) literal
    | .identifier =>
      let name ← terminal
      if ← looksAt .openParen then
        let arguments ← arguments depth
        return .call (← node start) name arguments
      else
        let vname ← vnameFrom depth name
        return .vname (← node start) vname
    | .operator =>
      let operator ← terminal
      let operand ← primaryExpression depth
      return .unary (← node start) operator operand
    | .openParen =>
      let _ ← advance
      let body ← expression depth
      expect .closeParen
      return body
    | .openCurly =>
      let _ ← advance
      let fields ← recordAggregate depth
      expect .closeCurly
      return .record (← node start) fields
    | .openSquare =>
      let _ ← advance
      let elements ← arrayAggregate depth
      expect .closeSquare
      return .array (← node start) elements
    | _ =>
      recover .expression
      return .empty (← node start)

/-- The fields of a record. -/
def recordAggregate : Nat → Parser RecordAggregate
  | 0 => failure
  | depth + 1 => do
    let start ← here
    let field ← identifier
    expect .is
    let value ← expression depth
    if ← looksAt .comma then
      let _ ← advance
      let rest ← recordAggregate depth
      return .multiple (← node start) field value rest
    else
      return .single (← node start) field value

/-- The elements of an array. -/
def arrayAggregate : Nat → Parser ArrayAggregate
  | 0 => failure
  | depth + 1 => do
    let start ← here
    let first ← expression depth
    if ← looksAt .comma then
      let _ ← advance
      let rest ← arrayAggregate depth
      return .multiple (← node start) first rest
    else
      return .single (← node start) first

/-- A V-name. -/
def vname : Nat → Parser Vname
  | 0 => failure
  | depth + 1 => do
    let name ← identifier
    vnameFrom depth name

/-- The V-name that starts with an identifier already passed. -/
def vnameFrom : Nat → Terminal → Parser Vname
  | 0, _ => failure
  | depth + 1, name => do
    selectors depth name.mark.span (.simple (← node name.mark.span) name)

/-- What selectors of fields and elements make of the V-name to their left. -/
def selectors : Nat → Span → Vname → Parser Vname
  | 0, _, _ => failure
  | depth + 1, start, whole => do
    match ← kind with
    | .dot =>
      let _ ← advance
      let field ← identifier
      selectors depth start (.dot (← node start) whole field)
    | .openSquare =>
      let _ ← advance
      let index ← expression depth
      expect .closeSquare
      selectors depth start (.subscript (← node start) whole index)
    | _ => return whole

/-- Actual parameters between parentheses. -/
def arguments : Nat → Parser Arguments
  | 0 => failure
  | depth + 1 => do
    expect .openParen
    let start ← here
    let sequence ←
      if ← looksAt .closeParen then
        pure (.empty (← node start))
      else
        properArguments depth
    expect .closeParen
    return sequence

/-- One or more actual parameters. -/
def properArguments : Nat → Parser Arguments
  | 0 => failure
  | depth + 1 => do
    let start ← here
    let first ← argument depth
    if ← looksAt .comma then
      let _ ← advance
      let rest ← properArguments depth
      return .multiple (← node start) first rest
    else
      return .single (← node start) first

/-- An actual parameter. -/
def argument : Nat → Parser Argument
  | 0 => failure
  | depth + 1 => do
    let start ← here
    match ← kind with
    | .keyword .var =>
      let _ ← advance
      let vname ← vname depth
      return .var (← node start) vname
    | .keyword .proc =>
      let _ ← advance
      let name ← identifier
      return .proc (← node start) name
    | .keyword .func =>
      let _ ← advance
      let name ← identifier
      return .func (← node start) name
    | _ =>
      let value ← expression depth
      return .const (← node start) value

/-- A declaration. -/
def declaration : Nat → Parser Declaration
  | 0 => failure
  | depth + 1 => do
    let start ← here
    let first ← singleDeclaration depth
    if ← looksAt .semicolon then
      let _ ← advance
      let second ← declaration depth
      return .sequential (← node start) first second
    else
      return first

/-- A declaration that is not a sequence. -/
def singleDeclaration : Nat → Parser Declaration
  | 0 => failure
  | depth + 1 => do
    let start ← here
    match ← kind with
    | .keyword .const =>
      let _ ← advance
      let name ← identifier
      expect .is
      let value ← expression depth
      return .const (← node start) name value
    | .keyword .var =>
      let _ ← advance
      let name ← identifier
      expect .colon
      let of ← typeDenoter depth
      return .var (← node start) name of
    | .keyword .proc =>
      let _ ← advance
      let name ← identifier
      let parameters ← parameters depth
      expect .is
      let body ← singleCommand depth
      return .proc (← node start) name parameters body
    | .keyword .func =>
      let _ ← advance
      let name ← identifier
      let parameters ← parameters depth
      expect .colon
      let result ← typeDenoter depth
      expect .is
      let body ← expression depth
      return .func (← node start) name parameters result body
    | .keyword .type =>
      let _ ← advance
      let name ← identifier
      expect .is
      let of ← typeDenoter depth
      return .type (← node start) name of
    | _ =>
      recover .declaration
      let name ← missing
      let of ← erroneousType
      return .type (← node start) name of

end

/-! ## Programs -/

/-- A whole program, with calls nested at most as deeply as `depth`. -/
def program (depth : Nat) : Parser Program := do
  let start ← here
  let command ← command depth
  unless ← looksAt .endOfText do
    complain (.token .endOfText)
  let mark ← node start
  return ⟨mark, command, (← get).issued⟩

/-- How deeply the calls for a text may nest. -/
def depthBound (state : ParserState) : Nat :=
  10 * (state.reader.upcoming.length + 2)

end Parser

/-- A tree and the complaints about the text it was read from. -/
structure Parsed where
  program : Program
  log : Log Problem

/-- The tree of a source. -/
def parse (source : Source) (failFast : Bool) : Parsed :=
  let state := Parser.start source failFast
  match Parser.program (Parser.depthBound state) state with
  | some (program, state) => ⟨program, state.reader.log⟩
  | none => ⟨.ofCommand state.current.span (.empty default), state.reader.log⟩

end Triangle
