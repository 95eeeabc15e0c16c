import Triangle.Folding.Constant

/-!
# Constant folding

Unary and binary expressions whose value is known are replaced by literals, from the innermost
ones outwards, so that a whole constant expression becomes one literal in a single pass.  A truth
value becomes a reference to the standard `true` or `false`.

The literals are new nodes: they get identities of their own, and what checking would have found
out about them is recorded.  A constant division by zero is kept and warned about.
-/

namespace Triangle

/-- Numbers of replaced expressions, by the type of the result. -/
structure FoldCounts where
  integers : Nat := 0
  booleans : Nat := 0
deriving DecidableEq

/-- The number of replaced expressions. -/
def FoldCounts.total (counts : FoldCounts) : Nat :=
  counts.integers + counts.booleans

/-- What folding has at hand. -/
structure FoldState where
  /-- How many identities were handed out. -/
  issued : Nat
  annotations : Annotations
  log : Log Problem
  counts : FoldCounts

/-- A step of folding. -/
abbrev Fold := StateM FoldState

namespace Fold

/-- A mark with the next identity. -/
def node (span : Span) : Fold Mark :=
  modifyGet fun state => (⟨state.issued, span⟩, { state with issued := state.issued + 1 })

/-- Changes what is known about the tree. -/
def annotate (change : Annotations → Annotations) : Fold Unit :=
  modify fun state => { state with annotations := change state.annotations }

/-- The standard declaration of a truth value. -/
def truth (value : Bool) : Standard :=
  if value then .true_ else .false_

/-- The literal for a constant. -/
def literal (span : Span) : Constant → Fold Expression
  | .int value => do
    let m ← node span
    annotate (·.withType m.id .int)
    let terminal ← node span
    modify fun state =>
      { state with counts := { state.counts with integers := state.counts.integers + 1 } }
    return .integer m ⟨terminal, toString value⟩
  | .bool value => do
    let m ← node span
    annotate (·.withType m.id .bool)
    let name ← node span
    annotate (·.withReferent name.id (.standard (truth value)))
    let vname ← node span
    annotate (·.withType vname.id .bool)
    modify fun state =>
      { state with counts := { state.counts with booleans := state.counts.booleans + 1 } }
    return .vname m (.simple vname ⟨name, (truth value).spelling⟩)

/-- An expression, or the literal for what becomes of it. -/
def replace (expression : Expression) (operator : Terminal) :
    Constant.Outcome → Fold Expression
  | .value constant => literal expression.mark.span constant
  | .byZero operation => do
    modify fun state =>
      { state with log := state.log.warn operator.mark.span (.zeroDivision operation) }
    return expression
  | .unknown => return expression

end Fold

open Fold

mutual

/-- Folds the expressions in a command. -/
def Command.fold : Command → Fold Command
  | .assign m target value => do
    let target ← target.fold
    let value ← value.fold
    return .assign m target value
  | .doubleAssign m first second firstValue secondValue => do
    let first ← first.fold
    let second ← second.fold
    let firstValue ← firstValue.fold
    let secondValue ← secondValue.fold
    return .doubleAssign m first second firstValue secondValue
  | .call m name arguments => do
    let arguments ← arguments.fold
    return .call m name arguments
  | .empty m => return .empty m
  | .ifElse m condition first second => do
    let condition ← condition.fold
    let first ← first.fold
    let second ← second.fold
    return .ifElse m condition first second
  | .letIn m declaration body => do
    let declaration ← declaration.fold
    let body ← body.fold
    return .letIn m declaration body
  | .sequential m first second => do
    let first ← first.fold
    let second ← second.fold
    return .sequential m first second
  | .whileDo m condition body => do
    let condition ← condition.fold
    let body ← body.fold
    return .whileDo m condition body
  | .loopWhile m prelude condition body => do
    let prelude ← prelude.fold
    let condition ← condition.fold
    let body ← body.fold
    return .loopWhile m prelude condition body

/-- Folds an expression. -/
def Expression.fold : Expression → Fold Expression
  | .array m elements => do
    let elements ← elements.fold
    return .array m elements
  | .binary m left operator right => do
    let left ← left.fold
    let right ← right.fold
    let outcome := (← get).annotations.foldBinary operator left right
    replace (.binary m left operator right) operator outcome
  | .call m name arguments => do
    let arguments ← arguments.fold
    return .call m name arguments
  | .character m literal => return .character m literal
  | .empty m => return .empty m
  | .ifElse m condition first second => do
    let condition ← condition.fold
    let first ← first.fold
    let second ← second.fold
    return .ifElse m condition first second
  | .integer m literal => return .integer m literal
  | .letIn m declaration body => do
    let declaration ← declaration.fold
    let body ← body.fold
    return .letIn m declaration body
  | .record m fields => do
    let fields ← fields.fold
    return .record m fields
  | .unary m operator operand => do
    let operand ← operand.fold
    let outcome := (← get).annotations.foldUnary operator operand
    replace (.unary m operator operand) operator outcome
  | .vname m vname => do
    let vname ← vname.fold
    return .vname m vname

/-- Folds the expressions in a declaration. -/
def Declaration.fold : Declaration → Fold Declaration
  | .binaryOperator m operator left right result =>
    return .binaryOperator m operator left right result
  | .const m name value => do
    let value ← value.fold
    return .const m name value
  | .func m name parameters result body => do
    let body ← body.fold
    return .func m name parameters result body
  | .proc m name parameters body => do
    let body ← body.fold
    return .proc m name parameters body
  | .sequential m first second => do
    let first ← first.fold
    let second ← second.fold
    return .sequential m first second
  | .type m name of => return .type m name of
  | .unaryOperator m operator operand result => return .unaryOperator m operator operand result
  | .var m name of => return .var m name of

/-- Folds the subscripts in a V-name. -/
def Vname.fold : Vname → Fold Vname
  | .dot m record field => do
    let record ← record.fold
    return .dot m record field
  | .simple m name => return .simple m name
  | .subscript m array index => do
    let array ← array.fold
    let index ← index.fold
    return .subscript m array index

/-- Folds the expressions in an actual parameter. -/
def Argument.fold : Argument → Fold Argument
  | .const m value => do
    let value ← value.fold
    return .const m value
  | .func m name => return .func m name
  | .proc m name => return .proc m name
  | .var m vname => do
    let vname ← vname.fold
    return .var m vname

/-- Folds the expressions in actual parameters. -/
def Arguments.fold : Arguments → Fold Arguments
  | .empty m => return .empty m
  | .single m argument => do
    let argument ← argument.fold
    return .single m argument
  | .multiple m first rest => do
    let first ← first.fold
    let rest ← rest.fold
    return .multiple m first rest

/-- Folds the elements of an array. -/
def ArrayAggregate.fold : ArrayAggregate → Fold ArrayAggregate
  | .single m element => do
    let element ← element.fold
    return .single m element
  | .multiple m first rest => do
    let first ← first.fold
    let rest ← rest.fold
    return .multiple m first rest

/-- Folds the fields of a record. -/
def RecordAggregate.fold : RecordAggregate → Fold RecordAggregate
  | .single m field value => do
    let value ← value.fold
    return .single m field value
  | .multiple m field value rest => do
    let value ← value.fold
    let rest ← rest.fold
    return .multiple m field value rest

end

/-- A folded program, with what is known about it. -/
structure Folded where
  program : Program
  annotations : Annotations
  log : Log Problem
  counts : FoldCounts

/-- Folds a program. -/
def Program.fold (program : Program) (annotations : Annotations) (log : Log Problem) : Folded :=
  let (command, state) := program.command.fold.run ⟨program.issued, annotations, log, {}⟩
  ⟨{ program with command, issued := state.issued }, state.annotations, state.log, state.counts⟩

end Triangle
