import Triangle.Syntax.Tree

/-!
# The identities of a phrase

Everything that later phases know about a phrase is filed under the identities of its nodes, so
most statements about a tree say something about these: that they are all different, or that one
phrase has none of those of another.  They are listed here from left to right, the terminals
included, and the node itself comes after its parts.
-/

namespace Triangle

mutual

/-- The identities in a type denoter. -/
def TypeDenoter.ids : TypeDenoter → List NodeId
  | .any m | .bool m | .char m | .error m | .int m => [m.id]
  | .array m size element => [size.mark.id] ++ element.ids ++ [m.id]
  | .record m fields => fields.ids ++ [m.id]
  | .simple m name => [name.mark.id] ++ [m.id]

/-- The identities in the fields of a record type. -/
def FieldDenoters.ids : FieldDenoters → List NodeId
  | .single m name of => [name.mark.id] ++ of.ids ++ [m.id]
  | .multiple m name of rest => [name.mark.id] ++ of.ids ++ rest.ids ++ [m.id]

end

mutual

/-- The identities in a formal parameter. -/
def Parameter.ids : Parameter → List NodeId
  | .const m name of | .var m name of => [name.mark.id] ++ of.ids ++ [m.id]
  | .func m name parameters result =>
    [name.mark.id] ++ parameters.ids ++ result.ids ++ [m.id]
  | .proc m name parameters => [name.mark.id] ++ parameters.ids ++ [m.id]

/-- The identities in formal parameters. -/
def Parameters.ids : Parameters → List NodeId
  | .empty m => [m.id]
  | .single m parameter => parameter.ids ++ [m.id]
  | .multiple m first rest => first.ids ++ rest.ids ++ [m.id]

end

mutual

/-- The identities in a command. -/
def Command.ids : Command → List NodeId
  | .assign m target value => target.ids ++ value.ids ++ [m.id]
  | .doubleAssign m first second firstValue secondValue =>
    first.ids ++ second.ids ++ firstValue.ids ++ secondValue.ids ++ [m.id]
  | .call m name arguments => [name.mark.id] ++ arguments.ids ++ [m.id]
  | .empty m => [m.id]
  | .ifElse m condition first second => condition.ids ++ first.ids ++ second.ids ++ [m.id]
  | .letIn m declaration body => declaration.ids ++ body.ids ++ [m.id]
  | .sequential m first second => first.ids ++ second.ids ++ [m.id]
  | .whileDo m condition body => condition.ids ++ body.ids ++ [m.id]
  | .loopWhile m prelude condition body =>
    prelude.ids ++ condition.ids ++ body.ids ++ [m.id]

/-- The identities in an expression. -/
def Expression.ids : Expression → List NodeId
  | .array m elements => elements.ids ++ [m.id]
  | .binary m left operator right => left.ids ++ [operator.mark.id] ++ right.ids ++ [m.id]
  | .call m name arguments => [name.mark.id] ++ arguments.ids ++ [m.id]
  | .character m literal | .integer m literal => [literal.mark.id] ++ [m.id]
  | .empty m => [m.id]
  | .ifElse m condition first second => condition.ids ++ first.ids ++ second.ids ++ [m.id]
  | .letIn m declaration body => declaration.ids ++ body.ids ++ [m.id]
  | .record m fields => fields.ids ++ [m.id]
  | .unary m operator operand => [operator.mark.id] ++ operand.ids ++ [m.id]
  | .vname m vname => vname.ids ++ [m.id]

/-- The identities in a declaration. -/
def Declaration.ids : Declaration → List NodeId
  | .binaryOperator m operator left right result =>
    [operator.mark.id] ++ left.ids ++ right.ids ++ result.ids ++ [m.id]
  | .const m name value => [name.mark.id] ++ value.ids ++ [m.id]
  | .func m name parameters result body =>
    [name.mark.id] ++ parameters.ids ++ result.ids ++ body.ids ++ [m.id]
  | .proc m name parameters body => [name.mark.id] ++ parameters.ids ++ body.ids ++ [m.id]
  | .sequential m first second => first.ids ++ second.ids ++ [m.id]
  | .type m name of | .var m name of => [name.mark.id] ++ of.ids ++ [m.id]
  | .unaryOperator m operator operand result =>
    [operator.mark.id] ++ operand.ids ++ result.ids ++ [m.id]

/-- The identities in a V-name. -/
def Vname.ids : Vname → List NodeId
  | .dot m record field => record.ids ++ [field.mark.id] ++ [m.id]
  | .simple m name => [name.mark.id] ++ [m.id]
  | .subscript m array index => array.ids ++ index.ids ++ [m.id]

/-- The identities in an actual parameter. -/
def Argument.ids : Argument → List NodeId
  | .const m value => value.ids ++ [m.id]
  | .func m name | .proc m name => [name.mark.id] ++ [m.id]
  | .var m vname => vname.ids ++ [m.id]

/-- The identities in actual parameters. -/
def Arguments.ids : Arguments → List NodeId
  | .empty m => [m.id]
  | .single m argument => argument.ids ++ [m.id]
  | .multiple m first rest => first.ids ++ rest.ids ++ [m.id]

/-- The identities in the elements of an array. -/
def ArrayAggregate.ids : ArrayAggregate → List NodeId
  | .single m element => element.ids ++ [m.id]
  | .multiple m first rest => first.ids ++ rest.ids ++ [m.id]

/-- The identities in the fields of a record. -/
def RecordAggregate.ids : RecordAggregate → List NodeId
  | .single m field value => [field.mark.id] ++ value.ids ++ [m.id]
  | .multiple m field value rest => [field.mark.id] ++ value.ids ++ rest.ids ++ [m.id]

end

/-- The identities in a program. -/
def Program.ids (program : Program) : List NodeId :=
  program.command.ids ++ [program.mark.id]

end Triangle
