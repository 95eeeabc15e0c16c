import Triangle.Syntax.Tree

/-!
# Outlines

An outline lists the nodes of a tree in pre-order, each with its depth.  It is the view in which
a tree is shown, and in which statements about all nodes of a tree are made.
-/

namespace Triangle

/-- What an outline shows of a node. -/
inductive EntryKind where
  /-- A terminal, shown with its spelling. -/
  | terminal
  /-- An expression or a V-name, shown with its type if that is known. -/
  | typed
  /-- Any other phrase. -/
  | phrase
deriving DecidableEq

/-- A node in an outline. -/
structure Entry where
  /-- How many nodes it is inside of. -/
  depth : Nat
  mark : Mark
  /-- The name of the sort of node. -/
  label : String
  kind : EntryKind
  /-- The spelling of a terminal, the name a phrase introduces, or the name a V-name starts
  with. -/
  name : Option String := none

/-- The outline of a terminal. -/
def Terminal.outline (depth : Nat) (label : String) (terminal : Terminal) : List Entry :=
  [⟨depth, terminal.mark, label, .terminal, some terminal.spelling⟩]

/-- The outline of a name. -/
def Terminal.identifier (depth : Nat) (terminal : Terminal) : List Entry :=
  terminal.outline depth "Identifier"

/-- The outline of an operator. -/
def Terminal.operator (depth : Nat) (terminal : Terminal) : List Entry :=
  terminal.outline depth "Operator"

mutual

/-- The outline of a type denoter. -/
def TypeDenoter.outline (depth : Nat) : TypeDenoter → List Entry
  | .any m => [⟨depth, m, "AnyTypeDenoter", .phrase, none⟩]
  | .array m size element =>
    ⟨depth, m, "ArrayTypeDenoter", .phrase, none⟩ ::
      (size.outline (depth + 1) "IntegerLiteral" ++ element.outline (depth + 1))
  | .bool m => [⟨depth, m, "BoolTypeDenoter", .phrase, none⟩]
  | .char m => [⟨depth, m, "CharTypeDenoter", .phrase, none⟩]
  | .error m => [⟨depth, m, "ErrorTypeDenoter", .phrase, none⟩]
  | .int m => [⟨depth, m, "IntTypeDenoter", .phrase, none⟩]
  | .record m fields =>
    ⟨depth, m, "RecordTypeDenoter", .phrase, none⟩ :: fields.outline (depth + 1)
  | .simple m name =>
    ⟨depth, m, "SimpleTypeDenoter", .phrase, none⟩ :: name.identifier (depth + 1)

/-- The outline of the fields of a record type. -/
def FieldDenoters.outline (depth : Nat) : FieldDenoters → List Entry
  | .single m name of =>
    ⟨depth, m, "SingleFieldTypeDenoter", .phrase, none⟩ ::
      (name.identifier (depth + 1) ++ of.outline (depth + 1))
  | .multiple m name of rest =>
    ⟨depth, m, "MultipleFieldTypeDenoter", .phrase, none⟩ ::
      (name.identifier (depth + 1) ++ of.outline (depth + 1) ++ rest.outline (depth + 1))

end

mutual

/-- The outline of a formal parameter. -/
def Parameter.outline (depth : Nat) : Parameter → List Entry
  | .const m name of =>
    ⟨depth, m, "ConstFormalParameter", .phrase, some name.spelling⟩ ::
      (name.identifier (depth + 1) ++ of.outline (depth + 1))
  | .func m name parameters result =>
    ⟨depth, m, "FuncFormalParameter", .phrase, some name.spelling⟩ ::
      (name.identifier (depth + 1) ++ parameters.outline (depth + 1) ++
        result.outline (depth + 1))
  | .proc m name parameters =>
    ⟨depth, m, "ProcFormalParameter", .phrase, some name.spelling⟩ ::
      (name.identifier (depth + 1) ++ parameters.outline (depth + 1))
  | .var m name of =>
    ⟨depth, m, "VarFormalParameter", .phrase, some name.spelling⟩ ::
      (name.identifier (depth + 1) ++ of.outline (depth + 1))

/-- The outline of a sequence of formal parameters. -/
def Parameters.outline (depth : Nat) : Parameters → List Entry
  | .empty m => [⟨depth, m, "EmptyFormalParameterSequence", .phrase, none⟩]
  | .single m parameter =>
    ⟨depth, m, "SingleFormalParameterSequence", .phrase, none⟩ :: parameter.outline (depth + 1)
  | .multiple m first rest =>
    ⟨depth, m, "MultipleFormalParameterSequence", .phrase, none⟩ ::
      (first.outline (depth + 1) ++ rest.outline (depth + 1))

end

mutual

/-- The outline of a command. -/
def Command.outline (depth : Nat) : Command → List Entry
  | .assign m target value =>
    ⟨depth, m, "AssignCommand", .phrase, none⟩ ::
      (target.outline (depth + 1) ++ value.outline (depth + 1))
  | .doubleAssign m first second firstValue secondValue =>
    ⟨depth, m, "DoubleAssignCommand", .phrase, none⟩ ::
      (first.outline (depth + 1) ++ second.outline (depth + 1) ++
        firstValue.outline (depth + 1) ++ secondValue.outline (depth + 1))
  | .call m name arguments =>
    ⟨depth, m, "CallCommand", .phrase, none⟩ ::
      (name.identifier (depth + 1) ++ arguments.outline (depth + 1))
  | .empty m => [⟨depth, m, "EmptyCommand", .phrase, none⟩]
  | .ifElse m condition first second =>
    ⟨depth, m, "IfCommand", .phrase, none⟩ ::
      (condition.outline (depth + 1) ++ first.outline (depth + 1) ++ second.outline (depth + 1))
  | .letIn m declaration body =>
    ⟨depth, m, "LetCommand", .phrase, none⟩ ::
      (declaration.outline (depth + 1) ++ body.outline (depth + 1))
  | .sequential m first second =>
    ⟨depth, m, "SequentialCommand", .phrase, none⟩ ::
      (first.outline (depth + 1) ++ second.outline (depth + 1))
  | .whileDo m condition body =>
    ⟨depth, m, "WhileCommand", .phrase, none⟩ ::
      (condition.outline (depth + 1) ++ body.outline (depth + 1))
  | .loopWhile m prelude condition body =>
    ⟨depth, m, "LoopWhileCommand", .phrase, none⟩ ::
      (prelude.outline (depth + 1) ++ condition.outline (depth + 1) ++ body.outline (depth + 1))

/-- The outline of an expression. -/
def Expression.outline (depth : Nat) : Expression → List Entry
  | .array m elements =>
    ⟨depth, m, "ArrayExpression", .typed, none⟩ :: elements.outline (depth + 1)
  | .binary m left operator right =>
    ⟨depth, m, "BinaryExpression", .typed, none⟩ ::
      (left.outline (depth + 1) ++ operator.operator (depth + 1) ++ right.outline (depth + 1))
  | .call m name arguments =>
    ⟨depth, m, "CallExpression", .typed, none⟩ ::
      (name.identifier (depth + 1) ++ arguments.outline (depth + 1))
  | .character m literal =>
    ⟨depth, m, "CharacterExpression", .typed, none⟩ ::
      literal.outline (depth + 1) "CharacterLiteral"
  | .empty m => [⟨depth, m, "EmptyExpression", .phrase, none⟩]
  | .ifElse m condition first second =>
    ⟨depth, m, "IfExpression", .typed, none⟩ ::
      (condition.outline (depth + 1) ++ first.outline (depth + 1) ++ second.outline (depth + 1))
  | .integer m literal =>
    ⟨depth, m, "IntegerExpression", .typed, none⟩ ::
      literal.outline (depth + 1) "IntegerLiteral"
  | .letIn m declaration body =>
    ⟨depth, m, "LetExpression", .typed, none⟩ ::
      (declaration.outline (depth + 1) ++ body.outline (depth + 1))
  | .record m fields =>
    ⟨depth, m, "RecordExpression", .typed, none⟩ :: fields.outline (depth + 1)
  | .unary m operator operand =>
    ⟨depth, m, "UnaryExpression", .typed, none⟩ ::
      (operator.operator (depth + 1) ++ operand.outline (depth + 1))
  | .vname m vname =>
    ⟨depth, m, "VnameExpression", .typed, none⟩ :: vname.outline (depth + 1)

/-- The outline of a declaration. -/
def Declaration.outline (depth : Nat) : Declaration → List Entry
  | .binaryOperator m operator left right result =>
    ⟨depth, m, "BinaryOperatorDeclaration", .phrase, some operator.spelling⟩ ::
      (operator.operator (depth + 1) ++ left.outline (depth + 1) ++ right.outline (depth + 1) ++
        result.outline (depth + 1))
  | .const m name value =>
    ⟨depth, m, "ConstDeclaration", .phrase, some name.spelling⟩ ::
      (name.identifier (depth + 1) ++ value.outline (depth + 1))
  | .func m name parameters result body =>
    ⟨depth, m, "FuncDeclaration", .phrase, some name.spelling⟩ ::
      (name.identifier (depth + 1) ++ parameters.outline (depth + 1) ++
        result.outline (depth + 1) ++ body.outline (depth + 1))
  | .proc m name parameters body =>
    ⟨depth, m, "ProcDeclaration", .phrase, some name.spelling⟩ ::
      (name.identifier (depth + 1) ++ parameters.outline (depth + 1) ++ body.outline (depth + 1))
  | .sequential m first second =>
    ⟨depth, m, "SequentialDeclaration", .phrase, none⟩ ::
      (first.outline (depth + 1) ++ second.outline (depth + 1))
  | .type m name of =>
    ⟨depth, m, "TypeDeclaration", .phrase, some name.spelling⟩ ::
      (name.identifier (depth + 1) ++ of.outline (depth + 1))
  | .unaryOperator m operator operand result =>
    ⟨depth, m, "UnaryOperatorDeclaration", .phrase, some operator.spelling⟩ ::
      (operator.operator (depth + 1) ++ operand.outline (depth + 1) ++ result.outline (depth + 1))
  | .var m name of =>
    ⟨depth, m, "VarDeclaration", .phrase, some name.spelling⟩ ::
      (name.identifier (depth + 1) ++ of.outline (depth + 1))

/-- The outline of a V-name. -/
def Vname.outline (depth : Nat) : Vname → List Entry
  | .dot m record field =>
    ⟨depth, m, "DotVname", .typed, some record.root.spelling⟩ ::
      (record.outline (depth + 1) ++ field.identifier (depth + 1))
  | .simple m name =>
    ⟨depth, m, "SimpleVname", .typed, some name.spelling⟩ :: name.identifier (depth + 1)
  | .subscript m array index =>
    ⟨depth, m, "SubscriptVname", .typed, some array.root.spelling⟩ ::
      (array.outline (depth + 1) ++ index.outline (depth + 1))

/-- The outline of an actual parameter. -/
def Argument.outline (depth : Nat) : Argument → List Entry
  | .const m value =>
    ⟨depth, m, "ConstActualParameter", .phrase, none⟩ :: value.outline (depth + 1)
  | .func m name =>
    ⟨depth, m, "FuncActualParameter", .phrase, none⟩ :: name.identifier (depth + 1)
  | .proc m name =>
    ⟨depth, m, "ProcActualParameter", .phrase, none⟩ :: name.identifier (depth + 1)
  | .var m vname =>
    ⟨depth, m, "VarActualParameter", .phrase, none⟩ :: vname.outline (depth + 1)

/-- The outline of a sequence of actual parameters. -/
def Arguments.outline (depth : Nat) : Arguments → List Entry
  | .empty m => [⟨depth, m, "EmptyActualParameterSequence", .phrase, none⟩]
  | .single m argument =>
    ⟨depth, m, "SingleActualParameterSequence", .phrase, none⟩ :: argument.outline (depth + 1)
  | .multiple m first rest =>
    ⟨depth, m, "MultipleActualParameterSequence", .phrase, none⟩ ::
      (first.outline (depth + 1) ++ rest.outline (depth + 1))

/-- The outline of the elements of an array. -/
def ArrayAggregate.outline (depth : Nat) : ArrayAggregate → List Entry
  | .single m element =>
    ⟨depth, m, "SingleArrayAggregate", .phrase, none⟩ :: element.outline (depth + 1)
  | .multiple m first rest =>
    ⟨depth, m, "MultipleArrayAggregate", .phrase, none⟩ ::
      (first.outline (depth + 1) ++ rest.outline (depth + 1))

/-- The outline of the fields of a record. -/
def RecordAggregate.outline (depth : Nat) : RecordAggregate → List Entry
  | .single m field value =>
    ⟨depth, m, "SingleRecordAggregate", .phrase, none⟩ ::
      (field.identifier (depth + 1) ++ value.outline (depth + 1))
  | .multiple m field value rest =>
    ⟨depth, m, "MultipleRecordAggregate", .phrase, none⟩ ::
      (field.identifier (depth + 1) ++ value.outline (depth + 1) ++ rest.outline (depth + 1))

end

/-- The outline of a program. -/
def Program.outline (program : Program) : List Entry :=
  ⟨0, program.mark, "Program", .phrase, none⟩ :: program.command.outline 1

end Triangle
