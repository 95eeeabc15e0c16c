import Triangle.Proofs.Syntax.Identities

/-!
# Uses of names, and misspelling one

Where a phrase uses names: the root of a V-name, the name of a called routine, a routine passed as
an argument, the name of a type, an operator.  `uses` lists these places in the order in which they
are looked up, and `declared` the names that a phrase declares.  A tree can be misspelt at one use:
the terminal with a given identity gets another spelling, and everything else stays.
-/

namespace Triangle

/-- A terminal with another spelling, if it is the one with the given identity. -/
def Terminal.misspelt (id : NodeId) (x : String) (name : Terminal) : Terminal :=
  if name.mark.id = id then { name with spelling := x } else name

/-! ## Uses -/

mutual

/-- The uses of names in a type denoter. -/
def TypeDenoter.uses : TypeDenoter → List Terminal
  | .any _ | .bool _ | .char _ | .error _ | .int _ => []
  | .array _ _ element => element.uses
  | .record _ fields => fields.uses
  | .simple _ name => [name]

/-- The uses of names in the fields of a record type. -/
def FieldDenoters.uses : FieldDenoters → List Terminal
  | .single _ _ of => of.uses
  | .multiple _ _ of rest => of.uses ++ rest.uses

end

mutual

/-- The uses of names in a formal parameter. -/
def Parameter.uses : Parameter → List Terminal
  | .const _ _ of | .var _ _ of => of.uses
  | .func _ _ parameters result => parameters.uses ++ result.uses
  | .proc _ _ parameters => parameters.uses

/-- The uses of names in formal parameters. -/
def Parameters.uses : Parameters → List Terminal
  | .empty _ => []
  | .single _ parameter => parameter.uses
  | .multiple _ first rest => first.uses ++ rest.uses

end

mutual

/-- The uses of names in a command. -/
def Command.uses : Command → List Terminal
  | .assign _ target value => target.uses ++ value.uses
  | .doubleAssign _ first second firstValue secondValue =>
    first.uses ++ (firstValue.uses ++ (second.uses ++ secondValue.uses))
  | .call _ name arguments => [name] ++ arguments.uses
  | .empty _ => []
  | .ifElse _ condition first second => condition.uses ++ (first.uses ++ second.uses)
  | .letIn _ declaration body => declaration.uses ++ body.uses
  | .sequential _ first second => first.uses ++ second.uses
  | .whileDo _ condition body => condition.uses ++ body.uses
  | .loopWhile _ prelude condition body => prelude.uses ++ (condition.uses ++ body.uses)

/-- The uses of names in an expression. -/
def Expression.uses : Expression → List Terminal
  | .array _ elements => elements.uses
  | .binary _ left operator right => left.uses ++ (right.uses ++ [operator])
  | .call _ name arguments => [name] ++ arguments.uses
  | .character _ _ | .integer _ _ | .empty _ => []
  | .ifElse _ condition first second => condition.uses ++ (first.uses ++ second.uses)
  | .letIn _ declaration body => declaration.uses ++ body.uses
  | .record _ fields => fields.uses
  | .unary _ operator operand => operand.uses ++ [operator]
  | .vname _ vname => vname.uses

/-- The uses of names in a declaration. -/
def Declaration.uses : Declaration → List Terminal
  | .binaryOperator _ _ left right result => left.uses ++ (right.uses ++ result.uses)
  | .const _ _ value => value.uses
  | .func _ _ parameters result body => result.uses ++ (parameters.uses ++ body.uses)
  | .proc _ _ parameters body => parameters.uses ++ body.uses
  | .sequential _ first second => first.uses ++ second.uses
  | .type _ _ of | .var _ _ of => of.uses
  | .unaryOperator _ _ operand result => operand.uses ++ result.uses

/-- The uses of names in a V-name. -/
def Vname.uses : Vname → List Terminal
  | .dot _ record _ => record.uses
  | .simple _ name => [name]
  | .subscript _ array index => array.uses ++ index.uses

/-- The uses of names in an actual parameter. -/
def Argument.uses : Argument → List Terminal
  | .const _ value => value.uses
  | .func _ name | .proc _ name => [name]
  | .var _ vname => vname.uses

/-- The uses of names in actual parameters. -/
def Arguments.uses : Arguments → List Terminal
  | .empty _ => []
  | .single _ argument => argument.uses
  | .multiple _ first rest => first.uses ++ rest.uses

/-- The uses of names in the elements of an array. -/
def ArrayAggregate.uses : ArrayAggregate → List Terminal
  | .single _ element => element.uses
  | .multiple _ first rest => first.uses ++ rest.uses

/-- The uses of names in the fields of a record. -/
def RecordAggregate.uses : RecordAggregate → List Terminal
  | .single _ _ value => value.uses
  | .multiple _ _ value rest => value.uses ++ rest.uses

end

/-! ## Declared names -/

mutual

/-- The names that a formal parameter declares, those of its own parameters included. -/
def Parameter.declared : Parameter → List String
  | .const _ name _ | .var _ name _ => [name.spelling]
  | .func _ name parameters _ | .proc _ name parameters => parameters.declared ++ [name.spelling]

/-- The names that formal parameters declare. -/
def Parameters.declared : Parameters → List String
  | .empty _ => []
  | .single _ parameter => parameter.declared
  | .multiple _ first rest => first.declared ++ rest.declared

end

mutual

/-- The names that are declared in a command. -/
def Command.declared : Command → List String
  | .assign _ target value => target.declared ++ value.declared
  | .doubleAssign _ first second firstValue secondValue =>
    first.declared ++ (firstValue.declared ++ (second.declared ++ secondValue.declared))
  | .call _ _ arguments => arguments.declared
  | .empty _ => []
  | .ifElse _ condition first second => condition.declared ++ (first.declared ++ second.declared)
  | .letIn _ declaration body => declaration.declared ++ body.declared
  | .sequential _ first second => first.declared ++ second.declared
  | .whileDo _ condition body => condition.declared ++ body.declared
  | .loopWhile _ prelude condition body =>
    prelude.declared ++ (condition.declared ++ body.declared)

/-- The names that are declared in an expression. -/
def Expression.declared : Expression → List String
  | .array _ elements => elements.declared
  | .binary _ left _ right => left.declared ++ right.declared
  | .call _ _ arguments => arguments.declared
  | .character _ _ | .integer _ _ | .empty _ => []
  | .ifElse _ condition first second => condition.declared ++ (first.declared ++ second.declared)
  | .letIn _ declaration body => declaration.declared ++ body.declared
  | .record _ fields => fields.declared
  | .unary _ _ operand => operand.declared
  | .vname _ vname => vname.declared

/-- The names that a declaration declares, those inside it included. -/
def Declaration.declared : Declaration → List String
  | .binaryOperator _ operator _ _ _ | .unaryOperator _ operator _ _ => [operator.spelling]
  | .const _ name value => value.declared ++ [name.spelling]
  | .func _ name parameters _ body => parameters.declared ++ ([name.spelling] ++ body.declared)
  | .proc _ name parameters body => parameters.declared ++ ([name.spelling] ++ body.declared)
  | .sequential _ first second => first.declared ++ second.declared
  | .type _ name _ | .var _ name _ => [name.spelling]

/-- The names that are declared in a V-name. -/
def Vname.declared : Vname → List String
  | .dot _ record _ => record.declared
  | .simple _ _ => []
  | .subscript _ array index => array.declared ++ index.declared

/-- The names that are declared in an actual parameter. -/
def Argument.declared : Argument → List String
  | .const _ value => value.declared
  | .func _ _ | .proc _ _ => []
  | .var _ vname => vname.declared

/-- The names that are declared in actual parameters. -/
def Arguments.declared : Arguments → List String
  | .empty _ => []
  | .single _ argument => argument.declared
  | .multiple _ first rest => first.declared ++ rest.declared

/-- The names that are declared in the elements of an array. -/
def ArrayAggregate.declared : ArrayAggregate → List String
  | .single _ element => element.declared
  | .multiple _ first rest => first.declared ++ rest.declared

/-- The names that are declared in the fields of a record. -/
def RecordAggregate.declared : RecordAggregate → List String
  | .single _ _ value => value.declared
  | .multiple _ _ value rest => value.declared ++ rest.declared

end

/-! ## Misspelling a use -/

section

variable (id : NodeId) (x : String)

mutual

/-- A type denoter misspelt at one use. -/
def TypeDenoter.misspelt : TypeDenoter → TypeDenoter
  | .any m => .any m
  | .array m size element => .array m size element.misspelt
  | .bool m => .bool m
  | .char m => .char m
  | .error m => .error m
  | .int m => .int m
  | .record m fields => .record m fields.misspelt
  | .simple m name => .simple m (name.misspelt id x)

/-- The fields of a record type misspelt at one use. -/
def FieldDenoters.misspelt : FieldDenoters → FieldDenoters
  | .single m name of => .single m name of.misspelt
  | .multiple m name of rest => .multiple m name of.misspelt rest.misspelt

end

mutual

/-- A formal parameter misspelt at one use. -/
def Parameter.misspelt : Parameter → Parameter
  | .const m name of => .const m name (of.misspelt id x)
  | .func m name parameters result => .func m name parameters.misspelt (result.misspelt id x)
  | .proc m name parameters => .proc m name parameters.misspelt
  | .var m name of => .var m name (of.misspelt id x)

/-- Formal parameters misspelt at one use. -/
def Parameters.misspelt : Parameters → Parameters
  | .empty m => .empty m
  | .single m parameter => .single m parameter.misspelt
  | .multiple m first rest => .multiple m first.misspelt rest.misspelt

end

mutual

/-- A command misspelt at one use. -/
def Command.misspelt : Command → Command
  | .assign m target value => .assign m target.misspelt value.misspelt
  | .doubleAssign m first second firstValue secondValue =>
    .doubleAssign m first.misspelt second.misspelt firstValue.misspelt secondValue.misspelt
  | .call m name arguments => .call m (name.misspelt id x) arguments.misspelt
  | .empty m => .empty m
  | .ifElse m condition first second =>
    .ifElse m condition.misspelt first.misspelt second.misspelt
  | .letIn m declaration body => .letIn m declaration.misspelt body.misspelt
  | .sequential m first second => .sequential m first.misspelt second.misspelt
  | .whileDo m condition body => .whileDo m condition.misspelt body.misspelt
  | .loopWhile m prelude condition body =>
    .loopWhile m prelude.misspelt condition.misspelt body.misspelt

/-- An expression misspelt at one use. -/
def Expression.misspelt : Expression → Expression
  | .array m elements => .array m elements.misspelt
  | .binary m left operator right =>
    .binary m left.misspelt (operator.misspelt id x) right.misspelt
  | .call m name arguments => .call m (name.misspelt id x) arguments.misspelt
  | .character m literal => .character m literal
  | .empty m => .empty m
  | .ifElse m condition first second =>
    .ifElse m condition.misspelt first.misspelt second.misspelt
  | .integer m literal => .integer m literal
  | .letIn m declaration body => .letIn m declaration.misspelt body.misspelt
  | .record m fields => .record m fields.misspelt
  | .unary m operator operand => .unary m (operator.misspelt id x) operand.misspelt
  | .vname m vname => .vname m vname.misspelt

/-- A declaration misspelt at one use. -/
def Declaration.misspelt : Declaration → Declaration
  | .binaryOperator m operator left right result =>
    .binaryOperator m operator (left.misspelt id x) (right.misspelt id x) (result.misspelt id x)
  | .const m name value => .const m name value.misspelt
  | .func m name parameters result body =>
    .func m name (parameters.misspelt id x) (result.misspelt id x) body.misspelt
  | .proc m name parameters body => .proc m name (parameters.misspelt id x) body.misspelt
  | .sequential m first second => .sequential m first.misspelt second.misspelt
  | .type m name of => .type m name (of.misspelt id x)
  | .unaryOperator m operator operand result =>
    .unaryOperator m operator (operand.misspelt id x) (result.misspelt id x)
  | .var m name of => .var m name (of.misspelt id x)

/-- A V-name misspelt at one use. -/
def Vname.misspelt : Vname → Vname
  | .dot m record field => .dot m record.misspelt field
  | .simple m name => .simple m (name.misspelt id x)
  | .subscript m array index => .subscript m array.misspelt index.misspelt

/-- An actual parameter misspelt at one use. -/
def Argument.misspelt : Argument → Argument
  | .const m value => .const m value.misspelt
  | .func m name => .func m (name.misspelt id x)
  | .proc m name => .proc m (name.misspelt id x)
  | .var m vname => .var m vname.misspelt

/-- Actual parameters misspelt at one use. -/
def Arguments.misspelt : Arguments → Arguments
  | .empty m => .empty m
  | .single m argument => .single m argument.misspelt
  | .multiple m first rest => .multiple m first.misspelt rest.misspelt

/-- The elements of an array misspelt at one use. -/
def ArrayAggregate.misspelt : ArrayAggregate → ArrayAggregate
  | .single m element => .single m element.misspelt
  | .multiple m first rest => .multiple m first.misspelt rest.misspelt

/-- The fields of a record misspelt at one use. -/
def RecordAggregate.misspelt : RecordAggregate → RecordAggregate
  | .single m field value => .single m field value.misspelt
  | .multiple m field value rest => .multiple m field value.misspelt rest.misspelt

end

/-- A program misspelt at one use. -/
def Program.misspelt (program : Program) : Program :=
  { program with command := program.command.misspelt id x }

end

/-! ## Uses have identities -/

/-- The uses with a given identity. -/
abbrev hits (id : NodeId) (uses : List Terminal) : List Terminal :=
  uses.filter fun name => name.mark.id = id

theorem hits_append (id : NodeId) (first second : List Terminal) :
    hits id (first ++ second) = hits id first ++ hits id second :=
  List.filter_append ..

/-- Of the uses in a tree no more have an identity than its nodes do, and without one the tree is
not misspelt. -/
abbrev Misspells (id : NodeId) {α : Type} (tree misspelt : α) (uses : List Terminal)
    (ids : List NodeId) : Prop :=
  (hits id uses).length ≤ ids.count id ∧ (hits id uses = [] → misspelt = tree)

section

attribute [local grind =] TypeDenoter.uses TypeDenoter.ids TypeDenoter.misspelt FieldDenoters.uses
  FieldDenoters.ids FieldDenoters.misspelt Parameter.uses Parameter.ids Parameter.misspelt
  Parameters.uses Parameters.ids Parameters.misspelt Command.uses Command.ids Command.misspelt
  Expression.uses Expression.ids Expression.misspelt Declaration.uses Declaration.ids
  Declaration.misspelt Vname.uses Vname.ids Vname.misspelt Argument.uses Argument.ids
  Argument.misspelt Arguments.uses Arguments.ids Arguments.misspelt ArrayAggregate.uses
  ArrayAggregate.ids ArrayAggregate.misspelt RecordAggregate.uses RecordAggregate.ids
  RecordAggregate.misspelt Terminal.misspelt List.append_eq_nil_iff

mutual

theorem TypeDenoter.hits_misspelt (id : NodeId) (x : String) : (of : TypeDenoter) →
    Misspells id of (of.misspelt id x) of.uses of.ids
  | .any _ | .bool _ | .char _ | .error _ | .int _ => ⟨Nat.zero_le _, fun _ => rfl⟩
  | .array _ _ element => by grind [element.hits_misspelt id x]
  | .record _ fields => by grind [fields.hits_misspelt id x]
  | .simple _ _ => by grind

theorem FieldDenoters.hits_misspelt (id : NodeId) (x : String) : (fields : FieldDenoters) →
    Misspells id fields (fields.misspelt id x) fields.uses fields.ids
  | .single _ _ of => by grind [of.hits_misspelt id x]
  | .multiple _ _ of rest => by
    grind [of.hits_misspelt id x, rest.hits_misspelt id x]

end

mutual

theorem Parameter.hits_misspelt (id : NodeId) (x : String) : (parameter : Parameter) →
    Misspells id parameter (parameter.misspelt id x) parameter.uses parameter.ids
  | .const _ _ of | .var _ _ of => by grind [of.hits_misspelt id x]
  | .func _ _ parameters result => by
    grind [parameters.hits_misspelt id x, result.hits_misspelt id x]
  | .proc _ _ parameters => by grind [parameters.hits_misspelt id x]

theorem Parameters.hits_misspelt (id : NodeId) (x : String) : (parameters : Parameters) →
    Misspells id parameters (parameters.misspelt id x) parameters.uses parameters.ids
  | .empty _ => ⟨Nat.zero_le _, fun _ => rfl⟩
  | .single _ parameter => by grind [parameter.hits_misspelt id x]
  | .multiple _ first rest => by
    grind [first.hits_misspelt id x, rest.hits_misspelt id x]

end

mutual

theorem Command.hits_misspelt (id : NodeId) (x : String) : (command : Command) →
    Misspells id command (command.misspelt id x) command.uses command.ids
  | .empty _ => ⟨Nat.zero_le _, fun _ => rfl⟩
  | .assign _ target value => by
    grind [target.hits_misspelt id x, value.hits_misspelt id x]
  | .doubleAssign _ first second firstValue secondValue => by
    grind [first.hits_misspelt id x, second.hits_misspelt id x,
      firstValue.hits_misspelt id x, secondValue.hits_misspelt id x]
  | .call _ _ arguments => by grind [arguments.hits_misspelt id x]
  | .ifElse _ condition first second => by
    grind [condition.hits_misspelt id x, first.hits_misspelt id x,
      second.hits_misspelt id x]
  | .letIn _ declaration body => by
    grind [declaration.hits_misspelt id x, body.hits_misspelt id x]
  | .sequential _ first second => by
    grind [first.hits_misspelt id x, second.hits_misspelt id x]
  | .whileDo _ condition body => by
    grind [condition.hits_misspelt id x, body.hits_misspelt id x]
  | .loopWhile _ prelude condition body => by
    grind [prelude.hits_misspelt id x, condition.hits_misspelt id x,
      body.hits_misspelt id x]

theorem Expression.hits_misspelt (id : NodeId) (x : String) : (expression : Expression) →
    Misspells id expression (expression.misspelt id x) expression.uses expression.ids
  | .character _ _ | .integer _ _ | .empty _ => ⟨Nat.zero_le _, fun _ => rfl⟩
  | .array _ elements => by grind [elements.hits_misspelt id x]
  | .binary _ left _ right => by
    grind [left.hits_misspelt id x, right.hits_misspelt id x]
  | .call _ _ arguments => by grind [arguments.hits_misspelt id x]
  | .ifElse _ condition first second => by
    grind [condition.hits_misspelt id x, first.hits_misspelt id x,
      second.hits_misspelt id x]
  | .letIn _ declaration body => by
    grind [declaration.hits_misspelt id x, body.hits_misspelt id x]
  | .record _ fields => by grind [fields.hits_misspelt id x]
  | .unary _ _ operand => by grind [operand.hits_misspelt id x]
  | .vname _ vname => by grind [vname.hits_misspelt id x]

theorem Declaration.hits_misspelt (id : NodeId) (x : String) : (declaration : Declaration) →
    Misspells id declaration (declaration.misspelt id x) declaration.uses declaration.ids
  | .binaryOperator _ _ left right result => by
    grind [left.hits_misspelt id x, right.hits_misspelt id x,
      result.hits_misspelt id x]
  | .const _ _ value => by grind [value.hits_misspelt id x]
  | .func _ _ parameters result body => by
    grind [parameters.hits_misspelt id x, result.hits_misspelt id x,
      body.hits_misspelt id x]
  | .proc _ _ parameters body => by
    grind [parameters.hits_misspelt id x, body.hits_misspelt id x]
  | .sequential _ first second => by
    grind [first.hits_misspelt id x, second.hits_misspelt id x]
  | .type _ _ of | .var _ _ of => by grind [of.hits_misspelt id x]
  | .unaryOperator _ _ operand result => by
    grind [operand.hits_misspelt id x, result.hits_misspelt id x]

theorem Vname.hits_misspelt (id : NodeId) (x : String) : (vname : Vname) →
    Misspells id vname (vname.misspelt id x) vname.uses vname.ids
  | .dot _ record _ => by grind [record.hits_misspelt id x]
  | .simple _ _ => by grind
  | .subscript _ array index => by
    grind [array.hits_misspelt id x, index.hits_misspelt id x]

theorem Argument.hits_misspelt (id : NodeId) (x : String) : (argument : Argument) →
    Misspells id argument (argument.misspelt id x) argument.uses argument.ids
  | .const _ value => by grind [value.hits_misspelt id x]
  | .func _ _ | .proc _ _ => by grind
  | .var _ vname => by grind [vname.hits_misspelt id x]

theorem Arguments.hits_misspelt (id : NodeId) (x : String) : (arguments : Arguments) →
    Misspells id arguments (arguments.misspelt id x) arguments.uses arguments.ids
  | .empty _ => ⟨Nat.zero_le _, fun _ => rfl⟩
  | .single _ argument => by grind [argument.hits_misspelt id x]
  | .multiple _ first rest => by
    grind [first.hits_misspelt id x, rest.hits_misspelt id x]

theorem ArrayAggregate.hits_misspelt (id : NodeId) (x : String) : (elements : ArrayAggregate) →
    Misspells id elements (elements.misspelt id x) elements.uses elements.ids
  | .single _ element => by grind [element.hits_misspelt id x]
  | .multiple _ first rest => by
    grind [first.hits_misspelt id x, rest.hits_misspelt id x]

theorem RecordAggregate.hits_misspelt (id : NodeId) (x : String) : (fields : RecordAggregate) →
    Misspells id fields (fields.misspelt id x) fields.uses fields.ids
  | .single _ _ value => by grind [value.hits_misspelt id x]
  | .multiple _ _ value rest => by
    grind [value.hits_misspelt id x, rest.hits_misspelt id x]

end

end

end Triangle
