import Triangle.Source.Span

/-!
# Syntax trees

The tree of a program.  Every phrase and every terminal carries a mark: an identity, under which
later phases file what they find out about it, and the span it covers.  The tree itself is never
changed by checking.

Phrases that list something (fields, parameters, arguments, elements) are trees too: each tail of
the list is a phrase with a mark of its own.
-/

namespace Triangle

/-- The identity of a node; the nodes of a program are numbered from zero. -/
abbrev NodeId := Nat

/-- What every node has. -/
structure Mark where
  /-- Which node of its program it is. -/
  id : NodeId
  /-- The part of the text it covers. -/
  span : Span
deriving DecidableEq, Inhabited

/-- An identifier, an operator or a literal, as it is spelled. -/
structure Terminal where
  mark : Mark
  spelling : String
deriving DecidableEq, Inhabited

mutual

/-- A phrase that denotes a type. -/
inductive TypeDenoter where
  | any (mark : Mark)
  | array (mark : Mark) (size : Terminal) (element : TypeDenoter)
  | bool (mark : Mark)
  | char (mark : Mark)
  /-- Stands where no type was given. -/
  | error (mark : Mark)
  | int (mark : Mark)
  | record (mark : Mark) (fields : FieldDenoters)
  | simple (mark : Mark) (name : Terminal)

/-- The fields of a record type. -/
inductive FieldDenoters where
  | single (mark : Mark) (name : Terminal) (of : TypeDenoter)
  | multiple (mark : Mark) (name : Terminal) (of : TypeDenoter) (rest : FieldDenoters)

end

mutual

/-- A formal parameter. -/
inductive Parameter where
  | const (mark : Mark) (name : Terminal) (of : TypeDenoter)
  | func (mark : Mark) (name : Terminal) (parameters : Parameters) (result : TypeDenoter)
  | proc (mark : Mark) (name : Terminal) (parameters : Parameters)
  | var (mark : Mark) (name : Terminal) (of : TypeDenoter)

/-- A sequence of formal parameters. -/
inductive Parameters where
  | empty (mark : Mark)
  | single (mark : Mark) (parameter : Parameter)
  | multiple (mark : Mark) (first : Parameter) (rest : Parameters)

end

mutual

/-- A phrase that is executed. -/
inductive Command where
  | assign (mark : Mark) (target : Vname) (value : Expression)
  | doubleAssign (mark : Mark) (first second : Vname) (firstValue secondValue : Expression)
  | call (mark : Mark) (name : Terminal) (arguments : Arguments)
  | empty (mark : Mark)
  | ifElse (mark : Mark) (condition : Expression) (first second : Command)
  | letIn (mark : Mark) (declaration : Declaration) (body : Command)
  | sequential (mark : Mark) (first second : Command)
  | whileDo (mark : Mark) (condition : Expression) (body : Command)
  /-- The prelude is executed before each test of the condition. -/
  | loopWhile (mark : Mark) (prelude : Command) (condition : Expression) (body : Command)

/-- A phrase that is evaluated. -/
inductive Expression where
  | array (mark : Mark) (elements : ArrayAggregate)
  | binary (mark : Mark) (left : Expression) (operator : Terminal) (right : Expression)
  | call (mark : Mark) (name : Terminal) (arguments : Arguments)
  | character (mark : Mark) (literal : Terminal)
  /-- Stands where no expression was given. -/
  | empty (mark : Mark)
  | ifElse (mark : Mark) (condition first second : Expression)
  | integer (mark : Mark) (literal : Terminal)
  | letIn (mark : Mark) (declaration : Declaration) (body : Expression)
  | record (mark : Mark) (fields : RecordAggregate)
  | unary (mark : Mark) (operator : Terminal) (operand : Expression)
  | vname (mark : Mark) (vname : Vname)

/-- A phrase that introduces names. -/
inductive Declaration where
  | binaryOperator (mark : Mark) (operator : Terminal) (left right result : TypeDenoter)
  | const (mark : Mark) (name : Terminal) (value : Expression)
  | func (mark : Mark) (name : Terminal) (parameters : Parameters) (result : TypeDenoter)
      (body : Expression)
  | proc (mark : Mark) (name : Terminal) (parameters : Parameters) (body : Command)
  | sequential (mark : Mark) (first second : Declaration)
  | type (mark : Mark) (name : Terminal) (of : TypeDenoter)
  | unaryOperator (mark : Mark) (operator : Terminal) (operand result : TypeDenoter)
  | var (mark : Mark) (name : Terminal) (of : TypeDenoter)

/-- A name for a value or a variable, or for a part of one. -/
inductive Vname where
  | dot (mark : Mark) (record : Vname) (field : Terminal)
  | simple (mark : Mark) (name : Terminal)
  | subscript (mark : Mark) (array : Vname) (index : Expression)

/-- An actual parameter. -/
inductive Argument where
  | const (mark : Mark) (value : Expression)
  | func (mark : Mark) (name : Terminal)
  | proc (mark : Mark) (name : Terminal)
  | var (mark : Mark) (vname : Vname)

/-- A sequence of actual parameters. -/
inductive Arguments where
  | empty (mark : Mark)
  | single (mark : Mark) (argument : Argument)
  | multiple (mark : Mark) (first : Argument) (rest : Arguments)

/-- The elements of an array. -/
inductive ArrayAggregate where
  | single (mark : Mark) (element : Expression)
  | multiple (mark : Mark) (first : Expression) (rest : ArrayAggregate)

/-- The fields of a record. -/
inductive RecordAggregate where
  | single (mark : Mark) (field : Terminal) (value : Expression)
  | multiple (mark : Mark) (field : Terminal) (value : Expression) (rest : RecordAggregate)

end

/-- A whole program. -/
structure Program where
  mark : Mark
  command : Command
  /-- How many identities its nodes were given; the next node gets this one. -/
  issued : Nat

/-! ## Marks -/

/-- The mark of a type denoter. -/
def TypeDenoter.mark : TypeDenoter → Mark
  | any m | array m _ _ | bool m | char m | error m | int m | record m _ | simple m _ => m

/-- The mark of a sequence of fields. -/
def FieldDenoters.mark : FieldDenoters → Mark
  | single m _ _ | multiple m _ _ _ => m

/-- The mark of a formal parameter. -/
def Parameter.mark : Parameter → Mark
  | const m _ _ | func m _ _ _ | proc m _ _ | var m _ _ => m

/-- The mark of a sequence of formal parameters. -/
def Parameters.mark : Parameters → Mark
  | empty m | single m _ | multiple m _ _ => m

/-- The mark of a command. -/
def Command.mark : Command → Mark
  | assign m _ _ | doubleAssign m _ _ _ _ | call m _ _ | empty m | ifElse m _ _ _
  | letIn m _ _ | sequential m _ _ | whileDo m _ _ | loopWhile m _ _ _ => m

/-- The mark of an expression. -/
def Expression.mark : Expression → Mark
  | array m _ | binary m _ _ _ | call m _ _ | character m _ | empty m | ifElse m _ _ _
  | integer m _ | letIn m _ _ | record m _ | unary m _ _ | vname m _ => m

/-- The mark of a declaration. -/
def Declaration.mark : Declaration → Mark
  | binaryOperator m _ _ _ _ | const m _ _ | func m _ _ _ _ | proc m _ _ _
  | sequential m _ _ | type m _ _ | unaryOperator m _ _ _ | var m _ _ => m

/-- The mark of a V-name. -/
def Vname.mark : Vname → Mark
  | dot m _ _ | simple m _ | subscript m _ _ => m

/-- The mark of an actual parameter. -/
def Argument.mark : Argument → Mark
  | const m _ | func m _ | proc m _ | var m _ => m

/-- The mark of a sequence of actual parameters. -/
def Arguments.mark : Arguments → Mark
  | empty m | single m _ | multiple m _ _ => m

/-- The mark of the elements of an array. -/
def ArrayAggregate.mark : ArrayAggregate → Mark
  | single m _ | multiple m _ _ => m

/-- The mark of the fields of a record. -/
def RecordAggregate.mark : RecordAggregate → Mark
  | single m _ _ | multiple m _ _ _ => m

/-! ## Names -/

/-- The name that a formal parameter introduces. -/
def Parameter.name : Parameter → Terminal
  | const _ n _ | func _ n _ _ | proc _ n _ | var _ n _ => n

/-- The name or operator that a declaration introduces, if it is a single one. -/
def Declaration.name? : Declaration → Option Terminal
  | binaryOperator _ n _ _ _ | const _ n _ | func _ n _ _ _ | proc _ n _ _
  | type _ n _ | unaryOperator _ n _ _ | var _ n _ => some n
  | sequential _ _ _ => none

/-- The identifier that a V-name starts with. -/
def Vname.root : Vname → Terminal
  | simple _ name => name
  | dot _ record _ => record.root
  | subscript _ array _ => array.root

end Triangle
