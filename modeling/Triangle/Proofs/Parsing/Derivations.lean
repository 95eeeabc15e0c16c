import Triangle.Proofs.Syntax.Erasure
import Triangle.Token.Basic

/-!
# Derivations of the grammar

A derivation is a tree with one node for each use of a rule of the grammar: unlike a syntax tree it
keeps what a phrase is written with.  Its `yield` is the sequence of symbols it derives, and its
`tree` is the syntax tree it stands for, without marks.  Parentheses and `begin … end` are in the
derivation and not in the tree; operators group to the left in the tree, sequences to the right.

The empty command makes the grammar ambiguous to a parser that looks at one token: after `loop`,
the word `while` may follow an empty command or start a command.  A derivation is `Admissible` if no
empty command in it is followed by `while`.  What follows a phrase is given as the kind of the next
symbol, which is the end of the text after a whole program.
-/

namespace Triangle

/-- Whether tokens of this kind differ in their spelling. -/
def Kind.isOpen : Kind → Bool
  | .integer | .character | .identifier | .operator => true
  | _ => false

/-- A symbol of the grammar: a kind of token, with its spelling where the kind leaves it open. -/
@[ext]
structure Symbol where
  kind : Kind
  spelling : String
  closed : kind.isOpen = false → spelling = ""

namespace Symbol

/-- The symbol of a kind with a spelling, which counts only if the kind leaves it open. -/
def of (kind : Kind) (spelling : String) : Symbol :=
  ⟨kind, if kind.isOpen then spelling else "", fun h => if_neg (by simp [h])⟩

/-- A symbol whose kind says it all. -/
def sign (kind : Kind) : Symbol := of kind ""

/-- A reserved word. -/
def word (keyword : Keyword) : Symbol := sign (.keyword keyword)

/-- An identifier. -/
def name (spelling : String) : Symbol := of .identifier spelling

theorem eq_of {symbol : Symbol} {kind : Kind} (h : symbol.kind = kind) :
    symbol = of kind symbol.spelling := by
  subst h
  ext
  · rfl
  · cases hopen : symbol.kind.isOpen with
    | true => simp [of, hopen]
    | false => simp [of, hopen, symbol.closed hopen]

theorem of_closed {kind : Kind} (spelling : String) (h : kind.isOpen = false) :
    of kind spelling = sign kind := by
  simp [of, sign, h]

end Symbol

/-- The symbol that a token is. -/
def Token.symbol (token : Token) : Symbol :=
  .of token.kind token.spelling

namespace Grammar

open Triangle.Symbol (sign word name)

/-! ## The rules -/

mutual

/-- Derivations of Type-denoter. -/
inductive TypeDenoter where
  | simple (id : String)
  | array (size : String) (element : TypeDenoter)
  | record (fields : FieldDenoters)

/-- Derivations of Field-Type-denoter. -/
inductive FieldDenoters where
  | single (id : String) (of : TypeDenoter)
  | multiple (id : String) (of : TypeDenoter) (rest : FieldDenoters)

end

mutual

/-- Derivations of Formal-Parameter. -/
inductive Parameter where
  | const (id : String) (of : TypeDenoter)
  | var (id : String) (of : TypeDenoter)
  | proc (id : String) (parameters : Parameters)
  | func (id : String) (parameters : Parameters) (result : TypeDenoter)

/-- Derivations of Formal-Parameter-Sequence. -/
inductive Parameters where
  | none
  | some (proper : ProperParameters)

/-- Derivations of Formal-Parameter-Sequence with at least one parameter. -/
inductive ProperParameters where
  | single (parameter : Parameter)
  | multiple (first : Parameter) (rest : ProperParameters)

end

mutual

/-- Derivations of Command. -/
inductive Command where
  | single (command : SingleCommand)
  | sequential (first : SingleCommand) (rest : Command)

/-- Derivations of single-Command. -/
inductive SingleCommand where
  | empty
  | assign (target : Vname) (value : Expression)
  | doubleAssign (first second : Vname) (firstValue secondValue : Expression)
  | call (id : String) (arguments : Arguments)
  | block (body : Command)
  | letIn (declaration : Declaration) (body : SingleCommand)
  | ifElse (condition : Expression) (first second : SingleCommand)
  | whileDo (condition : Expression) (body : SingleCommand)
  | whileBraces (condition : Expression) (body : Command)
  | loop (before : SingleCommand) (condition : Expression) (body : SingleCommand)

/-- Derivations of Expression. -/
inductive Expression where
  | letIn (declaration : Declaration) (body : Expression)
  | ifElse (condition first second : Expression)
  | secondary (first : Primary) (operations : Operations)

/-- Derivations of what stands after the first operand of a secondary-Expression. -/
inductive Operations where
  | none
  | some (operator : String) (operand : Primary) (rest : Operations)

/-- Derivations of primary-Expression. -/
inductive Primary where
  | integer (literal : String)
  | character (literal : String)
  | vname (vname : Vname)
  | call (id : String) (arguments : Arguments)
  | unary (operator : String) (operand : Primary)
  | parens (body : Expression)
  | record (fields : RecordAggregate)
  | array (elements : ArrayAggregate)

/-- Derivations of Record-Aggregate. -/
inductive RecordAggregate where
  | single (field : String) (value : Expression)
  | multiple (field : String) (value : Expression) (rest : RecordAggregate)

/-- Derivations of Array-Aggregate. -/
inductive ArrayAggregate where
  | single (element : Expression)
  | multiple (first : Expression) (rest : ArrayAggregate)

/-- Derivations of V-name. -/
inductive Vname where
  | mk (id : String) (selectors : Selectors)

/-- Derivations of what stands after the identifier of a V-name. -/
inductive Selectors where
  | none
  | dot (field : String) (rest : Selectors)
  | subscript (index : Expression) (rest : Selectors)

/-- Derivations of Actual-Parameter-Sequence. -/
inductive Arguments where
  | none
  | some (proper : ProperArguments)

/-- Derivations of Actual-Parameter-Sequence with at least one parameter. -/
inductive ProperArguments where
  | single (argument : Argument)
  | multiple (first : Argument) (rest : ProperArguments)

/-- Derivations of Actual-Parameter. -/
inductive Argument where
  | const (value : Expression)
  | var (vname : Vname)
  | proc (id : String)
  | func (id : String)

/-- Derivations of Declaration. -/
inductive Declaration where
  | single (declaration : SingleDeclaration)
  | sequential (first : SingleDeclaration) (rest : Declaration)

/-- Derivations of single-Declaration. -/
inductive SingleDeclaration where
  | const (id : String) (value : Expression)
  | var (id : String) (of : TypeDenoter)
  | proc (id : String) (parameters : Parameters) (body : SingleCommand)
  | func (id : String) (parameters : Parameters) (result : TypeDenoter) (body : Expression)
  | type (id : String) (of : TypeDenoter)

end

instance : Inhabited TypeDenoter := ⟨.simple ""⟩
instance : Inhabited FieldDenoters := ⟨.single "" default⟩
instance : Inhabited Parameters := ⟨.none⟩
instance : Inhabited Parameter := ⟨.const "" default⟩
instance : Inhabited ProperParameters := ⟨.single default⟩
instance : Inhabited SingleCommand := ⟨.empty⟩
instance : Inhabited Command := ⟨.single default⟩
instance : Inhabited Primary := ⟨.integer ""⟩
instance : Inhabited Operations := ⟨.none⟩
instance : Inhabited Expression := ⟨.secondary default default⟩
instance : Inhabited RecordAggregate := ⟨.single "" default⟩
instance : Inhabited ArrayAggregate := ⟨.single default⟩
instance : Inhabited Selectors := ⟨.none⟩
instance : Inhabited Vname := ⟨.mk "" default⟩
instance : Inhabited Arguments := ⟨.none⟩
instance : Inhabited Argument := ⟨.const default⟩
instance : Inhabited ProperArguments := ⟨.single default⟩
instance : Inhabited SingleDeclaration := ⟨.type "" default⟩
instance : Inhabited Declaration := ⟨.single default⟩

/-! ## Yields -/

mutual

/-- The symbols of a type denoter. -/
@[simp] def TypeDenoter.yield : TypeDenoter → List Symbol
  | .simple id => [name id]
  | .array size element => word .array :: .of .integer size :: word .of :: element.yield
  | .record fields => word .record :: (fields.yield ++ [word .end_])

/-- The symbols of the fields of a record type. -/
@[simp] def FieldDenoters.yield : FieldDenoters → List Symbol
  | .single id of => name id :: sign .colon :: of.yield
  | .multiple id of rest => name id :: sign .colon :: (of.yield ++ sign .comma :: rest.yield)

end

mutual

/-- The symbols of a formal parameter. -/
@[simp] def Parameter.yield : Parameter → List Symbol
  | .const id of => name id :: sign .colon :: of.yield
  | .var id of => word .var :: name id :: sign .colon :: of.yield
  | .proc id parameters => word .proc :: name id :: parameters.yield
  | .func id parameters result =>
    word .func :: name id :: (parameters.yield ++ sign .colon :: result.yield)

/-- The symbols of formal parameters, with the parentheses around them. -/
@[simp] def Parameters.yield : Parameters → List Symbol
  | .none => [sign .openParen, sign .closeParen]
  | .some proper => sign .openParen :: (proper.yield ++ [sign .closeParen])

/-- The symbols of one or more formal parameters. -/
@[simp] def ProperParameters.yield : ProperParameters → List Symbol
  | .single parameter => parameter.yield
  | .multiple first rest => first.yield ++ sign .comma :: rest.yield

end

mutual

/-- The symbols of a command. -/
@[simp] def Command.yield : Command → List Symbol
  | .single command => command.yield
  | .sequential first rest => first.yield ++ sign .semicolon :: rest.yield

/-- The symbols of a command that is not a sequence. -/
@[simp] def SingleCommand.yield : SingleCommand → List Symbol
  | .empty => []
  | .assign target value => target.yield ++ sign .becomes :: value.yield
  | .doubleAssign first second firstValue secondValue =>
    first.yield ++ sign .comma :: (second.yield ++ sign .becomes ::
      (firstValue.yield ++ sign .comma :: secondValue.yield))
  | .call id arguments => name id :: arguments.yield
  | .block body => word .begin :: (body.yield ++ [word .end_])
  | .letIn declaration body => word .let_ :: (declaration.yield ++ word .in_ :: body.yield)
  | .ifElse condition first second =>
    word .if_ :: (condition.yield ++ word .then_ :: (first.yield ++ word .else_ :: second.yield))
  | .whileDo condition body => word .while_ :: (condition.yield ++ word .do_ :: body.yield)
  | .whileBraces condition body =>
    word .while_ :: (condition.yield ++ sign .openCurly :: (body.yield ++ [sign .closeCurly]))
  | .loop before condition body =>
    word .loop :: (before.yield ++ word .while_ :: (condition.yield ++ word .do_ :: body.yield))

/-- The symbols of an expression. -/
@[simp] def Expression.yield : Expression → List Symbol
  | .letIn declaration body => word .let_ :: (declaration.yield ++ word .in_ :: body.yield)
  | .ifElse condition first second =>
    word .if_ :: (condition.yield ++ word .then_ :: (first.yield ++ word .else_ :: second.yield))
  | .secondary first operations => first.yield ++ operations.yield

/-- The symbols after the first operand. -/
@[simp] def Operations.yield : Operations → List Symbol
  | .none => []
  | .some operator operand rest => .of .operator operator :: (operand.yield ++ rest.yield)

/-- The symbols of a primary expression. -/
@[simp] def Primary.yield : Primary → List Symbol
  | .integer literal => [.of .integer literal]
  | .character literal => [.of .character literal]
  | .vname vname => vname.yield
  | .call id arguments => name id :: arguments.yield
  | .unary operator operand => .of .operator operator :: operand.yield
  | .parens body => sign .openParen :: (body.yield ++ [sign .closeParen])
  | .record fields => sign .openCurly :: (fields.yield ++ [sign .closeCurly])
  | .array elements => sign .openSquare :: (elements.yield ++ [sign .closeSquare])

/-- The symbols of the fields of a record. -/
@[simp] def RecordAggregate.yield : RecordAggregate → List Symbol
  | .single field value => name field :: sign .is :: value.yield
  | .multiple field value rest =>
    name field :: sign .is :: (value.yield ++ sign .comma :: rest.yield)

/-- The symbols of the elements of an array. -/
@[simp] def ArrayAggregate.yield : ArrayAggregate → List Symbol
  | .single element => element.yield
  | .multiple first rest => first.yield ++ sign .comma :: rest.yield

/-- The symbols of a V-name. -/
@[simp] def Vname.yield : Vname → List Symbol
  | .mk id selectors => name id :: selectors.yield

/-- The symbols after the identifier of a V-name. -/
@[simp] def Selectors.yield : Selectors → List Symbol
  | .none => []
  | .dot field rest => sign .dot :: name field :: rest.yield
  | .subscript index rest =>
    sign .openSquare :: (index.yield ++ sign .closeSquare :: rest.yield)

/-- The symbols of actual parameters, with the parentheses around them. -/
@[simp] def Arguments.yield : Arguments → List Symbol
  | .none => [sign .openParen, sign .closeParen]
  | .some proper => sign .openParen :: (proper.yield ++ [sign .closeParen])

/-- The symbols of one or more actual parameters. -/
@[simp] def ProperArguments.yield : ProperArguments → List Symbol
  | .single argument => argument.yield
  | .multiple first rest => first.yield ++ sign .comma :: rest.yield

/-- The symbols of an actual parameter. -/
@[simp] def Argument.yield : Argument → List Symbol
  | .const value => value.yield
  | .var vname => word .var :: vname.yield
  | .proc id => [word .proc, name id]
  | .func id => [word .func, name id]

/-- The symbols of a declaration. -/
@[simp] def Declaration.yield : Declaration → List Symbol
  | .single declaration => declaration.yield
  | .sequential first rest => first.yield ++ sign .semicolon :: rest.yield

/-- The symbols of a declaration that is not a sequence. -/
@[simp] def SingleDeclaration.yield : SingleDeclaration → List Symbol
  | .const id value => word .const :: name id :: sign .is :: value.yield
  | .var id of => word .var :: name id :: sign .colon :: of.yield
  | .proc id parameters body =>
    word .proc :: name id :: (parameters.yield ++ sign .is :: body.yield)
  | .func id parameters result body =>
    word .func :: name id :: (parameters.yield ++ sign .colon ::
      (result.yield ++ sign .is :: body.yield))
  | .type id of => word .type :: name id :: sign .is :: of.yield

end

/-! ## Trees -/

/-- A terminal without a mark. -/
@[simp] def terminal (spelling : String) : Terminal := ⟨default, spelling⟩

mutual

/-- The tree of a type denoter. -/
@[simp] def TypeDenoter.tree : TypeDenoter → Triangle.TypeDenoter
  | .simple id => .simple default (terminal id)
  | .array size element => .array default (terminal size) element.tree
  | .record fields => .record default fields.tree

/-- The tree of the fields of a record type. -/
@[simp] def FieldDenoters.tree : FieldDenoters → Triangle.FieldDenoters
  | .single id of => .single default (terminal id) of.tree
  | .multiple id of rest => .multiple default (terminal id) of.tree rest.tree

end

mutual

/-- The tree of a formal parameter. -/
@[simp] def Parameter.tree : Parameter → Triangle.Parameter
  | .const id of => .const default (terminal id) of.tree
  | .var id of => .var default (terminal id) of.tree
  | .proc id parameters => .proc default (terminal id) parameters.tree
  | .func id parameters result => .func default (terminal id) parameters.tree result.tree

/-- The tree of formal parameters. -/
@[simp] def Parameters.tree : Parameters → Triangle.Parameters
  | .none => .empty default
  | .some proper => proper.tree

/-- The tree of one or more formal parameters. -/
@[simp] def ProperParameters.tree : ProperParameters → Triangle.Parameters
  | .single parameter => .single default parameter.tree
  | .multiple first rest => .multiple default first.tree rest.tree

end

mutual

/-- The tree of a command. -/
@[simp] def Command.tree : Command → Triangle.Command
  | .single command => command.tree
  | .sequential first rest => .sequential default first.tree rest.tree

/-- The tree of a command that is not a sequence. -/
@[simp] def SingleCommand.tree : SingleCommand → Triangle.Command
  | .empty => .empty default
  | .assign target value => .assign default target.tree value.tree
  | .doubleAssign first second firstValue secondValue =>
    .doubleAssign default first.tree second.tree firstValue.tree secondValue.tree
  | .call id arguments => .call default (terminal id) arguments.tree
  | .block body => body.tree
  | .letIn declaration body => .letIn default declaration.tree body.tree
  | .ifElse condition first second => .ifElse default condition.tree first.tree second.tree
  | .whileDo condition body => .whileDo default condition.tree body.tree
  | .whileBraces condition body =>
    .loopWhile default (.empty default) condition.tree body.tree
  | .loop before condition body => .loopWhile default before.tree condition.tree body.tree

/-- The tree of an expression. -/
@[simp] def Expression.tree : Expression → Triangle.Expression
  | .letIn declaration body => .letIn default declaration.tree body.tree
  | .ifElse condition first second => .ifElse default condition.tree first.tree second.tree
  | .secondary first operations => operations.tree first.tree

/-- The tree that operations make of the one to their left. -/
@[simp] def Operations.tree : Operations → Triangle.Expression → Triangle.Expression
  | .none, left => left
  | .some operator operand rest, left =>
    rest.tree (.binary default left (terminal operator) operand.tree)

/-- The tree of a primary expression. -/
@[simp] def Primary.tree : Primary → Triangle.Expression
  | .integer literal => .integer default (terminal literal)
  | .character literal => .character default (terminal literal)
  | .vname vname => .vname default vname.tree
  | .call id arguments => .call default (terminal id) arguments.tree
  | .unary operator operand => .unary default (terminal operator) operand.tree
  | .parens body => body.tree
  | .record fields => .record default fields.tree
  | .array elements => .array default elements.tree

/-- The tree of the fields of a record. -/
@[simp] def RecordAggregate.tree : RecordAggregate → Triangle.RecordAggregate
  | .single field value => .single default (terminal field) value.tree
  | .multiple field value rest => .multiple default (terminal field) value.tree rest.tree

/-- The tree of the elements of an array. -/
@[simp] def ArrayAggregate.tree : ArrayAggregate → Triangle.ArrayAggregate
  | .single element => .single default element.tree
  | .multiple first rest => .multiple default first.tree rest.tree

/-- The tree of a V-name. -/
@[simp] def Vname.tree : Vname → Triangle.Vname
  | .mk id selectors => selectors.tree (.simple default (terminal id))

/-- The tree that selectors make of the one to their left. -/
@[simp] def Selectors.tree : Selectors → Triangle.Vname → Triangle.Vname
  | .none, whole => whole
  | .dot field rest, whole => rest.tree (.dot default whole (terminal field))
  | .subscript index rest, whole => rest.tree (.subscript default whole index.tree)

/-- The tree of actual parameters. -/
@[simp] def Arguments.tree : Arguments → Triangle.Arguments
  | .none => .empty default
  | .some proper => proper.tree

/-- The tree of one or more actual parameters. -/
@[simp] def ProperArguments.tree : ProperArguments → Triangle.Arguments
  | .single argument => .single default argument.tree
  | .multiple first rest => .multiple default first.tree rest.tree

/-- The tree of an actual parameter. -/
@[simp] def Argument.tree : Argument → Triangle.Argument
  | .const value => .const default value.tree
  | .var vname => .var default vname.tree
  | .proc id => .proc default (terminal id)
  | .func id => .func default (terminal id)

/-- The tree of a declaration. -/
@[simp] def Declaration.tree : Declaration → Triangle.Declaration
  | .single declaration => declaration.tree
  | .sequential first rest => .sequential default first.tree rest.tree

/-- The tree of a declaration that is not a sequence. -/
@[simp] def SingleDeclaration.tree : SingleDeclaration → Triangle.Declaration
  | .const id value => .const default (terminal id) value.tree
  | .var id of => .var default (terminal id) of.tree
  | .proc id parameters body => .proc default (terminal id) parameters.tree body.tree
  | .func id parameters result body =>
    .func default (terminal id) parameters.tree result.tree body.tree
  | .type id of => .type default (terminal id) of.tree

end

/-! ## Admissible derivations -/

mutual

/-- No empty command is followed by `while`, in a command followed by a symbol of kind `next`. -/
@[simp] def Command.Admissible (next : Kind) : Command → Prop
  | .single command => command.Admissible next
  | .sequential first rest => first.Admissible .semicolon ∧ rest.Admissible next

/-- No empty command is followed by `while`, in a single command followed by `next`. -/
@[simp] def SingleCommand.Admissible (next : Kind) : SingleCommand → Prop
  | .empty => next ≠ .keyword .while_
  | .assign target value => target.Admissible ∧ value.Admissible
  | .doubleAssign first second firstValue secondValue =>
    first.Admissible ∧ second.Admissible ∧ firstValue.Admissible ∧ secondValue.Admissible
  | .call _ arguments => arguments.Admissible
  | .block body => body.Admissible (.keyword .end_)
  | .letIn declaration body => declaration.Admissible (.keyword .in_) ∧ body.Admissible next
  | .ifElse condition first second =>
    condition.Admissible ∧ first.Admissible (.keyword .else_) ∧ second.Admissible next
  | .whileDo condition body => condition.Admissible ∧ body.Admissible next
  | .whileBraces condition body => condition.Admissible ∧ body.Admissible .closeCurly
  | .loop before condition body =>
    before.Admissible (.keyword .while_) ∧ condition.Admissible ∧ body.Admissible next

/-- No empty command in the expression is followed by `while`. -/
@[simp] def Expression.Admissible : Expression → Prop
  | .letIn declaration body => declaration.Admissible (.keyword .in_) ∧ body.Admissible
  | .ifElse condition first second =>
    condition.Admissible ∧ first.Admissible ∧ second.Admissible
  | .secondary first operations => first.Admissible ∧ operations.Admissible

/-- No empty command in the operands is followed by `while`. -/
@[simp] def Operations.Admissible : Operations → Prop
  | .none => True
  | .some _ operand rest => operand.Admissible ∧ rest.Admissible

/-- No empty command in the primary expression is followed by `while`. -/
@[simp] def Primary.Admissible : Primary → Prop
  | .integer _ | .character _ => True
  | .vname vname => vname.Admissible
  | .call _ arguments => arguments.Admissible
  | .unary _ operand => operand.Admissible
  | .parens body => body.Admissible
  | .record fields => fields.Admissible
  | .array elements => elements.Admissible

/-- No empty command in the fields is followed by `while`. -/
@[simp] def RecordAggregate.Admissible : RecordAggregate → Prop
  | .single _ value => value.Admissible
  | .multiple _ value rest => value.Admissible ∧ rest.Admissible

/-- No empty command in the elements is followed by `while`. -/
@[simp] def ArrayAggregate.Admissible : ArrayAggregate → Prop
  | .single element => element.Admissible
  | .multiple first rest => first.Admissible ∧ rest.Admissible

/-- No empty command in the V-name is followed by `while`. -/
@[simp] def Vname.Admissible : Vname → Prop
  | .mk _ selectors => selectors.Admissible

/-- No empty command in the subscripts is followed by `while`. -/
@[simp] def Selectors.Admissible : Selectors → Prop
  | .none => True
  | .dot _ rest => rest.Admissible
  | .subscript index rest => index.Admissible ∧ rest.Admissible

/-- No empty command in the actual parameters is followed by `while`. -/
@[simp] def Arguments.Admissible : Arguments → Prop
  | .none => True
  | .some proper => proper.Admissible

/-- No empty command in one or more actual parameters is followed by `while`. -/
@[simp] def ProperArguments.Admissible : ProperArguments → Prop
  | .single argument => argument.Admissible
  | .multiple first rest => first.Admissible ∧ rest.Admissible

/-- No empty command in the actual parameter is followed by `while`. -/
@[simp] def Argument.Admissible : Argument → Prop
  | .const value => value.Admissible
  | .var vname => vname.Admissible
  | .proc _ | .func _ => True

/-- No empty command is followed by `while`, in a declaration followed by `next`. -/
@[simp] def Declaration.Admissible (next : Kind) : Declaration → Prop
  | .single declaration => declaration.Admissible next
  | .sequential first rest => first.Admissible .semicolon ∧ rest.Admissible next

/-- No empty command is followed by `while`, in a single declaration followed by `next`. -/
@[simp] def SingleDeclaration.Admissible (next : Kind) : SingleDeclaration → Prop
  | .const _ value => value.Admissible
  | .var _ _ | .type _ _ => True
  | .proc _ _ body => body.Admissible next
  | .func _ _ _ body => body.Admissible

end

/-- A derivation of Program: a command, and then the end of the text. -/
structure Program where
  command : Command
deriving Inhabited

/-- The symbols of a program. -/
@[simp] def Program.yield (program : Program) : List Symbol :=
  program.command.yield ++ [sign .endOfText]

/-- No empty command in the program is followed by `while`. -/
@[simp] def Program.Admissible (program : Program) : Prop :=
  program.command.Admissible .endOfText

/-- The kind of the first symbol; after the last symbol the text ends. -/
def nextKind : List Symbol → Kind
  | [] => .endOfText
  | symbol :: _ => symbol.kind

@[simp] theorem nextKind_of (k : Kind) (spelling : String) (w : List Symbol) :
    nextKind (.of k spelling :: w) = k := rfl

end Grammar

end Triangle
