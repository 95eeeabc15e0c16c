import Triangle.Diagnostic.Log
import Triangle.Text.Quote
import Triangle.Token.Scan
import Triangle.Typing.Signature

/-!
# What can be wrong with a program

The complaints of each phase, and the words for them.  A complaint keeps what it is about, so
that two complaints can be told apart without reading their messages.
-/

namespace Triangle

/-- A lexical mistake in words. -/
def LexicalFault.message : LexicalFault → String
  | badCharacter c => "Bad character " ++ Text.quoted c ++ " in input stream"
  | integerOverflow => "Integer literal overflow, valid range is [0, 32767]"
  | openCharacter => "Malformed character literal, expected closing `'`"
  | badEscape c =>
    "Unknown escape sequence `\\" ++ String.singleton c ++ "` in character literal"
  | openComment => "Unterminated block comment"

/-! ## Syntax -/

/-- What the grammar asks for at some point. -/
inductive Expectation where
  | token (kind : Kind)
  | command
  | expression
  | declaration
  | parameter
  | typeDenoter
  /-- What follows the condition of a loop. -/
  | loopBody
deriving DecidableEq

/-- An expectation as it is named in messages. -/
def Expectation.describe : Expectation → String
  | token kind => kind.describe
  | command => "a command"
  | expression => "an expression"
  | declaration => "a declaration"
  | parameter => "a formal parameter"
  | typeDenoter => "a type denoter"
  | loopBody => "`do` or `\x7b` after loop condition"

/-- A token that the grammar does not allow where it stands. -/
structure SyntaxFault where
  expected : Expectation
  found : Token
deriving DecidableEq

/-- A mistake of syntax in words. -/
def SyntaxFault.message (fault : SyntaxFault) : String :=
  "Expected " ++ fault.expected.describe ++ ", found " ++ fault.found.describe ++ " instead"

/-! ## Names and types -/

/-- What a name or an operator is used as. -/
inductive Role where
  | procedure
  | function
  | binaryOperator
  | unaryOperator
  | value
  | type
deriving DecidableEq

/-- A role as it is named in messages. -/
def Role.describe : Role → String
  | procedure => "procedure identifier"
  | function => "function identifier"
  | binaryOperator => "binary operator"
  | unaryOperator => "unary operator"
  | value => "const or var identifier"
  | type => "type identifier"

/-- A use of names or types that the context does not allow. -/
inductive ContextFault where
  | undeclared (name : String)
  | redeclared (name : String)
  | typeMismatch (expected found : Ty)
  | wrongRole (name : String) (expected : Role)
  | incompatibleOperands (operator : String) (left right : Ty)
  | incompatibleLimbs (first second : Ty)
  | notAVariable
  | notAVariableArgument
  | tooFewArguments
  | tooManyArguments
  | modeMismatch (expected found : Mode)
  | wrongSignature (name : String)
  | notARecord (found : Ty)
  | noSuchField (field : String) (of : Ty)
  | notAnArray (found : Ty)
  | duplicateField (name : String)
  | emptyArray

/-- A name as it is quoted in messages. -/
def inBackquotes (text : String) : String := "`" ++ text ++ "`"

/-- A mistake about names or types in words. -/
def ContextFault.message : ContextFault → String
  | undeclared name => inBackquotes name ++ " is not declared"
  | redeclared name =>
    "Identifier " ++ inBackquotes name ++ " is already declared in this scope"
  | typeMismatch expected found =>
    "Type mismatch: expected " ++ inBackquotes expected.describe ++ ", found " ++
      inBackquotes found.describe
  | wrongRole name expected => inBackquotes name ++ " is not a " ++ expected.describe
  | incompatibleOperands operator left right =>
    "Incompatible argument types for " ++ inBackquotes operator ++ ": " ++
      inBackquotes left.describe ++ " and " ++ inBackquotes right.describe
  | incompatibleLimbs first second =>
    "Incompatible limbs in if-expression: " ++ inBackquotes first.describe ++ " and " ++
      inBackquotes second.describe
  | notAVariable => "Left-hand side of assignment is not a variable"
  | notAVariableArgument => "Actual parameter for a var parameter is not a variable"
  | tooFewArguments => "Too few actual parameters"
  | tooManyArguments => "Too many actual parameters"
  | modeMismatch expected found =>
    found.word ++ " actual parameter given where a " ++ expected.word ++
      " parameter is expected"
  | wrongSignature name => "Wrong signature for routine " ++ inBackquotes name
  | notARecord found => "Record expected here, found " ++ inBackquotes found.describe
  | noSuchField field of => "No field " ++ inBackquotes field ++ " in " ++ inBackquotes of.describe
  | notAnArray found => "Array expected here, found " ++ inBackquotes found.describe
  | duplicateField name => "Duplicate field " ++ inBackquotes name ++ " in record"
  | emptyArray => "Arrays must not be empty"

/-! ## Folding and the machine -/

/-- A division that is left to the machine because its constant divisor is zero. -/
inductive ZeroDivision where
  | division
  | modulo
deriving DecidableEq

/-- A division by zero in words. -/
def ZeroDivision.message : ZeroDivision → String
  | division => "Constant division by zero left unfolded"
  | modulo => "Constant modulo by zero left unfolded"

/-- A program that does not fit the machine. -/
inductive Restriction where
  | codeTooLarge
  | valueTooLarge
  | nestingTooDeep
  | outOfReach
deriving DecidableEq

/-- A restriction in words. -/
def Restriction.message : Restriction → String
  | codeTooLarge => "Program exceeds the code store of 1024 instructions"
  | valueTooLarge => "Can't move values larger than 255 words"
  | nestingTooDeep => "Can't nest routines more than 7 deep"
  | outOfReach => "Can't access data more than 6 levels out"

/-! ## All together -/

/-- Something wrong with a program. -/
inductive Problem where
  | lexical (fault : LexicalFault)
  | syntactic (fault : SyntaxFault)
  | contextual (fault : ContextFault)
  | zeroDivision (operation : ZeroDivision)
  | restriction (limit : Restriction)

instance : Complaint Problem where
  phase
    | .lexical _ => .lexical
    | .syntactic _ => .syntactic
    | .contextual _ => .contextual
    | .zeroDivision _ => .contextual
    | .restriction _ => .restriction
  message
    | .lexical fault => fault.message
    | .syntactic fault => fault.message
    | .contextual fault => fault.message
    | .zeroDivision operation => operation.message
    | .restriction limit => limit.message

end Triangle
