import Triangle.Syntax.Tree

/-!
# Statistics of a program

How many of its expressions are character literals and how many are integer literals.  Type
denoters and formal parameters hold no expressions, so they do not count.
-/

namespace Triangle

/-- Numbers of literal expressions. -/
structure Statistics where
  characters : Nat
  integers : Nat
deriving DecidableEq

namespace Statistics

/-- No literals. -/
def none : Statistics := ⟨0, 0⟩

instance : Add Statistics where
  add s t := ⟨s.characters + t.characters, s.integers + t.integers⟩

/-- Statistics as they are shown. -/
def describe (statistics : Statistics) : String :=
  "Summary statistics:\n" ++
    "Character expressions: " ++ toString statistics.characters ++ "\n" ++
    "Integer expressions: " ++ toString statistics.integers ++ "\n"

end Statistics

mutual

/-- The literals in a command. -/
def Command.statistics : Command → Statistics
  | .assign _ target value => target.statistics + value.statistics
  | .doubleAssign _ first second firstValue secondValue =>
    first.statistics + second.statistics + firstValue.statistics + secondValue.statistics
  | .call _ _ arguments => arguments.statistics
  | .empty _ => .none
  | .ifElse _ condition first second =>
    condition.statistics + first.statistics + second.statistics
  | .letIn _ declaration body => declaration.statistics + body.statistics
  | .sequential _ first second => first.statistics + second.statistics
  | .whileDo _ condition body => condition.statistics + body.statistics
  | .loopWhile _ prelude condition body =>
    prelude.statistics + condition.statistics + body.statistics

/-- The literals in an expression. -/
def Expression.statistics : Expression → Statistics
  | .array _ elements => elements.statistics
  | .binary _ left _ right => left.statistics + right.statistics
  | .call _ _ arguments => arguments.statistics
  | .character _ _ => ⟨1, 0⟩
  | .empty _ => .none
  | .ifElse _ condition first second =>
    condition.statistics + first.statistics + second.statistics
  | .integer _ _ => ⟨0, 1⟩
  | .letIn _ declaration body => declaration.statistics + body.statistics
  | .record _ fields => fields.statistics
  | .unary _ _ operand => operand.statistics
  | .vname _ vname => vname.statistics

/-- The literals in a declaration. -/
def Declaration.statistics : Declaration → Statistics
  | .binaryOperator _ _ _ _ _ => .none
  | .const _ _ value => value.statistics
  | .func _ _ _ _ body => body.statistics
  | .proc _ _ _ body => body.statistics
  | .sequential _ first second => first.statistics + second.statistics
  | .type _ _ _ => .none
  | .unaryOperator _ _ _ _ => .none
  | .var _ _ _ => .none

/-- The literals in a V-name. -/
def Vname.statistics : Vname → Statistics
  | .dot _ record _ => record.statistics
  | .simple _ _ => .none
  | .subscript _ array index => array.statistics + index.statistics

/-- The literals in an actual parameter. -/
def Argument.statistics : Argument → Statistics
  | .const _ value => value.statistics
  | .func _ _ => .none
  | .proc _ _ => .none
  | .var _ vname => vname.statistics

/-- The literals in a sequence of actual parameters. -/
def Arguments.statistics : Arguments → Statistics
  | .empty _ => .none
  | .single _ argument => argument.statistics
  | .multiple _ first rest => first.statistics + rest.statistics

/-- The literals in the elements of an array. -/
def ArrayAggregate.statistics : ArrayAggregate → Statistics
  | .single _ element => element.statistics
  | .multiple _ first rest => first.statistics + rest.statistics

/-- The literals in the fields of a record. -/
def RecordAggregate.statistics : RecordAggregate → Statistics
  | .single _ _ value => value.statistics
  | .multiple _ _ value rest => value.statistics + rest.statistics

end

/-- The literals in a program. -/
def Program.statistics (program : Program) : Statistics :=
  program.command.statistics

end Triangle
