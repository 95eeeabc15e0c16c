import Triangle.Syntax.Tree
import Triangle.Token.Literal

/-!
# Complete phrases

The parser builds a tree of every text and fills in what is missing; besides, the tree has forms
that no text is read as, such as declarations of operators.  A phrase is complete if it has none of
this: every expression and every type is there, the size of every array is a number, and only
names are declared.  Later phases do not complain about an incomplete phrase, so that a statement
about programs they accept has to say that the program is complete.
-/

namespace Triangle

mutual

/-- A type was given, and sizes are numbers. -/
@[simp] def TypeDenoter.Complete : TypeDenoter → Prop
  | .any _ | .error _ => False
  | .array _ size element =>
    (Literal.integerValue? size.spelling).isSome ∧ element.Complete
  | .bool _ | .char _ | .int _ | .simple _ _ => True
  | .record _ fields => fields.Complete

/-- Every field has a type. -/
@[simp] def FieldDenoters.Complete : FieldDenoters → Prop
  | .single _ _ of => of.Complete
  | .multiple _ _ of rest => of.Complete ∧ rest.Complete

end

mutual

/-- The parameter has a type. -/
@[simp] def Parameter.Complete : Parameter → Prop
  | .const _ _ of | .var _ _ of => of.Complete
  | .func _ _ parameters result => parameters.Complete ∧ result.Complete
  | .proc _ _ parameters => parameters.Complete

/-- Every parameter has a type. -/
@[simp] def Parameters.Complete : Parameters → Prop
  | .empty _ => True
  | .single _ parameter => parameter.Complete
  | .multiple _ first rest => first.Complete ∧ rest.Complete

end

mutual

/-- Nothing is missing in a command. -/
@[simp] def Command.Complete : Command → Prop
  | .assign _ target value => target.Complete ∧ value.Complete
  | .doubleAssign _ first second firstValue secondValue =>
    first.Complete ∧ second.Complete ∧ firstValue.Complete ∧ secondValue.Complete
  | .call _ _ arguments => arguments.Complete
  | .empty _ => True
  | .ifElse _ condition first second => condition.Complete ∧ first.Complete ∧ second.Complete
  | .letIn _ declaration body => declaration.Complete ∧ body.Complete
  | .sequential _ first second => first.Complete ∧ second.Complete
  | .whileDo _ condition body => condition.Complete ∧ body.Complete
  | .loopWhile _ prelude condition body =>
    prelude.Complete ∧ condition.Complete ∧ body.Complete

/-- Nothing is missing in an expression. -/
@[simp] def Expression.Complete : Expression → Prop
  | .array _ elements => elements.Complete
  | .binary _ left _ right => left.Complete ∧ right.Complete
  | .call _ _ arguments => arguments.Complete
  | .character _ _ | .integer _ _ => True
  | .empty _ => False
  | .ifElse _ condition first second => condition.Complete ∧ first.Complete ∧ second.Complete
  | .letIn _ declaration body => declaration.Complete ∧ body.Complete
  | .record _ fields => fields.Complete
  | .unary _ _ operand => operand.Complete
  | .vname _ vname => vname.Complete

/-- Nothing is missing in a declaration, and it declares no operator. -/
@[simp] def Declaration.Complete : Declaration → Prop
  | .binaryOperator _ _ _ _ _ | .unaryOperator _ _ _ _ => False
  | .const _ _ value => value.Complete
  | .func _ _ parameters result body =>
    parameters.Complete ∧ result.Complete ∧ body.Complete
  | .proc _ _ parameters body => parameters.Complete ∧ body.Complete
  | .sequential _ first second => first.Complete ∧ second.Complete
  | .type _ _ of | .var _ _ of => of.Complete

/-- Nothing is missing in a V-name. -/
@[simp] def Vname.Complete : Vname → Prop
  | .dot _ record _ => record.Complete
  | .simple _ _ => True
  | .subscript _ array index => array.Complete ∧ index.Complete

/-- Nothing is missing in an actual parameter. -/
@[simp] def Argument.Complete : Argument → Prop
  | .const _ value => value.Complete
  | .func _ _ | .proc _ _ => True
  | .var _ vname => vname.Complete

/-- Nothing is missing in actual parameters. -/
@[simp] def Arguments.Complete : Arguments → Prop
  | .empty _ => True
  | .single _ argument => argument.Complete
  | .multiple _ first rest => first.Complete ∧ rest.Complete

/-- Nothing is missing in the elements of an array. -/
@[simp] def ArrayAggregate.Complete : ArrayAggregate → Prop
  | .single _ element => element.Complete
  | .multiple _ first rest => first.Complete ∧ rest.Complete

/-- Nothing is missing in the fields of a record. -/
@[simp] def RecordAggregate.Complete : RecordAggregate → Prop
  | .single _ _ value => value.Complete
  | .multiple _ _ value rest => value.Complete ∧ rest.Complete

end

end Triangle
