import Triangle.Syntax.Tree

/-!
# Trees without their marks

Two trees say the same if they differ only in the identities of their nodes and in the places these
have in the text.  `erased` gives every mark of a tree the same value, so trees that say the same
have the same erased tree.
-/

namespace Triangle

/-- A terminal without its mark. -/
@[simp] def Terminal.erased (terminal : Terminal) : Terminal :=
  ⟨default, terminal.spelling⟩

mutual

/-- A type denoter without marks. -/
@[simp] def TypeDenoter.erased : TypeDenoter → TypeDenoter
  | .any _ => .any default
  | .array _ size element => .array default size.erased element.erased
  | .bool _ => .bool default
  | .char _ => .char default
  | .error _ => .error default
  | .int _ => .int default
  | .record _ fields => .record default fields.erased
  | .simple _ name => .simple default name.erased

/-- The fields of a record type without marks. -/
@[simp] def FieldDenoters.erased : FieldDenoters → FieldDenoters
  | .single _ name of => .single default name.erased of.erased
  | .multiple _ name of rest => .multiple default name.erased of.erased rest.erased

end

mutual

/-- A formal parameter without marks. -/
@[simp] def Parameter.erased : Parameter → Parameter
  | .const _ name of => .const default name.erased of.erased
  | .func _ name parameters result => .func default name.erased parameters.erased result.erased
  | .proc _ name parameters => .proc default name.erased parameters.erased
  | .var _ name of => .var default name.erased of.erased

/-- Formal parameters without marks. -/
@[simp] def Parameters.erased : Parameters → Parameters
  | .empty _ => .empty default
  | .single _ parameter => .single default parameter.erased
  | .multiple _ first rest => .multiple default first.erased rest.erased

end

mutual

/-- A command without marks. -/
@[simp] def Command.erased : Command → Command
  | .assign _ target value => .assign default target.erased value.erased
  | .doubleAssign _ first second firstValue secondValue =>
    .doubleAssign default first.erased second.erased firstValue.erased secondValue.erased
  | .call _ name arguments => .call default name.erased arguments.erased
  | .empty _ => .empty default
  | .ifElse _ condition first second =>
    .ifElse default condition.erased first.erased second.erased
  | .letIn _ declaration body => .letIn default declaration.erased body.erased
  | .sequential _ first second => .sequential default first.erased second.erased
  | .whileDo _ condition body => .whileDo default condition.erased body.erased
  | .loopWhile _ before condition body =>
    .loopWhile default before.erased condition.erased body.erased

/-- An expression without marks. -/
@[simp] def Expression.erased : Expression → Expression
  | .array _ elements => .array default elements.erased
  | .binary _ left operator right => .binary default left.erased operator.erased right.erased
  | .call _ name arguments => .call default name.erased arguments.erased
  | .character _ literal => .character default literal.erased
  | .empty _ => .empty default
  | .ifElse _ condition first second =>
    .ifElse default condition.erased first.erased second.erased
  | .integer _ literal => .integer default literal.erased
  | .letIn _ declaration body => .letIn default declaration.erased body.erased
  | .record _ fields => .record default fields.erased
  | .unary _ operator operand => .unary default operator.erased operand.erased
  | .vname _ vname => .vname default vname.erased

/-- A declaration without marks. -/
@[simp] def Declaration.erased : Declaration → Declaration
  | .binaryOperator _ operator left right result =>
    .binaryOperator default operator.erased left.erased right.erased result.erased
  | .const _ name value => .const default name.erased value.erased
  | .func _ name parameters result body =>
    .func default name.erased parameters.erased result.erased body.erased
  | .proc _ name parameters body => .proc default name.erased parameters.erased body.erased
  | .sequential _ first second => .sequential default first.erased second.erased
  | .type _ name of => .type default name.erased of.erased
  | .unaryOperator _ operator operand result =>
    .unaryOperator default operator.erased operand.erased result.erased
  | .var _ name of => .var default name.erased of.erased

/-- A V-name without marks. -/
@[simp] def Vname.erased : Vname → Vname
  | .dot _ record field => .dot default record.erased field.erased
  | .simple _ name => .simple default name.erased
  | .subscript _ array index => .subscript default array.erased index.erased

/-- An actual parameter without marks. -/
@[simp] def Argument.erased : Argument → Argument
  | .const _ value => .const default value.erased
  | .func _ name => .func default name.erased
  | .proc _ name => .proc default name.erased
  | .var _ vname => .var default vname.erased

/-- Actual parameters without marks. -/
@[simp] def Arguments.erased : Arguments → Arguments
  | .empty _ => .empty default
  | .single _ argument => .single default argument.erased
  | .multiple _ first rest => .multiple default first.erased rest.erased

/-- The elements of an array without marks. -/
@[simp] def ArrayAggregate.erased : ArrayAggregate → ArrayAggregate
  | .single _ element => .single default element.erased
  | .multiple _ first rest => .multiple default first.erased rest.erased

/-- The fields of a record without marks. -/
@[simp] def RecordAggregate.erased : RecordAggregate → RecordAggregate
  | .single _ field value => .single default field.erased value.erased
  | .multiple _ field value rest => .multiple default field.erased value.erased rest.erased

end

end Triangle
