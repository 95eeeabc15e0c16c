import Triangle.Typing.Check.Phrases

/-!
# What holds of all checking

Checking a phrase is put together from a few steps by doing one after the other.  So a property that
these steps have, and that is kept when one step follows another, holds of the check of every
phrase.

A scope that is put back after it was closed is the one that was closed: this is a step of its own,
because a property of steps one by one could not say so.
-/

namespace Triangle

open Check

/-- A property that the steps of checking have, and that sequences of steps have if their parts do.
-/
structure Check.Closed (P : ∀ {α : Type}, Check α → Prop) : Prop where
  pure : ∀ {α : Type} (a : α), P (pure a)
  bind : ∀ {α β : Type} {x : Check α} {f : α → Check β}, P x → (∀ a, P (f a)) → P (x >>= f)
  lift : ∀ {α : Type} (x : Checked α), P (liftM x)
  report : ∀ span fault, P (report span fault)
  typed : ∀ id ty, P (typed id ty)
  openScope : P openScope
  closeScope : P closeScope
  /-- Something is done in the scope around the innermost one. -/
  outside : ∀ {x : Check Unit}, P x →
    P (do let scope ← Check.closeScope; x; Check.restoreScope scope)
  declare : ∀ name declaration meaning, P (declare name declaration meaning)
  resolve : ∀ name, P (resolve name)
  assignable : ∀ id, P (modify fun state =>
    { state with annotations := state.annotations.withVariable id } : Check Unit)

section

variable {P : ∀ {α : Type}, Check α → Prop} (h : Check.Closed @P)

include h

namespace Check.Closed

theorem require (expected found : Ty) (span : Span) : P (Check.require expected found span) := by
  rw [Check.require]
  split
  · exact h.pure _
  · exact h.report _ _

theorem wrongRole (name : Terminal) (expected : Role) : P (Check.wrongRole name expected) :=
  h.report _ _

theorem procedure (name : Terminal) : P (Check.procedure name) := by
  refine h.bind (h.resolve name) fun meaning => ?_
  split
  · exact h.pure _
  · exact h.bind (h.wrongRole _ _) fun _ => h.pure _
  · exact h.pure _

theorem function (name : Terminal) : P (Check.function name) := by
  refine h.bind (h.resolve name) fun meaning => ?_
  split
  · exact h.pure _
  · exact h.bind (h.wrongRole _ _) fun _ => h.pure _
  · exact h.pure _

theorem prependField (name : Terminal) (of : Ty) (rest : Fields) :
    P (Check.prependField name of rest) := by
  rw [Check.prependField]
  split
  · exact h.bind (h.report _ _) fun _ => h.pure _
  · exact h.pure _

theorem named (id : NodeId) (ty : Ty) (assignable : Bool) :
    P (Check.named id ty assignable) := by
  refine h.bind (h.typed id ty) fun ty => ?_
  cases assignable with
  | true => exact h.bind (h.assignable id) fun _ => h.pure _
  | false => exact h.pure _

theorem requireVariable (ty : Ty) (assignable : Bool) (span : Span) (fault : ContextFault) :
    P (Check.requireVariable ty assignable span fault) := by
  rw [Check.requireVariable]
  split
  · exact h.pure _
  · exact h.report _ _

theorem modeMismatch (span : Span) (formal : Formal) (found : Mode) :
    P (Check.modeMismatch span formal found) :=
  h.report _ _

end Check.Closed

/-! ## Types and parameters -/

mutual

theorem TypeDenoter.closed_check : (of : TypeDenoter) → P of.check
  | .any _ | .bool _ | .char _ | .error _ | .int _ =>
    h.typed _ _
  | .array _ size element => by
    refine h.bind element.closed_check fun _ => ?_
    split
    · split
      · exact h.typed _ _
      · exact h.bind (h.report _ _) fun _ => h.typed _ _
    · exact h.typed _ _
  | .record _ fields =>
    h.bind fields.closed_check fun _ => h.typed _ _
  | .simple _ name => by
    refine h.bind (h.resolve _) fun _ => ?_
    split
    · exact h.typed _ _
    · exact h.bind (h.wrongRole _ _) fun _ => h.typed _ _
    · exact h.typed _ _

theorem FieldDenoters.closed_check : (fields : FieldDenoters) → P fields.check
  | .single _ _ of => by
    rw [FieldDenoters.check]
    exact h.bind of.closed_check fun _ => h.prependField _ _ _
  | .multiple _ _ of rest => by
    rw [FieldDenoters.check]
    exact h.bind of.closed_check fun _ =>
      h.bind rest.closed_check fun _ => h.prependField _ _ _

end

mutual

theorem Parameter.closed_check : (parameter : Parameter) → P parameter.check
  | .const _ _ of | .var _ _ of =>
    h.bind (of.closed_check h) fun _ => h.bind (h.typed _ _) fun _ =>
      h.bind (h.declare _ _ _) fun _ => h.pure _
  | .func _ _ parameters result =>
    h.bind h.openScope fun _ => h.bind parameters.closed_check
      fun _ => h.bind h.closeScope fun _ => h.bind (result.closed_check h)
      fun _ => h.bind (h.typed _ _) fun _ => h.bind (h.declare _ _ _) fun _ => h.pure _
  | .proc _ _ parameters =>
    h.bind h.openScope fun _ => h.bind parameters.closed_check
      fun _ => h.bind h.closeScope fun _ => h.bind (h.declare _ _ _) fun _ => h.pure _

theorem Parameters.closed_check : (parameters : Parameters) → P parameters.check
  | .empty _ => h.pure _
  | .single _ parameter => by
    rw [Parameters.check]
    exact h.bind parameter.closed_check fun _ => h.pure _
  | .multiple _ first rest => by
    rw [Parameters.check]
    exact h.bind first.closed_check fun _ =>
      h.bind rest.closed_check fun _ => h.pure _

end

/-- Parameters and body are checked between the opening of a scope and its closing. -/
theorem Check.Closed.routine (name : Terminal) (declaration : NodeId) (parameters : Parameters)
    (meaning : Formals → Meaning) {body : Check Unit} (hbody : P body) :
    P (Check.routine name declaration parameters meaning body) := by
  have hroutine : Check.routine name declaration parameters meaning body = (do
      Check.openScope
      let formals ← parameters.check
      (do let scope ← Check.closeScope
          Check.declare name declaration (meaning formals)
          Check.restoreScope scope)
      body
      let _ ← Check.closeScope) := by
    simp only [Check.routine, bind_assoc]
  rw [hroutine]
  exact h.bind h.openScope fun _ =>
    h.bind (parameters.closed_check h) fun _ =>
    h.bind (h.outside (h.declare _ _ _)) fun _ => h.bind hbody fun _ =>
    h.bind h.closeScope fun _ => h.pure _

/-! ## Commands, expressions and declarations -/

mutual

theorem Command.closed_check : (command : Command) → P command.check
  | .assign _ target value =>
    h.bind target.closed_check fun ⟨_, _⟩ =>
      h.bind (h.requireVariable _ _ _ _) fun _ =>
      h.bind value.closed_check fun _ => h.require _ _ _
  | .doubleAssign _ first second firstValue secondValue =>
    h.bind first.closed_check fun ⟨_, _⟩ =>
      h.bind (h.requireVariable _ _ _ _) fun _ =>
      h.bind firstValue.closed_check fun _ =>
      h.bind (h.require _ _ _) fun _ =>
      h.bind second.closed_check fun ⟨_, _⟩ =>
      h.bind (h.requireVariable _ _ _ _) fun _ =>
      h.bind secondValue.closed_check fun _ => h.require _ _ _
  | .call _ name arguments => by
    refine h.bind (h.procedure _) fun found => ?_
    split
    · exact arguments.closed_check _
    · exact h.pure _
  | .empty _ => h.pure _
  | .ifElse _ condition first second =>
    h.bind condition.closed_check fun _ =>
      h.bind (h.require _ _ _) fun _ => h.bind first.closed_check fun _ =>
      second.closed_check
  | .letIn _ declaration body =>
    h.bind h.openScope fun _ =>
      h.bind declaration.closed_check fun _ =>
      h.bind body.closed_check fun _ => h.bind h.closeScope fun _ => h.pure _
  | .sequential _ first second =>
    h.bind first.closed_check fun _ => second.closed_check
  | .whileDo _ condition body =>
    h.bind condition.closed_check fun _ =>
      h.bind (h.require _ _ _) fun _ => body.closed_check
  | .loopWhile _ prelude condition body =>
    h.bind prelude.closed_check fun _ =>
      h.bind condition.closed_check fun _ =>
      h.bind (h.require _ _ _) fun _ => body.closed_check

theorem Expression.closed_check : (expression : Expression) → P expression.check
  | .array _ elements =>
    h.bind elements.closed_check fun ⟨_, _⟩ => h.typed _ _
  | .binary _ left operator right => by
    refine h.bind left.closed_check fun _ =>
      h.bind right.closed_check fun _ =>
      h.bind (h.resolve _) fun _ => ?_
    split
    · split
      · split
        · exact h.typed _ _
        · exact h.bind (h.report _ _) fun _ => h.typed _ _
      · exact h.bind (h.require _ _ _) fun _ => h.bind (h.require _ _ _) fun _ => h.typed _ _
    · exact h.bind (h.wrongRole _ _) fun _ => h.typed _ _
    · exact h.typed _ _
  | .call _ name arguments => by
    refine h.bind (h.function _) fun found => ?_
    split
    · exact h.bind (arguments.closed_check _) fun _ => h.typed _ _
    · exact h.typed _ _
  | .character _ _ | .empty _ | .integer _ _ =>
    h.typed _ _
  | .ifElse _ condition first second => by
    refine h.bind condition.closed_check fun _ =>
      h.bind (h.require _ _ _) fun _ => h.bind first.closed_check fun _ =>
      h.bind second.closed_check fun _ => ?_
    split
    · exact h.typed _ _
    · exact h.bind (h.report _ _) fun _ => h.typed _ _
  | .letIn _ declaration body =>
    h.bind h.openScope fun _ =>
      h.bind declaration.closed_check fun _ =>
      h.bind body.closed_check fun _ => h.bind h.closeScope fun _ =>
      h.typed _ _
  | .record _ fields =>
    h.bind fields.closed_check fun _ => h.typed _ _
  | .unary _ operator operand => by
    refine h.bind operand.closed_check fun _ =>
      h.bind (h.resolve _) fun _ => ?_
    split
    · exact h.bind (h.require _ _ _) fun _ => h.typed _ _
    · exact h.bind (h.wrongRole _ _) fun _ => h.typed _ _
    · exact h.typed _ _
  | .vname _ vname =>
    h.bind vname.closed_check fun ⟨_, _⟩ => h.typed _ _

theorem Declaration.closed_check : (declaration : Declaration) → P declaration.check
  | .binaryOperator _ operator left right result =>
    h.bind (left.closed_check h) fun _ =>
      h.bind (right.closed_check h) fun _ =>
      h.bind (result.closed_check h) fun _ => h.declare _ _ _
  | .const _ _ value =>
    h.bind value.closed_check fun _ => h.bind (h.typed _ _) fun _ =>
      h.declare _ _ _
  | .func _ name parameters result body => by
    refine h.bind (result.closed_check h) fun _ =>
      h.bind (h.typed _ _) fun _ => h.routine _ _ _ _ ?_
    exact h.bind body.closed_check fun _ => h.require _ _ _
  | .proc _ name parameters body =>
    h.routine _ _ _ _ body.closed_check
  | .sequential _ first second =>
    h.bind first.closed_check fun _ =>
      second.closed_check
  | .type _ _ of | .var _ _ of =>
    h.bind (of.closed_check h) fun _ => h.bind (h.typed _ _) fun _ =>
      h.declare _ _ _
  | .unaryOperator _ operator operand result =>
    h.bind (operand.closed_check h) fun _ =>
      h.bind (result.closed_check h) fun _ => h.declare _ _ _

theorem Vname.closed_check : (vname : Vname) → P vname.check
  | .dot _ record field => by
    refine h.bind record.closed_check fun ⟨_, _⟩ => ?_
    simp only
    split
    · exact h.named _ _ _
    · refine h.bind (h.lift _) fun _ => ?_
      split
      · exact h.named _ _ _
      · exact h.bind (h.report _ _) fun _ => h.named _ _ _
    · exact h.bind (h.report _ _) fun _ => h.named _ _ _
  | .simple _ name => by
    refine h.bind (h.resolve _) fun _ => ?_
    split
    · exact h.named _ _ _
    · exact h.named _ _ _
    · exact h.bind (h.wrongRole _ _) fun _ => h.named _ _ _
    · exact h.named _ _ _
  | .subscript _ array index => by
    refine h.bind array.closed_check fun ⟨_, _⟩ =>
      h.bind index.closed_check fun _ => h.bind (h.require _ _ _) fun _ => ?_
    split
    · exact h.named _ _ _
    · exact h.named _ _ _
    · exact h.bind (h.report _ _) fun _ => h.named _ _ _

theorem Argument.closed_check :
    (argument : Argument) → (formal : Formal) → P (argument.check formal)
  | .const _ value, formal => by
    refine h.bind value.closed_check fun _ => ?_
    split
    · exact h.require _ _ _
    · exact h.modeMismatch _ _ _
  | .func _ name, formal => by
    refine h.bind (h.function _) fun found => ?_
    split
    · split
      · split
        · exact h.pure _
        · exact h.report _ _
      · exact h.modeMismatch _ _ _
    · exact h.pure _
  | .proc _ name, formal => by
    refine h.bind (h.procedure _) fun found => ?_
    split
    · split
      · split
        · exact h.pure _
        · exact h.report _ _
      · exact h.modeMismatch _ _ _
    · exact h.pure _
  | .var _ vname, formal => by
    refine h.bind vname.closed_check fun ⟨_, _⟩ =>
      h.bind (h.requireVariable _ _ _ _) fun _ => ?_
    split
    · exact h.require _ _ _
    · exact h.modeMismatch _ _ _

theorem Arguments.closed_check :
    (arguments : Arguments) → (formals : Formals) → P (arguments.check formals)
  | .empty _, .nil => h.pure _
  | .empty _, .cons _ _ => h.report _ _
  | .single _ _, .nil => h.report _ _
  | .single _ argument, .cons formal .nil => argument.closed_check formal
  | .single _ argument, .cons formal (.cons _ _) =>
    h.bind (argument.closed_check formal) fun _ => h.report _ _
  | .multiple _ _ _, .nil => h.report _ _
  | .multiple _ first rest, .cons formal others =>
    h.bind (first.closed_check formal) fun _ =>
      rest.closed_check others

theorem ArrayAggregate.closed_check : (elements : ArrayAggregate) → P elements.check
  | .single _ element => by
    rw [ArrayAggregate.check]
    exact h.bind element.closed_check fun _ => h.pure _
  | .multiple _ first rest => by
    rw [ArrayAggregate.check]
    exact h.bind first.closed_check fun _ =>
      h.bind rest.closed_check fun ⟨_, _⟩ =>
      h.bind (h.require _ _ _) fun _ => h.pure _

theorem RecordAggregate.closed_check : (fields : RecordAggregate) → P fields.check
  | .single _ _ value => by
    rw [RecordAggregate.check]
    exact h.bind value.closed_check fun _ => h.prependField _ _ _
  | .multiple _ _ value rest => by
    rw [RecordAggregate.check]
    exact h.bind value.closed_check fun _ =>
      h.bind rest.closed_check fun _ => h.prependField _ _ _

end

end

end Triangle
