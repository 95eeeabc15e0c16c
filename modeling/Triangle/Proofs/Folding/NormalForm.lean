import Triangle.Proofs.Folding.Constants
import Triangle.Proofs.Typing.Accepted

/-!
# Folded trees are in normal form

Folding goes through a tree once, from the innermost expressions outwards.  One pass is enough: of
the operations that are left, none can be folded by what is known afterwards.  It takes two things.
What becomes of an operation is decided when its operands are folded, and what is found out later
changes nothing about it; that is part of `Expression.Folds`.  And a literal that folding has
written is read as the constant that it was written for, so that nothing is missed further out.

So folding such a tree again leaves it as it is.  It may warn again about a division by zero.
-/

namespace Triangle

variable {A : Annotations} {constant : Constant} {e : Expression} {operator : Standard}

/-! ## Normal forms -/

mutual

/-- No operation in a command can be folded. -/
def Command.Normal (A : Annotations) : Command → Prop
  | .assign _ target value => target.Normal A ∧ value.Normal A
  | .doubleAssign _ first second firstValue secondValue =>
    first.Normal A ∧ second.Normal A ∧ firstValue.Normal A ∧ secondValue.Normal A
  | .call _ _ arguments => arguments.Normal A
  | .empty _ => True
  | .ifElse _ condition first second => condition.Normal A ∧ first.Normal A ∧ second.Normal A
  | .letIn _ declaration body => declaration.Normal A ∧ body.Normal A
  | .sequential _ first second => first.Normal A ∧ second.Normal A
  | .whileDo _ condition body => condition.Normal A ∧ body.Normal A
  | .loopWhile _ prelude condition body => prelude.Normal A ∧ condition.Normal A ∧ body.Normal A

/-- Neither an expression nor an operation in it can be folded. -/
def Expression.Normal (A : Annotations) : Expression → Prop
  | .array _ elements => elements.Normal A
  | .binary _ left operator right =>
    left.Normal A ∧ right.Normal A ∧ ∀ constant, A.foldBinary operator left right ≠ .value constant
  | .call _ _ arguments => arguments.Normal A
  | .character _ _ | .empty _ | .integer _ _ => True
  | .ifElse _ condition first second => condition.Normal A ∧ first.Normal A ∧ second.Normal A
  | .letIn _ declaration body => declaration.Normal A ∧ body.Normal A
  | .record _ fields => fields.Normal A
  | .unary _ operator operand =>
    operand.Normal A ∧ ∀ constant, A.foldUnary operator operand ≠ .value constant
  | .vname _ vname => vname.Normal A

/-- No operation in a declaration can be folded. -/
def Declaration.Normal (A : Annotations) : Declaration → Prop
  | .binaryOperator _ _ _ _ _ | .type _ _ _ | .unaryOperator _ _ _ _ | .var _ _ _ => True
  | .const _ _ value => value.Normal A
  | .func _ _ _ _ body => body.Normal A
  | .proc _ _ _ body => body.Normal A
  | .sequential _ first second => first.Normal A ∧ second.Normal A

/-- No operation in a V-name can be folded. -/
def Vname.Normal (A : Annotations) : Vname → Prop
  | .dot _ record _ => record.Normal A
  | .simple _ _ => True
  | .subscript _ array index => array.Normal A ∧ index.Normal A

/-- No operation in an actual parameter can be folded. -/
def Argument.Normal (A : Annotations) : Argument → Prop
  | .const _ value => value.Normal A
  | .func _ _ | .proc _ _ => True
  | .var _ vname => vname.Normal A

/-- No operation in actual parameters can be folded. -/
def Arguments.Normal (A : Annotations) : Arguments → Prop
  | .empty _ => True
  | .single _ argument => argument.Normal A
  | .multiple _ first rest => first.Normal A ∧ rest.Normal A

/-- No operation in the elements of an array can be folded. -/
def ArrayAggregate.Normal (A : Annotations) : ArrayAggregate → Prop
  | .single _ element => element.Normal A
  | .multiple _ first rest => first.Normal A ∧ rest.Normal A

/-- No operation in the fields of a record can be folded. -/
def RecordAggregate.Normal (A : Annotations) : RecordAggregate → Prop
  | .single _ _ value => value.Normal A
  | .multiple _ _ value rest => value.Normal A ∧ rest.Normal A

end

/-! ## Folding leaves normal forms -/

theorem Constant.Literal.normal (h : constant.Literal A e) : e.Normal A := by
  cases constant with
  | int value =>
    obtain ⟨_, _, rfl, -⟩ := h
    trivial
  | bool value =>
    obtain ⟨_, _, _, rfl, -⟩ := h
    trivial

section

variable {A A' : Annotations}

mutual

theorem Command.Folds.normal : {c : Command} → ∀ ⦃c'⦄, c.Folds A A' c' → c'.Normal A'
  | .assign _ _ _ | .letIn _ _ _ | .sequential _ _ _ | .whileDo _ _ _ => by
    rintro _ ⟨_, _, h₁, h₂, rfl⟩
    exact ⟨h₁.normal, h₂.normal⟩
  | .doubleAssign _ _ _ _ _ => by
    rintro _ ⟨_, _, _, _, h₁, h₂, h₃, h₄, rfl⟩
    exact ⟨h₁.normal, h₂.normal, h₃.normal, h₄.normal⟩
  | .call _ _ _ => by
    rintro _ ⟨_, _, h, rfl⟩
    exact h.normal
  | .empty _ => by
    rintro _ rfl
    trivial
  | .ifElse _ _ _ _ | .loopWhile _ _ _ _ => by
    rintro _ ⟨_, _, _, h₁, h₂, h₃, rfl⟩
    exact ⟨h₁.normal, h₂.normal, h₃.normal⟩

theorem Expression.Folds.normal : {e : Expression} → ∀ ⦃e'⦄, e.Folds A A' e' → e'.Normal A'
  | .array _ _ | .record _ _ | .vname _ _ => by
    rintro _ ⟨_, _, h, rfl⟩
    exact h.normal
  | .binary _ _ _ _ => by
    rintro _ ⟨_, _, _, _, h₁, h₂, ⟨rfl, h⟩ | ⟨_, _, h⟩⟩
    · exact ⟨h₁.normal, h₂.normal, h⟩
    · exact h.normal
  | .call _ _ _ => by
    rintro _ ⟨_, _, _, h, rfl⟩
    exact h.normal
  | .character _ _ | .integer _ _ => by
    rintro _ ⟨_, rfl⟩
    trivial
  | .empty _ => by
    rintro _ rfl
    trivial
  | .ifElse _ _ _ _ => by
    rintro _ ⟨_, _, _, _, h₁, h₂, h₃, rfl⟩
    exact ⟨h₁.normal, h₂.normal, h₃.normal⟩
  | .letIn _ _ _ => by
    rintro _ ⟨_, _, _, h₁, h₂, rfl⟩
    exact ⟨h₁.normal, h₂.normal⟩
  | .unary _ _ _ => by
    rintro _ ⟨_, _, _, h₁, ⟨rfl, h⟩ | ⟨_, _, h⟩⟩
    · exact ⟨h₁.normal, h⟩
    · exact h.normal

theorem Declaration.Folds.normal : {d : Declaration} → ∀ ⦃d'⦄, d.Folds A A' d' → d'.Normal A'
  | .binaryOperator _ _ _ _ _ | .unaryOperator _ _ _ _ => by
    rintro _ rfl
    trivial
  | .type _ _ _ | .var _ _ _ => by
    rintro _ ⟨_, _, rfl⟩
    trivial
  | .const _ _ _ | .proc _ _ _ _ => by
    rintro _ ⟨_, _, h, rfl⟩
    exact h.normal
  | .func _ _ _ _ _ => by
    rintro _ ⟨_, _, _, _, h, rfl⟩
    exact h.normal
  | .sequential _ _ _ => by
    rintro _ ⟨_, _, h₁, h₂, rfl⟩
    exact ⟨h₁.normal, h₂.normal⟩

theorem Vname.Folds.normal : {v : Vname} → ∀ ⦃v'⦄, v.Folds A A' v' → v'.Normal A'
  | .dot _ _ _ => by
    rintro _ ⟨_, _, h, rfl⟩
    exact h.normal
  | .simple _ _ => by
    rintro _ ⟨_, _, rfl⟩
    trivial
  | .subscript _ _ _ => by
    rintro _ ⟨_, _, _, h₁, h₂, rfl⟩
    exact ⟨h₁.normal, h₂.normal⟩

theorem Argument.Folds.normal : {a : Argument} → ∀ ⦃a'⦄, a.Folds A A' a' → a'.Normal A'
  | .const _ _ | .var _ _ => by
    rintro _ ⟨_, h, rfl⟩
    exact h.normal
  | .func _ _ | .proc _ _ => by
    rintro _ ⟨_, rfl⟩
    trivial

theorem Arguments.Folds.normal : {a : Arguments} → ∀ ⦃a'⦄, a.Folds A A' a' → a'.Normal A'
  | .empty _ => by
    rintro _ rfl
    trivial
  | .single _ _ => by
    rintro _ ⟨_, h, rfl⟩
    exact h.normal
  | .multiple _ _ _ => by
    rintro _ ⟨_, _, h₁, h₂, rfl⟩
    exact ⟨h₁.normal, h₂.normal⟩

theorem ArrayAggregate.Folds.normal :
    {a : ArrayAggregate} → ∀ ⦃a'⦄, a.Folds A A' a' → a'.Normal A'
  | .single _ _ => by
    rintro _ ⟨_, h, rfl⟩
    exact h.normal
  | .multiple _ _ _ => by
    rintro _ ⟨_, _, h₁, h₂, rfl⟩
    exact ⟨h₁.normal, h₂.normal⟩

theorem RecordAggregate.Folds.normal :
    {r : RecordAggregate} → ∀ ⦃r'⦄, r.Folds A A' r' → r'.Normal A'
  | .single _ _ _ => by
    rintro _ ⟨_, h, rfl⟩
    exact h.normal
  | .multiple _ _ _ _ => by
    rintro _ ⟨_, _, h₁, h₂, rfl⟩
    exact ⟨h₁.normal, h₂.normal⟩

end

end

/-! ## Normal forms are left alone -/

section

variable {α β : Type} {A : Annotations}

/-- With these annotations, a step of folding has a result and does nothing but warn. -/
def Fold.Idle (A : Annotations) (x : Fold α) (a : α) : Prop :=
  ∀ s : FoldState, s.annotations = A → ∃ log, x.run s = (a, { s with log })

namespace Fold.Idle

theorem pure (a : α) : Idle A (pure a) a := fun s _ => ⟨s.log, rfl⟩

theorem bind {x : Fold α} {f : α → Fold β} {a : α} {b : β} (hx : Idle A x a) (hf : Idle A (f a) b) :
    Idle A (x >>= f) b := by
  intro s hs
  obtain ⟨log, hlog⟩ := hx s hs
  obtain ⟨log', hlog'⟩ := hf { s with log } hs
  refine ⟨log', ?_⟩
  rw [StateT.run_bind, hlog]
  exact hlog'

/-- An operation that cannot be folded. -/
theorem replace {e : Expression} {operator : Terminal} (outcome : Annotations → Constant.Outcome)
    (h : ∀ constant, outcome A ≠ .value constant) :
    Idle A (do replace e operator (outcome (← get).annotations)) e := by
  rintro s rfl
  change ∃ log, (Fold.replace e operator (outcome s.annotations)).run s = (e, { s with log })
  cases houtcome : outcome s.annotations with
  | value constant => exact absurd houtcome (h constant)
  | byZero operation => exact ⟨s.log.warn operator.mark.span (.zeroDivision operation), rfl⟩
  | unknown => exact ⟨s.log, rfl⟩

end Fold.Idle

open Fold

mutual

theorem Command.idle_fold : (c : Command) → c.Normal A → Idle A c.fold c
  | .assign _ target value, ⟨h₁, h₂⟩ =>
    (target.idle_fold h₁).bind ((value.idle_fold h₂).bind (.pure _))
  | .doubleAssign _ first second firstValue secondValue, ⟨h₁, h₂, h₃, h₄⟩ =>
    (first.idle_fold h₁).bind ((second.idle_fold h₂).bind
      ((firstValue.idle_fold h₃).bind ((secondValue.idle_fold h₄).bind (.pure _))))
  | .call _ _ arguments, h => (arguments.idle_fold h).bind (.pure _)
  | .empty _, _ => .pure _
  | .ifElse _ condition first second, ⟨h₁, h₂, h₃⟩ =>
    (condition.idle_fold h₁).bind ((first.idle_fold h₂).bind ((second.idle_fold h₃).bind (.pure _)))
  | .letIn _ declaration body, ⟨h₁, h₂⟩ =>
    (declaration.idle_fold h₁).bind ((body.idle_fold h₂).bind (.pure _))
  | .sequential _ first second, ⟨h₁, h₂⟩ =>
    (first.idle_fold h₁).bind ((second.idle_fold h₂).bind (.pure _))
  | .whileDo _ condition body, ⟨h₁, h₂⟩ =>
    (condition.idle_fold h₁).bind ((body.idle_fold h₂).bind (.pure _))
  | .loopWhile _ prelude condition body, ⟨h₁, h₂, h₃⟩ =>
    (prelude.idle_fold h₁).bind ((condition.idle_fold h₂).bind ((body.idle_fold h₃).bind (.pure _)))

theorem Expression.idle_fold : (e : Expression) → e.Normal A → Idle A e.fold e
  | .array _ elements, h => (elements.idle_fold h).bind (.pure _)
  | .binary _ left operator right, ⟨h₁, h₂, h⟩ =>
    (left.idle_fold h₁).bind ((right.idle_fold h₂).bind
      (Idle.replace (fun A => A.foldBinary operator left right) h))
  | .call _ _ arguments, h => (arguments.idle_fold h).bind (.pure _)
  | .character _ _, _ | .empty _, _ | .integer _ _, _ => .pure _
  | .ifElse _ condition first second, ⟨h₁, h₂, h₃⟩ =>
    (condition.idle_fold h₁).bind ((first.idle_fold h₂).bind ((second.idle_fold h₃).bind (.pure _)))
  | .letIn _ declaration body, ⟨h₁, h₂⟩ =>
    (declaration.idle_fold h₁).bind ((body.idle_fold h₂).bind (.pure _))
  | .record _ fields, h => (fields.idle_fold h).bind (.pure _)
  | .unary _ operator operand, ⟨h₁, h⟩ =>
    (operand.idle_fold h₁).bind (Idle.replace (fun A => A.foldUnary operator operand) h)
  | .vname _ vname, h => (vname.idle_fold h).bind (.pure _)

theorem Declaration.idle_fold : (d : Declaration) → d.Normal A → Idle A d.fold d
  | .binaryOperator _ _ _ _ _, _ | .type _ _ _, _ | .unaryOperator _ _ _ _, _ | .var _ _ _, _ =>
    .pure _
  | .const _ _ value, h => (value.idle_fold h).bind (.pure _)
  | .func _ _ _ _ body, h => (body.idle_fold h).bind (.pure _)
  | .proc _ _ _ body, h => (body.idle_fold h).bind (.pure _)
  | .sequential _ first second, ⟨h₁, h₂⟩ =>
    (first.idle_fold h₁).bind ((second.idle_fold h₂).bind (.pure _))

theorem Vname.idle_fold : (v : Vname) → v.Normal A → Idle A v.fold v
  | .dot _ record _, h => (record.idle_fold h).bind (.pure _)
  | .simple _ _, _ => .pure _
  | .subscript _ array index, ⟨h₁, h₂⟩ =>
    (array.idle_fold h₁).bind ((index.idle_fold h₂).bind (.pure _))

theorem Argument.idle_fold : (a : Argument) → a.Normal A → Idle A a.fold a
  | .const _ value, h => (value.idle_fold h).bind (.pure _)
  | .func _ _, _ | .proc _ _, _ => .pure _
  | .var _ vname, h => (vname.idle_fold h).bind (.pure _)

theorem Arguments.idle_fold : (a : Arguments) → a.Normal A → Idle A a.fold a
  | .empty _, _ => .pure _
  | .single _ argument, h => (argument.idle_fold h).bind (.pure _)
  | .multiple _ first rest, ⟨h₁, h₂⟩ =>
    (first.idle_fold h₁).bind ((rest.idle_fold h₂).bind (.pure _))

theorem ArrayAggregate.idle_fold : (a : ArrayAggregate) → a.Normal A → Idle A a.fold a
  | .single _ element, h => (element.idle_fold h).bind (.pure _)
  | .multiple _ first rest, ⟨h₁, h₂⟩ =>
    (first.idle_fold h₁).bind ((rest.idle_fold h₂).bind (.pure _))

theorem RecordAggregate.idle_fold : (r : RecordAggregate) → r.Normal A → Idle A r.fold r
  | .single _ _ value, h => (value.idle_fold h).bind (.pure _)
  | .multiple _ _ value rest, ⟨h₁, h₂⟩ =>
    (value.idle_fold h₁).bind ((rest.idle_fold h₂).bind (.pure _))

end

end

/-! ## Literals are read back -/

namespace Constant

variable {left right constant : Constant}

/-- An operation is carried out only if its result can be written as a literal. -/
theorem inRange_of_operate (h : operate operator left right = .value constant) :
    constant.InRange := by
  unfold operate at h
  split at h
  case h_9 | h_10 | h_11 =>
    obtain ⟨hrange, rfl⟩ := inRange_eq_value_iff.1 h
    exact hrange
  case h_12 =>
    split at h
    · cases h
    · obtain ⟨hrange, rfl⟩ := inRange_eq_value_iff.1 h
      exact hrange
  case h_13 =>
    split at h
    · cases h
    · split at h
      · obtain ⟨hrange, rfl⟩ := inRange_eq_value_iff.1 h
        exact hrange
      · cases h
  case h_14 => cases h
  all_goals
    cases h
    trivial

theorem inRange_of_binary {left right : Option Constant}
    (h : binary operator left right = .value constant) : constant.InRange := by
  unfold binary at h
  split at h
  · cases h
    trivial
  · split at h
    · exact inRange_of_operate h
    · cases h

theorem inRange_of_unary {operand : Option Constant}
    (h : unary operator operand = .value constant) : constant.InRange := by
  unfold unary at h
  split at h
  · cases h
    trivial
  · cases h

/-- What is written for a constant is read as this constant. -/
def ReadBack (A : Annotations) : Constant → Expression → Prop
  | int value, e =>
    ∃ m literal, e = .integer m literal ∧ Literal.integerValue? literal.spelling = some value
  | bool value, e => e.constant? A = some (.bool value)

theorem Literal.readBack (h : constant.Literal A e) (hrange : constant.InRange) :
    constant.ReadBack A e := by
  cases constant with
  | int value =>
    obtain ⟨m, terminal, rfl, -⟩ := h
    exact ⟨m, ⟨terminal, toString value⟩, rfl, Literal.integerValue?_toString hrange⟩
  | bool value =>
    obtain ⟨_, _, name, rfl, -, -, hname⟩ := h
    simp only [ReadBack, Expression.constant?, Annotations.standardOf?, hname]
    cases value <;> rfl

end Constant

/-- A constant is what becomes of an operation. -/
def Annotations.Computes (A : Annotations) (constant : Constant) : Prop :=
  (∃ operator left right, A.foldBinary operator left right = .value constant) ∨
    ∃ operator operand, A.foldUnary operator operand = .value constant

theorem Annotations.Computes.inRange (h : A.Computes constant) : constant.InRange := by
  obtain ⟨operator, left, right, h⟩ | ⟨operator, operand, h⟩ := h
  · unfold Annotations.foldBinary at h
    split at h
    · exact Constant.inRange_of_binary h
    · cases h
  · unfold Annotations.foldUnary at h
    split at h
    · exact Constant.inRange_of_unary h
    · cases h

/-- **One pass of folding is enough**, whatever is said to be known about the tree.  No operation
that is left can be folded by what is known afterwards; so folding again does nothing but warn.  And
what is written for an operation is read as the value that was computed. -/
theorem Program.fold_normal (program : Program) (A : Annotations) (log : Log Problem)
    (hids : ∀ id ∈ program.command.ids, id < program.issued) :
    (program.fold A log).program.command.Normal (program.fold A log).annotations ∧
    (∀ log', ∃ log'', (program.fold A log).program.fold (program.fold A log).annotations log' =
      ⟨(program.fold A log).program, (program.fold A log).annotations, log'', {}⟩) ∧
    program.command.Folds A (program.fold A log).annotations (program.fold A log).program.command ∧
    ∀ constant, (program.fold A log).annotations.Computes constant →
      ∀ e, constant.Literal (program.fold A log).annotations e →
        constant.ReadBack (program.fold A log).annotations e := by
  have hfolds := program.fold_folds A log hids
  refine ⟨hfolds.normal, fun log' => ?_, hfolds, fun constant hcomputes e he =>
    he.readBack hcomputes.inRange⟩
  obtain ⟨log'', hidle⟩ := Command.idle_fold _ hfolds.normal
    ⟨(program.fold A log).program.issued, _, log', {}⟩ rfl
  refine ⟨log'', ?_⟩
  rw [Program.fold, hidle]

/-- Folding the program that passes one procedure to another, when nothing is known about it. -/
theorem relay_fold_normal :
    (∀ id ∈ (parse .relay false).program.command.ids, id < (parse .relay false).program.issued) ∧
      ∀ log, ((parse .relay false).program.fold .empty log).program.command.Normal
        ((parse .relay false).program.fold .empty log).annotations := by
  have hperm := parse_ids .relay false
  generalize (parse .relay false).program = program at hperm
  have hids : ∀ id ∈ program.command.ids, id < program.issued := fun id hid =>
    List.mem_range.1 (hperm.mem_iff.1 (List.mem_append_left _ hid))
  exact ⟨hids, fun log => (program.fold_normal .empty log hids).1⟩

end Triangle
