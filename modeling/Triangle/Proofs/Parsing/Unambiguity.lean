import Triangle.Proofs.Parsing.Derivations

/-!
# The grammar is unambiguous

Two admissible derivations of the same symbols are equal.  For a phrase this is to be said with what
follows it: if the symbols of one derivation and then others are the symbols of a second derivation
and then others, then the derivations are equal, and so is what follows.  What follows must not be
able to go on with the phrase; `endsPrimary`, `endsExpression` and `endsCommand` tell the kinds of
symbols that are not, and `Ends` says of a derivation what is demanded of the symbols behind it.

The proof is by induction on the first derivation.  The next symbol decides for the rule that the
second one uses.
-/

namespace Triangle.Grammar

open Triangle.Symbol (sign word name)

attribute [local simp] sign word name

/-! ## What can follow a phrase -/

/-- Whether a primary expression or a V-name has ended where a symbol of this kind is next. -/
def endsPrimary : Kind → Bool
  | .dot | .openSquare | .openParen => false
  | _ => true

/-- Whether an expression has ended where a symbol of this kind is next. -/
def endsExpression (kind : Kind) : Bool :=
  endsPrimary kind && kind != .operator

/-- Whether a symbol of this kind can follow a single command. -/
def endsCommand : Kind → Bool
  | .semicolon | .closeCurly | .endOfText => true
  | .keyword .end_ | .keyword .else_ | .keyword .in_ | .keyword .while_ => true
  | _ => false

variable {k : Kind} {spelling : String}

theorem endsPrimary_of_endsExpression (h : endsExpression k = true) :
    endsPrimary k = true := (Bool.and_eq_true_iff.1 h).1

theorem ne_operator_of_endsExpression (h : endsExpression k = true) : k ≠ .operator := by
  rintro rfl
  exact absurd h (by decide)

theorem endsExpression_of_endsCommand (h : endsCommand k = true) : endsExpression k = true := by
  rw [endsCommand.eq_def] at h
  split at h <;> first | rfl | simp at h

/-- Whether a sequence of expressions has ended where a symbol of this kind is next. -/
def endsSequence (kind : Kind) : Prop := endsExpression kind = true ∧ kind ≠ .comma

/-- Whether a sequence of commands has ended where a symbol of this kind is next. -/
def endsCommands (kind : Kind) : Prop := endsCommand kind = true ∧ kind ≠ .semicolon

/-- Nothing is demanded of what follows a type or a parameter. -/
def Always {α : Type} (_ : α) (_ : List Symbol) : Prop := True

/-- A sequence with commas has ended. -/
def EndsSequence {α : Type} (_ : α) (r : List Symbol) : Prop := nextKind r ≠ .comma

/-- A single command has ended. -/
def SingleCommand.Ends (D : SingleCommand) (r : List Symbol) : Prop :=
  endsCommand (nextKind r) = true ∧ D.Admissible (nextKind r)

/-- A command has ended. -/
def Command.Ends (D : Command) (r : List Symbol) : Prop :=
  endsCommands (nextKind r) ∧ D.Admissible (nextKind r)

/-- A single declaration has ended. -/
def SingleDeclaration.Ends (D : SingleDeclaration) (r : List Symbol) : Prop :=
  endsCommand (nextKind r) = true ∧ D.Admissible (nextKind r)

/-- A declaration has ended. -/
def Declaration.Ends (D : Declaration) (r : List Symbol) : Prop :=
  endsCommands (nextKind r) ∧ D.Admissible (nextKind r)

/-- An expression has ended. -/
def Expression.Ends (D : Expression) (r : List Symbol) : Prop :=
  endsExpression (nextKind r) = true ∧ D.Admissible

/-- The operations on an operand have ended. -/
def Operations.Ends (D : Operations) (r : List Symbol) : Prop :=
  endsExpression (nextKind r) = true ∧ D.Admissible

/-- A primary expression has ended. -/
def Primary.Ends (D : Primary) (r : List Symbol) : Prop :=
  endsPrimary (nextKind r) = true ∧ D.Admissible

/-- A V-name has ended. -/
def Vname.Ends (D : Vname) (r : List Symbol) : Prop :=
  endsPrimary (nextKind r) = true ∧ D.Admissible

/-- The selectors of a V-name have ended. -/
def Selectors.Ends (D : Selectors) (r : List Symbol) : Prop :=
  endsPrimary (nextKind r) = true ∧ D.Admissible

/-- The fields of a record have ended. -/
def RecordAggregate.Ends (D : RecordAggregate) (r : List Symbol) : Prop :=
  endsSequence (nextKind r) ∧ D.Admissible

/-- The elements of an array have ended. -/
def ArrayAggregate.Ends (D : ArrayAggregate) (r : List Symbol) : Prop :=
  endsSequence (nextKind r) ∧ D.Admissible

/-- An actual parameter has ended. -/
def Argument.Ends (D : Argument) (r : List Symbol) : Prop :=
  endsExpression (nextKind r) = true ∧ D.Admissible

/-- One or more actual parameters have ended. -/
def ProperArguments.Ends (D : ProperArguments) (r : List Symbol) : Prop :=
  endsSequence (nextKind r) ∧ D.Admissible

/-! ## What phrases start with -/

variable {r r' : List Symbol}

/-- An empty list of parameters can be told by one symbol. -/
theorem ProperParameters.nextKind_ne_closeParen (D : ProperParameters) (r : List Symbol) :
    nextKind (D.yield ++ r) ≠ .closeParen := by
  rcases D with ⟨_ | _ | _ | _⟩ | ⟨_ | _ | _ | _, rest⟩ <;>
    simp [ProperParameters.yield, Parameter.yield]

/-- What a primary expression can start with. -/
theorem Primary.nextKind_mem (D : Primary) (r : List Symbol) :
    nextKind (D.yield ++ r) ∈ [Kind.integer, .character, .identifier, .operator, .openParen,
      .openCurly, .openSquare] := by
  cases D with
  | vname vname => cases vname; simp [Primary.yield, Vname.yield]
  | _ => simp [Primary.yield]

theorem Expression.nextKind_mem (D : Expression) (r : List Symbol) :
    nextKind (D.yield ++ r) ∈ [Kind.integer, .character, .identifier, .operator, .openParen,
      .openCurly, .openSquare, .keyword .let_, .keyword .if_] := by
  cases D with
  | secondary first operations =>
    have h := Primary.nextKind_mem first (operations.yield ++ r)
    rw [Expression.yield, List.append_assoc]
    exact List.mem_append_left [_, _] h
  | _ => simp [Expression.yield]

theorem Arguments.nextKind_eq (D : Arguments) (r : List Symbol) :
    nextKind (D.yield ++ r) = .openParen := by
  cases D <;> rfl

/-- An opening parenthesis after a name makes a call of it. -/
theorem Selectors.nextKind_ne_openParen (D : Selectors)
    (hend : endsPrimary (nextKind r) = true) : nextKind (D.yield ++ r) ≠ .openParen := by
  cases D with
  | none => intro h; rw [Selectors.yield, List.nil_append] at h; simp [h, endsPrimary] at hend
  | _ => simp [Selectors.yield]

/-- A V-name is not taken for a call. -/
theorem Vname.ne_call (D : Vname) (hend : endsPrimary (nextKind r) = true) {id : String}
    {arguments : Arguments}
    (h : D.yield ++ r = .of .identifier id :: (arguments.yield ++ r')) : False := by
  obtain ⟨_, selectors⟩ := D
  have hkind := congrArg nextKind (List.cons.inj h).2
  rw [arguments.nextKind_eq] at hkind
  exact selectors.nextKind_ne_openParen hend hkind

theorem Primary.ne_keyword (D : Primary) {keyword : Keyword} {t : List Symbol}
    (h : D.yield ++ r = .of (.keyword keyword) spelling :: t) : False := by
  have hstart := D.nextKind_mem r
  simp [h] at hstart

theorem Expression.ne_keyword (D : Expression) {keyword : Keyword} {t : List Symbol}
    (hk : keyword ≠ .let_ ∧ keyword ≠ .if_)
    (h : D.yield ++ r = .of (.keyword keyword) spelling :: t) : False := by
  have hstart := D.nextKind_mem r
  simp [h, hk] at hstart

/-- An operator ends a primary expression, and so does what ends the whole. -/
theorem Operations.endsPrimary_nextKind (D : Operations)
    (hend : endsExpression (nextKind r) = true) : endsPrimary (nextKind (D.yield ++ r)) = true := by
  cases D with
  | none => exact endsPrimary_of_endsExpression hend
  | some operator operand rest => rfl

theorem Argument.nextKind_ne_closeParen (D : Argument) (r : List Symbol) :
    nextKind (D.yield ++ r) ≠ .closeParen := by
  cases D with
  | const value =>
    intro h
    have hstart := value.nextKind_mem r
    rw [Argument.yield] at h
    simp [h] at hstart
  | _ => simp [Argument.yield]

theorem ProperArguments.nextKind_ne_closeParen (D : ProperArguments) (r : List Symbol) :
    nextKind (D.yield ++ r) ≠ .closeParen := by
  cases D with
  | single argument => exact argument.nextKind_ne_closeParen r
  | multiple first rest =>
    rw [ProperArguments.yield, List.append_assoc]
    exact first.nextKind_ne_closeParen _

theorem Vname.nextKind_eq (D : Vname) (r : List Symbol) :
    nextKind (D.yield ++ r) = .identifier := by
  cases D
  rfl

/-- What a single command starts with; an empty one starts with nothing. -/
def SingleCommand.start? : SingleCommand → Option Kind
  | .empty => none
  | .assign _ _ | .doubleAssign _ _ _ _ | .call _ _ => some .identifier
  | .block _ => some (.keyword .begin)
  | .letIn _ _ => some (.keyword .let_)
  | .ifElse _ _ _ => some (.keyword .if_)
  | .whileDo _ _ | .whileBraces _ _ => some (.keyword .while_)
  | .loop _ _ _ => some (.keyword .loop)

theorem SingleCommand.nextKind_eq {D : SingleCommand} (h : D.start? = some k) (r : List Symbol) :
    nextKind (D.yield ++ r) = k := by
  cases D <;> cases h
  case assign | doubleAssign =>
    rw [SingleCommand.yield, List.append_assoc, Vname.nextKind_eq]
  all_goals rfl

/-- What starts a single command cannot follow an empty one. -/
theorem SingleCommand.start?_eq_none {D : SingleCommand}
    (h : SingleCommand.empty.Ends (D.yield ++ r)) :
    D.start? = none := by
  cases hstart : D.start? with
  | none => rfl
  | some k =>
    obtain ⟨hend, hadm⟩ := h
    rw [D.nextKind_eq hstart] at hend hadm
    cases D <;> cases hstart <;> first | exact absurd rfl hadm | cases hend

/-- Commands of the same symbols start alike, so few cases are left to compare. -/
theorem SingleCommand.start?_eq {D D' : SingleCommand} (h : D.yield ++ r = D'.yield ++ r')
    (hr : D.Ends r) (hr' : D'.Ends r') : D.start? = D'.start? := by
  cases hstart : D.start? with
  | none =>
    cases D <;> cases hstart
    obtain rfl : r = D'.yield ++ r' := h
    exact (SingleCommand.start?_eq_none hr).symm
  | some k =>
    cases hstart' : D'.start? with
    | none =>
      cases D' <;> cases hstart'
      obtain rfl : D.yield ++ r = r' := h
      rw [SingleCommand.start?_eq_none hr'] at hstart
      exact hstart.symm
    | some k' => rw [← D.nextKind_eq hstart r, h, D'.nextKind_eq hstart' r']

/-! ## Types and parameters -/

/-- A derivation can be told from its symbols and those that follow. -/
abbrev Unique {α : Type} (yield : α → List Symbol) (Ends : α → List Symbol → Prop) (D : α) :
    Prop :=
  ∀ ⦃D' r r'⦄, yield D ++ r = yield D' ++ r' → Ends D r → Ends D' r' → D = D' ∧ r = r'

theorem Symbol.of_eq_of {k' : Kind} {spelling' : String} :
    Symbol.of k spelling = .of k' spelling' ↔ k = k' ∧
      (k.isOpen = true → spelling = spelling') := by
  constructor
  · intro h
    obtain rfl : k = k' := congrArg Symbol.kind h
    refine ⟨rfl, fun hopen => ?_⟩
    simpa [Symbol.of, hopen] using congrArg Symbol.spelling h
  · rintro ⟨rfl, h⟩
    cases hopen : k.isOpen with
    | true => rw [h hopen]
    | false => rw [Symbol.of_closed _ hopen, Symbol.of_closed _ hopen]

attribute [local simp] Symbol.of_eq_of Kind.isOpen

mutual

theorem TypeDenoter.unique : (D : TypeDenoter) → Unique TypeDenoter.yield Always D
  | .simple id => fun D' r r' h _ _ => by
    cases D' <;> simp at h
    simpa using h
  | .array size element => fun D' r r' h _ _ => by
    cases D' <;> simp at h
    obtain ⟨rfl, h⟩ := h
    simpa using element.unique h trivial trivial
  | .record fields => fun D' r r' h _ _ => by
    cases D' <;> simp at h
    obtain ⟨rfl, h⟩ := fields.unique h (by simp [EndsSequence]) (by simp [EndsSequence])
    simpa using h

theorem FieldDenoters.unique : (D : FieldDenoters) → Unique FieldDenoters.yield EndsSequence D
  | .single id of => fun D' r r' h hr _ => by
    cases D' <;> simp at h
    · obtain ⟨rfl, h⟩ := h
      simpa using of.unique h trivial trivial
    · obtain ⟨-, rfl⟩ := of.unique h.2 trivial trivial
      exact absurd rfl hr
  | .multiple id of rest => fun D' r r' h hr hr' => by
    cases D' <;> simp at h
    · obtain ⟨-, rfl⟩ := of.unique h.2 trivial trivial
      exact absurd rfl hr'
    · obtain ⟨rfl, h⟩ := h
      obtain ⟨rfl, h⟩ := of.unique h trivial trivial
      simp at h
      simpa using rest.unique h hr hr'

end

mutual

theorem Parameter.unique : (D : Parameter) → Unique Parameter.yield Always D
  | .const id of | .var id of => fun D' r r' h _ _ => by
    cases D' <;> simp at h
    obtain ⟨rfl, h⟩ := h
    simpa using of.unique h trivial trivial
  | .proc id parameters => fun D' r r' h _ _ => by
    cases D' <;> simp at h
    obtain ⟨rfl, h⟩ := h
    simpa using parameters.unique h trivial trivial
  | .func id parameters result => fun D' r r' h _ _ => by
    cases D' <;> simp at h
    obtain ⟨rfl, h⟩ := h
    obtain ⟨rfl, h⟩ := parameters.unique h trivial trivial
    simp at h
    simpa using result.unique h trivial trivial

theorem Parameters.unique : (D : Parameters) → Unique Parameters.yield Always D
  | .none => fun D' r r' h _ _ => by
    cases D' <;> simp at h
    · exact ⟨rfl, h⟩
    · exact absurd (congrArg nextKind h).symm (ProperParameters.nextKind_ne_closeParen _ _)
  | .some proper => fun D' r r' h _ _ => by
    cases D' <;> simp at h
    · exact absurd (congrArg nextKind h) (ProperParameters.nextKind_ne_closeParen _ _)
    · obtain ⟨rfl, h⟩ := proper.unique h (by simp [EndsSequence]) (by simp [EndsSequence])
      simpa using h

theorem ProperParameters.unique : (D : ProperParameters) →
    Unique ProperParameters.yield EndsSequence D
  | .single parameter => fun D' r r' h hr _ => by
    cases D' <;> simp at h
    · simpa using parameter.unique h trivial trivial
    · obtain ⟨-, rfl⟩ := parameter.unique h trivial trivial
      exact absurd rfl hr
  | .multiple first rest => fun D' r r' h hr hr' => by
    cases D' <;> simp at h
    · obtain ⟨-, rfl⟩ := first.unique h trivial trivial
      exact absurd rfl hr'
    · obtain ⟨rfl, h⟩ := first.unique h trivial trivial
      simp at h
      simpa using rest.unique h hr hr'

end

/-! ## Commands, expressions and declarations

Two derivations are compared part by part from the left.  A part is the same in both by induction,
once it is known that what follows it ends it in both. -/

mutual

theorem Command.unique : (D : Command) → Unique Command.yield Command.Ends D
  | .single command => fun D' r r' h hr hr' => by
    cases D' <;> simp at h
    · simpa using command.unique h ⟨hr.1.1, hr.2⟩ ⟨hr'.1.1, hr'.2⟩
    · obtain ⟨-, rfl⟩ := command.unique h ⟨hr.1.1, hr.2⟩ ⟨rfl, hr'.2.1⟩
      exact absurd rfl hr.1.2
  | .sequential first rest => fun D' r r' h hr hr' => by
    cases D' <;> simp at h
    · obtain ⟨-, rfl⟩ := first.unique h ⟨rfl, hr.2.1⟩ ⟨hr'.1.1, hr'.2⟩
      exact absurd rfl hr'.1.2
    · obtain ⟨rfl, h⟩ := first.unique h ⟨rfl, hr.2.1⟩ ⟨rfl, hr'.2.1⟩
      simp at h
      simpa using rest.unique h ⟨hr.1, hr.2.2⟩ ⟨hr'.1, hr'.2.2⟩

theorem SingleCommand.unique : (D : SingleCommand) →
    Unique SingleCommand.yield SingleCommand.Ends D
  | .empty => fun D' r r' h hr hr' => by
    -- the first symbol leaves only the forms that start alike
    have hstart := SingleCommand.start?_eq h hr hr'
    cases D' <;> cases hstart
    exact ⟨rfl, h⟩
  | .assign target value => fun D' r r' h hr hr' => by
    have hstart := SingleCommand.start?_eq h hr hr'
    cases D' <;> cases hstart <;> simp at h
    · obtain ⟨rfl, h⟩ := target.unique h ⟨rfl, hr.2.1⟩ ⟨rfl, hr'.2.1⟩
      simp at h
      simpa using value.unique h ⟨endsExpression_of_endsCommand hr.1, hr.2.2⟩
        ⟨endsExpression_of_endsCommand hr'.1, hr'.2.2⟩
    · simpa using (target.unique h ⟨rfl, hr.2.1⟩ ⟨rfl, hr'.2.1⟩).2
    · exact (target.ne_call rfl h).elim
  | .doubleAssign first second firstValue secondValue => fun D' r r' h hr hr' => by
    have hstart := SingleCommand.start?_eq h hr hr'
    obtain ⟨hend, hfirst, hsecond, hfirst', hsecond'⟩ := hr
    cases D' <;> cases hstart <;> simp at h
    · simpa using (first.unique h ⟨rfl, hfirst⟩ ⟨rfl, hr'.2.1⟩).2
    · obtain ⟨hend', hadm⟩ := hr'
      obtain ⟨rfl, h⟩ := first.unique h ⟨rfl, hfirst⟩ ⟨rfl, hadm.1⟩
      simp at h
      obtain ⟨rfl, h⟩ := second.unique h ⟨rfl, hsecond⟩ ⟨rfl, hadm.2.1⟩
      simp at h
      obtain ⟨rfl, h⟩ := firstValue.unique h ⟨rfl, hfirst'⟩ ⟨rfl, hadm.2.2.1⟩
      simp at h
      simpa using secondValue.unique h ⟨endsExpression_of_endsCommand hend, hsecond'⟩
        ⟨endsExpression_of_endsCommand hend', hadm.2.2.2⟩
    · exact (first.ne_call rfl h).elim
  | .call id arguments => fun D' r r' h hr hr' => by
    have hstart := SingleCommand.start?_eq h hr hr'
    cases D' <;> cases hstart <;> simp at h
    · exact (Vname.ne_call _ rfl h.symm).elim
    · exact (Vname.ne_call _ rfl h.symm).elim
    · obtain ⟨rfl, h⟩ := h
      simpa using arguments.unique h hr.2 hr'.2
  | .block body => fun D' r r' h hr hr' => by
    have hstart := SingleCommand.start?_eq h hr hr'
    cases D' <;> cases hstart
    simp at h
    obtain ⟨rfl, h⟩ := body.unique h ⟨⟨rfl, by simp⟩, hr.2⟩ ⟨⟨rfl, by simp⟩, hr'.2⟩
    simpa using h
  | .letIn declaration body => fun D' r r' h hr hr' => by
    have hstart := SingleCommand.start?_eq h hr hr'
    cases D' <;> cases hstart
    simp at h
    obtain ⟨rfl, h⟩ := declaration.unique h ⟨⟨rfl, by simp⟩, hr.2.1⟩ ⟨⟨rfl, by simp⟩, hr'.2.1⟩
    simp at h
    simpa using body.unique h ⟨hr.1, hr.2.2⟩ ⟨hr'.1, hr'.2.2⟩
  | .ifElse condition first second => fun D' r r' h hr hr' => by
    have hstart := SingleCommand.start?_eq h hr hr'
    cases D' <;> cases hstart
    simp at h
    obtain ⟨rfl, h⟩ := condition.unique h ⟨rfl, hr.2.1⟩ ⟨rfl, hr'.2.1⟩
    simp at h
    obtain ⟨rfl, h⟩ := first.unique h ⟨rfl, hr.2.2.1⟩ ⟨rfl, hr'.2.2.1⟩
    simp at h
    simpa using second.unique h ⟨hr.1, hr.2.2.2⟩ ⟨hr'.1, hr'.2.2.2⟩
  | .whileDo condition body => fun D' r r' h hr hr' => by
    have hstart := SingleCommand.start?_eq h hr hr'
    cases D' <;> cases hstart <;> simp at h
    · obtain ⟨rfl, h⟩ := condition.unique h ⟨rfl, hr.2.1⟩ ⟨rfl, hr'.2.1⟩
      simp at h
      simpa using body.unique h ⟨hr.1, hr.2.2⟩ ⟨hr'.1, hr'.2.2⟩
    · simpa using (condition.unique h ⟨rfl, hr.2.1⟩ ⟨rfl, hr'.2.1⟩).2
  | .whileBraces condition body => fun D' r r' h hr hr' => by
    have hstart := SingleCommand.start?_eq h hr hr'
    cases D' <;> cases hstart <;> simp at h
    · simpa using (condition.unique h ⟨rfl, hr.2.1⟩ ⟨rfl, hr'.2.1⟩).2
    · obtain ⟨rfl, h⟩ := condition.unique h ⟨rfl, hr.2.1⟩ ⟨rfl, hr'.2.1⟩
      simp at h
      obtain ⟨rfl, h⟩ := body.unique h ⟨⟨rfl, by simp⟩, hr.2.2⟩ ⟨⟨rfl, by simp⟩, hr'.2.2⟩
      simpa using h
  | .loop before condition body => fun D' r r' h hr hr' => by
    have hstart := SingleCommand.start?_eq h hr hr'
    cases D' <;> cases hstart
    simp at h
    obtain ⟨rfl, h⟩ := before.unique h ⟨rfl, hr.2.1⟩ ⟨rfl, hr'.2.1⟩
    simp at h
    obtain ⟨rfl, h⟩ := condition.unique h ⟨rfl, hr.2.2.1⟩ ⟨rfl, hr'.2.2.1⟩
    simp at h
    simpa using body.unique h ⟨hr.1, hr.2.2.2⟩ ⟨hr'.1, hr'.2.2.2⟩

theorem Expression.unique : (D : Expression) → Unique Expression.yield Expression.Ends D
  | .letIn declaration body => fun D' r r' h hr hr' => by
    cases D' <;> simp at h
    · obtain ⟨rfl, h⟩ := declaration.unique h ⟨⟨rfl, by simp⟩, hr.2.1⟩ ⟨⟨rfl, by simp⟩, hr'.2.1⟩
      simp at h
      simpa using body.unique h ⟨hr.1, hr.2.2⟩ ⟨hr'.1, hr'.2.2⟩
    · exact (Primary.ne_keyword _ h.symm).elim
  | .ifElse condition first second => fun D' r r' h hr hr' => by
    cases D' <;> simp at h
    · obtain ⟨rfl, h⟩ := condition.unique h ⟨rfl, hr.2.1⟩ ⟨rfl, hr'.2.1⟩
      simp at h
      obtain ⟨rfl, h⟩ := first.unique h ⟨rfl, hr.2.2.1⟩ ⟨rfl, hr'.2.2.1⟩
      simp at h
      simpa using second.unique h ⟨hr.1, hr.2.2.2⟩ ⟨hr'.1, hr'.2.2.2⟩
    · exact (Primary.ne_keyword _ h.symm).elim
  | .secondary first operations => fun D' r r' h hr hr' => by
    cases D' <;> simp at h
    · exact (first.ne_keyword h).elim
    · exact (first.ne_keyword h).elim
    · obtain ⟨rfl, h⟩ := first.unique h ⟨operations.endsPrimary_nextKind hr.1, hr.2.1⟩
        ⟨Operations.endsPrimary_nextKind _ hr'.1, hr'.2.1⟩
      simp at h
      simpa using operations.unique h ⟨hr.1, hr.2.2⟩ ⟨hr'.1, hr'.2.2⟩

theorem Operations.unique : (D : Operations) → Unique Operations.yield Operations.Ends D
  | .none => fun D' r r' h hr hr' => by
    cases D' <;> simp at h
    · exact ⟨rfl, h⟩
    · rw [h] at hr
      exact absurd rfl (ne_operator_of_endsExpression hr.1)
  | .some operator operand rest => fun D' r r' h hr hr' => by
    cases D' <;> simp at h
    · rw [← h] at hr'
      exact absurd rfl (ne_operator_of_endsExpression hr'.1)
    · obtain ⟨rfl, h⟩ := h
      obtain ⟨rfl, h⟩ := operand.unique h ⟨rest.endsPrimary_nextKind hr.1, hr.2.1⟩
        ⟨Operations.endsPrimary_nextKind _ hr'.1, hr'.2.1⟩
      simp at h
      simpa using rest.unique h ⟨hr.1, hr.2.2⟩ ⟨hr'.1, hr'.2.2⟩

theorem Primary.unique : (D : Primary) → Unique Primary.yield Primary.Ends D
  | .integer literal | .character literal => fun D' r r' h _ _ => by
    cases D' <;> simp at h
    · simpa using h
    · cases (congrArg nextKind h).trans (Vname.nextKind_eq _ _)
  | .vname vname => fun D' r r' h hr hr' => by
    have hkind := (congrArg nextKind h).symm.trans (vname.nextKind_eq r)
    cases D' <;> first | cases hkind | simp at h
    · simpa using vname.unique h hr hr'
    · exact (vname.ne_call hr.1 h).elim
  | .call id arguments => fun D' r r' h hr hr' => by
    cases D' <;> simp at h
    · exact (Vname.ne_call _ hr'.1 h.symm).elim
    · obtain ⟨rfl, h⟩ := h
      simpa using arguments.unique h hr.2 hr'.2
  | .unary operator operand => fun D' r r' h hr hr' => by
    cases D' <;> simp at h
    · cases (congrArg nextKind h).trans (Vname.nextKind_eq _ _)
    · obtain ⟨rfl, h⟩ := h
      simpa using operand.unique h hr hr'
  | .parens body => fun D' r r' h hr hr' => by
    cases D' <;> simp at h
    · cases (congrArg nextKind h).trans (Vname.nextKind_eq _ _)
    · obtain ⟨rfl, h⟩ := body.unique h ⟨rfl, hr.2⟩ ⟨rfl, hr'.2⟩
      simpa using h
  | .record fields => fun D' r r' h hr hr' => by
    cases D' <;> simp at h
    · cases (congrArg nextKind h).trans (Vname.nextKind_eq _ _)
    · obtain ⟨rfl, h⟩ := fields.unique h ⟨⟨rfl, by simp⟩, hr.2⟩ ⟨⟨rfl, by simp⟩, hr'.2⟩
      simpa using h
  | .array elements => fun D' r r' h hr hr' => by
    cases D' <;> simp at h
    · cases (congrArg nextKind h).trans (Vname.nextKind_eq _ _)
    · obtain ⟨rfl, h⟩ := elements.unique h ⟨⟨rfl, by simp⟩, hr.2⟩ ⟨⟨rfl, by simp⟩, hr'.2⟩
      simpa using h

theorem RecordAggregate.unique : (D : RecordAggregate) →
    Unique RecordAggregate.yield RecordAggregate.Ends D
  | .single field value => fun D' r r' h hr hr' => by
    cases D' <;> simp at h
    · obtain ⟨rfl, h⟩ := h
      simpa using value.unique h ⟨hr.1.1, hr.2⟩ ⟨hr'.1.1, hr'.2⟩
    · obtain ⟨-, rfl⟩ := value.unique h.2 ⟨hr.1.1, hr.2⟩ ⟨rfl, hr'.2.1⟩
      exact absurd rfl hr.1.2
  | .multiple field value rest => fun D' r r' h hr hr' => by
    cases D' <;> simp at h
    · obtain ⟨-, rfl⟩ := value.unique h.2 ⟨rfl, hr.2.1⟩ ⟨hr'.1.1, hr'.2⟩
      exact absurd rfl hr'.1.2
    · obtain ⟨rfl, h⟩ := h
      obtain ⟨rfl, h⟩ := value.unique h ⟨rfl, hr.2.1⟩ ⟨rfl, hr'.2.1⟩
      simp at h
      simpa using rest.unique h ⟨hr.1, hr.2.2⟩ ⟨hr'.1, hr'.2.2⟩

theorem ArrayAggregate.unique : (D : ArrayAggregate) →
    Unique ArrayAggregate.yield ArrayAggregate.Ends D
  | .single element => fun D' r r' h hr hr' => by
    cases D' <;> simp at h
    · simpa using element.unique h ⟨hr.1.1, hr.2⟩ ⟨hr'.1.1, hr'.2⟩
    · obtain ⟨-, rfl⟩ := element.unique h ⟨hr.1.1, hr.2⟩ ⟨rfl, hr'.2.1⟩
      exact absurd rfl hr.1.2
  | .multiple first rest => fun D' r r' h hr hr' => by
    cases D' <;> simp at h
    · obtain ⟨-, rfl⟩ := first.unique h ⟨rfl, hr.2.1⟩ ⟨hr'.1.1, hr'.2⟩
      exact absurd rfl hr'.1.2
    · obtain ⟨rfl, h⟩ := first.unique h ⟨rfl, hr.2.1⟩ ⟨rfl, hr'.2.1⟩
      simp at h
      simpa using rest.unique h ⟨hr.1, hr.2.2⟩ ⟨hr'.1, hr'.2.2⟩

theorem Vname.unique : (D : Vname) → Unique Vname.yield Vname.Ends D
  | .mk id selectors => fun D' r r' h hr hr' => by
    cases D'
    simp [Vname.yield] at h
    obtain ⟨rfl, h⟩ := h
    simpa using selectors.unique h hr hr'

theorem Selectors.unique : (D : Selectors) → Unique Selectors.yield Selectors.Ends D
  | .none => fun D' r r' h hr hr' => by
    cases D' <;> simp at h
    · exact ⟨rfl, h⟩
    all_goals
      rw [h] at hr
      cases hr.1
  | .dot field rest => fun D' r r' h hr hr' => by
    cases D' <;> simp at h
    · rw [← h] at hr'
      cases hr'.1
    · obtain ⟨rfl, h⟩ := h
      simpa using rest.unique h hr hr'
  | .subscript index rest => fun D' r r' h hr hr' => by
    cases D' <;> simp at h
    · rw [← h] at hr'
      cases hr'.1
    · obtain ⟨rfl, h⟩ := index.unique h ⟨rfl, hr.2.1⟩ ⟨rfl, hr'.2.1⟩
      simp at h
      simpa using rest.unique h ⟨hr.1, hr.2.2⟩ ⟨hr'.1, hr'.2.2⟩

theorem Arguments.unique : (D : Arguments) →
    Unique Arguments.yield (fun D _ => D.Admissible) D
  | .none => fun D' r r' h _ _ => by
    cases D' <;> simp at h
    · exact ⟨rfl, h⟩
    · exact absurd (congrArg nextKind h).symm (ProperArguments.nextKind_ne_closeParen _ _)
  | .some proper => fun D' r r' h hr hr' => by
    cases D' <;> simp at h
    · exact absurd (congrArg nextKind h) (ProperArguments.nextKind_ne_closeParen _ _)
    · obtain ⟨rfl, h⟩ := proper.unique h ⟨⟨rfl, by simp⟩, hr⟩ ⟨⟨rfl, by simp⟩, hr'⟩
      simpa using h

theorem ProperArguments.unique : (D : ProperArguments) →
    Unique ProperArguments.yield ProperArguments.Ends D
  | .single argument => fun D' r r' h hr hr' => by
    cases D' <;> simp at h
    · simpa using argument.unique h ⟨hr.1.1, hr.2⟩ ⟨hr'.1.1, hr'.2⟩
    · obtain ⟨-, rfl⟩ := argument.unique h ⟨hr.1.1, hr.2⟩ ⟨rfl, hr'.2.1⟩
      exact absurd rfl hr.1.2
  | .multiple first rest => fun D' r r' h hr hr' => by
    cases D' <;> simp at h
    · obtain ⟨-, rfl⟩ := first.unique h ⟨rfl, hr.2.1⟩ ⟨hr'.1.1, hr'.2⟩
      exact absurd rfl hr'.1.2
    · obtain ⟨rfl, h⟩ := first.unique h ⟨rfl, hr.2.1⟩ ⟨rfl, hr'.2.1⟩
      simp at h
      simpa using rest.unique h ⟨hr.1, hr.2.2⟩ ⟨hr'.1, hr'.2.2⟩

theorem Argument.unique : (D : Argument) → Unique Argument.yield Argument.Ends D
  | .const value => fun D' r r' h hr hr' => by
    cases D' <;> simp at h
    · simpa using value.unique h hr hr'
    all_goals exact (value.ne_keyword (by decide) h).elim
  | .var vname => fun D' r r' h hr hr' => by
    cases D' <;> simp at h
    · exact (Expression.ne_keyword _ (by decide) h.symm).elim
    · simpa using vname.unique h ⟨endsPrimary_of_endsExpression hr.1, hr.2⟩
        ⟨endsPrimary_of_endsExpression hr'.1, hr'.2⟩
  | .proc id | .func id => fun D' r r' h hr hr' => by
    cases D' <;> simp at h
    · exact (Expression.ne_keyword _ (by decide) h.symm).elim
    · simpa using h

theorem Declaration.unique : (D : Declaration) → Unique Declaration.yield Declaration.Ends D
  | .single declaration => fun D' r r' h hr hr' => by
    cases D' <;> simp at h
    · simpa using declaration.unique h ⟨hr.1.1, hr.2⟩ ⟨hr'.1.1, hr'.2⟩
    · obtain ⟨-, rfl⟩ := declaration.unique h ⟨hr.1.1, hr.2⟩ ⟨rfl, hr'.2.1⟩
      exact absurd rfl hr.1.2
  | .sequential first rest => fun D' r r' h hr hr' => by
    cases D' <;> simp at h
    · obtain ⟨-, rfl⟩ := first.unique h ⟨rfl, hr.2.1⟩ ⟨hr'.1.1, hr'.2⟩
      exact absurd rfl hr'.1.2
    · obtain ⟨rfl, h⟩ := first.unique h ⟨rfl, hr.2.1⟩ ⟨rfl, hr'.2.1⟩
      simp at h
      simpa using rest.unique h ⟨hr.1, hr.2.2⟩ ⟨hr'.1, hr'.2.2⟩

theorem SingleDeclaration.unique : (D : SingleDeclaration) →
    Unique SingleDeclaration.yield SingleDeclaration.Ends D
  | .const id value => fun D' r r' h hr hr' => by
    cases D' <;> simp at h
    obtain ⟨rfl, h⟩ := h
    simpa using value.unique h ⟨endsExpression_of_endsCommand hr.1, hr.2⟩
      ⟨endsExpression_of_endsCommand hr'.1, hr'.2⟩
  | .var id of | .type id of => fun D' r r' h _ _ => by
    cases D' <;> simp at h
    obtain ⟨rfl, h⟩ := h
    simpa using of.unique h trivial trivial
  | .proc id parameters body => fun D' r r' h hr hr' => by
    cases D' <;> simp at h
    obtain ⟨rfl, h⟩ := h
    obtain ⟨rfl, h⟩ := parameters.unique h trivial trivial
    simp at h
    simpa using body.unique h hr hr'
  | .func id parameters result body => fun D' r r' h hr hr' => by
    cases D' <;> simp at h
    obtain ⟨rfl, h⟩ := h
    obtain ⟨rfl, h⟩ := parameters.unique h trivial trivial
    simp at h
    obtain ⟨rfl, h⟩ := result.unique h trivial trivial
    simp at h
    simpa using body.unique h ⟨endsExpression_of_endsCommand hr.1, hr.2⟩
      ⟨endsExpression_of_endsCommand hr'.1, hr'.2⟩

end

/-- Two admissible derivations of a program with the same symbols are equal. -/
theorem Program.unique {D D' : Program} (hadm : D.Admissible) (hadm' : D'.Admissible)
    (h : D.yield = D'.yield) : D = D' := by
  have hyield : D.command.yield ++ [] = D'.command.yield ++ [] := by
    simpa [Program.yield] using h
  have hend : endsCommands (nextKind []) := ⟨rfl, by simp [nextKind]⟩
  have hcommand := (D.command.unique hyield ⟨hend, hadm⟩ ⟨hend, hadm'⟩).1
  cases D
  cases D'
  exact congrArg Program.mk hcommand

end Triangle.Grammar
