import Triangle.Proofs.Typing.Types
import Triangle.Token.Literal
import Triangle.Typing.Annotations

/-!
# Well-typed phrases

The rules of typing, for a tree with its annotations.  A name stands for what it was found to refer
to, not for its spelling, so a context is a map from declarations to their meanings and the rules
need no scopes.  Every rule also says which types the annotations give to the nodes it is about.

There is no rule for what stands for a mistake: no phrase has the erroneous type, equality of types
is equality, and operators are those of the standard environment.  A declaration introduces itself
into the context under a node that the context does not have yet; so a context only ever grows
while a tree is walked, and whatever is filed under the nodes of a context stays where it is.
-/

namespace Triangle

/-- What the declarations and parameters that can be referred to mean. -/
abbrev Context := NodeId → Option Meaning

namespace Context

/-- The context before any declaration of the program. -/
def empty : Context := fun _ => none

/-- A context with one more declaration. -/
def bind (Γ : Context) (id : NodeId) (meaning : Meaning) : Context :=
  fun other => if id = other then some meaning else Γ other

/-- What a declaration means, be it of the program or a standard one. -/
def meaningOf (Γ : Context) : Referent → Option Meaning
  | .node id => Γ id
  | .standard declaration => some declaration.meaning

/-- One context knows what the other does. -/
def Le (Γ Δ : Context) : Prop := ∀ ⦃id meaning⦄, Γ id = some meaning → Δ id = some meaning

/-- All types in the meanings are proper. -/
def Proper (Γ : Context) : Prop := ∀ ⦃id meaning⦄, Γ id = some meaning → meaning.Proper

@[simp] theorem bind_self (Γ : Context) (id : NodeId) (meaning : Meaning) :
    Γ.bind id meaning id = some meaning := by
  simp [bind]

theorem bind_of_ne {Γ : Context} {id other : NodeId} {meaning : Meaning} (h : id ≠ other) :
    Γ.bind id meaning other = Γ other := by
  simp [bind, h]

/-- What a context knows after a declaration is that declaration, or was known before. -/
theorem bind_eq_some {Γ : Context} {id other : NodeId} {meaning m : Meaning}
    (h : Γ.bind id meaning other = some m) :
    (id = other ∧ meaning = m) ∨ (id ≠ other ∧ Γ other = some m) := by
  rw [bind] at h
  split at h
  · rename_i heq
    exact .inl ⟨heq, Option.some.inj h⟩
  · rename_i hne
    exact .inr ⟨hne, h⟩

theorem Le.refl (Γ : Context) : Γ.Le Γ := fun _ _ h => h

theorem Le.trans {Γ Δ Θ : Context} (h₁ : Γ.Le Δ) (h₂ : Δ.Le Θ) : Γ.Le Θ :=
  fun _ _ h => h₂ (h₁ h)

/-- A new declaration takes nothing away. -/
theorem le_bind {Γ : Context} {id : NodeId} (meaning : Meaning) (h : Γ id = none) :
    Γ.Le (Γ.bind id meaning) := by
  intro other m hother
  rw [bind_of_ne, hother]
  rintro rfl
  rw [h] at hother
  cases hother

theorem Proper.bind {Γ : Context} {id : NodeId} {meaning : Meaning} (hΓ : Γ.Proper)
    (h : meaning.Proper) : (Γ.bind id meaning).Proper := by
  intro other m hother
  obtain ⟨-, rfl⟩ | ⟨-, hother⟩ := bind_eq_some hother
  · exact h
  · exact hΓ hother

theorem Le.meaningOf {Γ Δ : Context} (h : Γ.Le Δ) {referent : Referent} {meaning : Meaning}
    (hΓ : Γ.meaningOf referent = some meaning) : Δ.meaningOf referent = some meaning := by
  cases referent with
  | node id => exact h hΓ
  | standard declaration => exact hΓ

end Context

/-- What a name refers to is known to mean something. -/
def Annotations.Means (A : Annotations) (Γ : Context) (name : Terminal) (meaning : Meaning) :
    Prop :=
  ∃ referent, A.referentOf? name.mark.id = some referent ∧ Γ.meaningOf referent = some meaning

/-- A standard operator takes operands of these types to a result of that one. -/
def Standard.Operates (s : Standard) (left right result : Ty) : Prop :=
  s.meaning = .binary left right result ∨ (s.meaning = .binary .any .any result ∧ left = right)

/-- What the name of a parameter means in the body of its routine. -/
def Formal.meaning : Formal → Meaning
  | .const of => .const of
  | .var of => .var of
  | .proc formals => .proc formals
  | .func formals result => .func formals result

/-! ## Types -/

mutual

/-- A type denoter stands for a type. -/
def TypeDenoter.Denotes (A : Annotations) (Γ : Context) : TypeDenoter → Ty → Prop
  | .any _, _ | .error _, _ => False
  | .array m size element, τ =>
    A.typeOf? m.id = some τ ∧
    ∃ length σ, Literal.integerValue? size.spelling = some length ∧ 0 < length ∧
      element.Denotes A Γ σ ∧ τ = .array length σ
  | .bool m, τ => A.typeOf? m.id = some τ ∧ τ = .bool
  | .char m, τ => A.typeOf? m.id = some τ ∧ τ = .char
  | .int m, τ => A.typeOf? m.id = some τ ∧ τ = .int
  | .record m fields, τ =>
    A.typeOf? m.id = some τ ∧ ∃ fs, fields.Denotes A Γ fs ∧ τ = .record fs
  | .simple m name, τ => A.typeOf? m.id = some τ ∧ A.Means Γ name (.type τ)

/-- Field denoters stand for fields, no two of one name. -/
def FieldDenoters.Denotes (A : Annotations) (Γ : Context) : FieldDenoters → Fields → Prop
  | .single _ name of, fs => ∃ τ, of.Denotes A Γ τ ∧ fs = .cons name.spelling τ .nil
  | .multiple _ name of rest, fs =>
    ∃ τ others, of.Denotes A Γ τ ∧ rest.Denotes A Γ others ∧
      others.declares name.spelling = false ∧ fs = .cons name.spelling τ others

end

/-! ## Formal parameters -/

mutual

/-- A parameter has a formal and introduces itself into a context. -/
def Parameter.Typed (A : Annotations) : Parameter → Context → Formal → Context → Prop
  | .const m _ of, Γ, formal, Δ =>
    ∃ τ, of.Denotes A Γ τ ∧ A.typeOf? m.id = some τ ∧ formal = .const τ ∧
      Γ m.id = none ∧ Δ = Γ.bind m.id formal.meaning
  | .var m _ of, Γ, formal, Δ =>
    ∃ τ, of.Denotes A Γ τ ∧ A.typeOf? m.id = some τ ∧ formal = .var τ ∧
      Γ m.id = none ∧ Δ = Γ.bind m.id formal.meaning
  | .proc m _ parameters, Γ, formal, Δ =>
    ∃ formals Θ, parameters.Typed A Γ formals Θ ∧ formal = .proc formals ∧
      Γ m.id = none ∧ Δ = Γ.bind m.id formal.meaning
  | .func m _ parameters result, Γ, formal, Δ =>
    ∃ formals Θ τ, parameters.Typed A Γ formals Θ ∧ result.Denotes A Γ τ ∧
      A.typeOf? m.id = some τ ∧ formal = .func formals τ ∧
      Γ m.id = none ∧ Δ = Γ.bind m.id formal.meaning

/-- Parameters have a signature and introduce themselves into a context. -/
def Parameters.Typed (A : Annotations) : Parameters → Context → Formals → Context → Prop
  | .empty _, Γ, formals, Δ => formals = .nil ∧ Δ = Γ
  | .single _ parameter, Γ, formals, Δ =>
    ∃ formal, parameter.Typed A Γ formal Δ ∧ formals = .cons formal .nil
  | .multiple _ first rest, Γ, formals, Δ =>
    ∃ formal others Θ, first.Typed A Γ formal Θ ∧ rest.Typed A Θ others Δ ∧
      formals = .cons formal others

end

/-! ## Commands, expressions and declarations -/

mutual

/-- A command is well typed. -/
def Command.Typed (A : Annotations) : Command → Context → Prop
  | .assign _ target value, Γ => ∃ τ, target.Typed A Γ τ true ∧ value.Typed A Γ τ
  | .doubleAssign _ first second firstValue secondValue, Γ =>
    ∃ τ σ, first.Typed A Γ τ true ∧ firstValue.Typed A Γ τ ∧
      second.Typed A Γ σ true ∧ secondValue.Typed A Γ σ
  | .call _ name arguments, Γ =>
    ∃ formals, A.Means Γ name (.proc formals) ∧ arguments.Typed A Γ formals
  | .empty _, _ => True
  | .ifElse _ condition first second, Γ =>
    condition.Typed A Γ .bool ∧ first.Typed A Γ ∧ second.Typed A Γ
  | .letIn _ declaration body, Γ => ∃ Δ, declaration.Typed A Γ Δ ∧ body.Typed A Δ
  | .sequential _ first second, Γ => first.Typed A Γ ∧ second.Typed A Γ
  | .whileDo _ condition body, Γ => condition.Typed A Γ .bool ∧ body.Typed A Γ
  | .loopWhile _ prelude condition body, Γ =>
    prelude.Typed A Γ ∧ condition.Typed A Γ .bool ∧ body.Typed A Γ

/-- An expression has a type. -/
def Expression.Typed (A : Annotations) : Expression → Context → Ty → Prop
  | .array m elements, Γ, τ =>
    A.typeOf? m.id = some τ ∧ ∃ σ length, elements.Typed A Γ σ length ∧ τ = .array length σ
  | .binary m left operator right, Γ, τ =>
    A.typeOf? m.id = some τ ∧ ∃ σ ρ s, left.Typed A Γ σ ∧ right.Typed A Γ ρ ∧
      A.referentOf? operator.mark.id = some (.standard s) ∧ s.Operates σ ρ τ
  | .call m name arguments, Γ, τ =>
    A.typeOf? m.id = some τ ∧
    ∃ formals, A.Means Γ name (.func formals τ) ∧ arguments.Typed A Γ formals
  | .character m _, _, τ => A.typeOf? m.id = some τ ∧ τ = .char
  | .empty _, _, _ => False
  | .ifElse m condition first second, Γ, τ =>
    A.typeOf? m.id = some τ ∧
    condition.Typed A Γ .bool ∧ first.Typed A Γ τ ∧ second.Typed A Γ τ
  | .integer m _, _, τ => A.typeOf? m.id = some τ ∧ τ = .int
  | .letIn m declaration body, Γ, τ =>
    A.typeOf? m.id = some τ ∧ ∃ Δ, declaration.Typed A Γ Δ ∧ body.Typed A Δ τ
  | .record m fields, Γ, τ =>
    A.typeOf? m.id = some τ ∧ ∃ fs, fields.Typed A Γ fs ∧ τ = .record fs
  | .unary m operator operand, Γ, τ =>
    A.typeOf? m.id = some τ ∧ ∃ σ s, operand.Typed A Γ σ ∧
      A.referentOf? operator.mark.id = some (.standard s) ∧ s.meaning = .unary σ τ
  | .vname m vname, Γ, τ =>
    A.typeOf? m.id = some τ ∧ ∃ assignable, vname.Typed A Γ τ assignable

/-- A declaration is well typed and introduces itself into a context. -/
def Declaration.Typed (A : Annotations) : Declaration → Context → Context → Prop
  | .binaryOperator _ _ _ _ _, _, _ | .unaryOperator _ _ _ _, _, _ => False
  | .const m _ value, Γ, Δ =>
    ∃ τ, value.Typed A Γ τ ∧ A.typeOf? m.id = some τ ∧
      Γ m.id = none ∧ Δ = Γ.bind m.id (.const τ)
  | .func m _ parameters result body, Γ, Δ =>
    ∃ τ formals Θ, result.Denotes A Γ τ ∧ A.typeOf? m.id = some τ ∧
      Γ m.id = none ∧ Δ = Γ.bind m.id (.func formals τ) ∧
      parameters.Typed A Δ formals Θ ∧ body.Typed A Θ τ
  | .proc m _ parameters body, Γ, Δ =>
    ∃ formals Θ, Γ m.id = none ∧ Δ = Γ.bind m.id (.proc formals) ∧
      parameters.Typed A Δ formals Θ ∧ body.Typed A Θ
  | .sequential _ first second, Γ, Δ => ∃ Θ, first.Typed A Γ Θ ∧ second.Typed A Θ Δ
  | .type m _ of, Γ, Δ =>
    ∃ τ, of.Denotes A Γ τ ∧ A.typeOf? m.id = some τ ∧
      Γ m.id = none ∧ Δ = Γ.bind m.id (.type τ)
  | .var m _ of, Γ, Δ =>
    ∃ τ, of.Denotes A Γ τ ∧ A.typeOf? m.id = some τ ∧
      Γ m.id = none ∧ Δ = Γ.bind m.id (.var τ)

/-- A V-name has a type, and is a variable or not. -/
def Vname.Typed (A : Annotations) : Vname → Context → Ty → Bool → Prop
  | .dot m record field, Γ, τ, assignable =>
    A.typeOf? m.id = some τ ∧ ∃ fs offset, record.Typed A Γ (.record fs) assignable ∧
      (Ty.record fs).field field.spelling = .ok (some (offset, τ))
  | .simple m name, Γ, τ, assignable =>
    A.typeOf? m.id = some τ ∧ A.Means Γ name (if assignable then .var τ else .const τ)
  | .subscript m array index, Γ, τ, assignable =>
    A.typeOf? m.id = some τ ∧ ∃ length, array.Typed A Γ (.array length τ) assignable ∧
      index.Typed A Γ .int

/-- An argument may be passed for a formal. -/
def Argument.Typed (A : Annotations) : Argument → Context → Formal → Prop
  | .const _ value, Γ, formal => ∃ τ, value.Typed A Γ τ ∧ formal = .const τ
  | .func _ name, Γ, formal =>
    ∃ formals τ, A.Means Γ name (.func formals τ) ∧ formal = .func formals τ
  | .proc _ name, Γ, formal => ∃ formals, A.Means Γ name (.proc formals) ∧ formal = .proc formals
  | .var _ vname, Γ, formal => ∃ τ, vname.Typed A Γ τ true ∧ formal = .var τ

/-- Arguments may be passed for a signature. -/
def Arguments.Typed (A : Annotations) : Arguments → Context → Formals → Prop
  | .empty _, _, formals => formals = .nil
  | .single _ argument, Γ, formals =>
    ∃ formal, argument.Typed A Γ formal ∧ formals = .cons formal .nil
  | .multiple _ first rest, Γ, formals =>
    ∃ formal others, first.Typed A Γ formal ∧ rest.Typed A Γ others ∧
      formals = .cons formal others

/-- The elements of an array are of one type, and so many. -/
def ArrayAggregate.Typed (A : Annotations) : ArrayAggregate → Context → Ty → Int → Prop
  | .single _ element, Γ, τ, length => element.Typed A Γ τ ∧ length = 1
  | .multiple _ first rest, Γ, τ, length =>
    ∃ others, first.Typed A Γ τ ∧ rest.Typed A Γ τ others ∧ length = others + 1

/-- The fields of a record, no two of one name. -/
def RecordAggregate.Typed (A : Annotations) : RecordAggregate → Context → Fields → Prop
  | .single _ field value, Γ, fs => ∃ τ, value.Typed A Γ τ ∧ fs = .cons field.spelling τ .nil
  | .multiple _ field value rest, Γ, fs =>
    ∃ τ others, value.Typed A Γ τ ∧ rest.Typed A Γ others ∧
      others.declares field.spelling = false ∧ fs = .cons field.spelling τ others

end

/-! ## Facts about the rules -/

section

variable {A : Annotations} {Γ Δ : Context} {τ : Ty}

theorem Vname.Typed.typeOf {v : Vname} {assignable : Bool} (h : v.Typed A Γ τ assignable) :
    A.typeOf? v.mark.id = some τ := by
  cases v <;> exact h.1

/-- A parameter introduces its own name, and nothing else. -/
theorem Parameter.Typed.binds {p : Parameter} {formal : Formal} (h : p.Typed A Γ formal Δ) :
    Γ p.mark.id = none ∧ Δ = Γ.bind p.mark.id formal.meaning := by
  cases p with
  | const m name of | var m name of =>
    obtain ⟨_, -, -, -, hbinds⟩ := h
    exact hbinds
  | proc m name parameters =>
    obtain ⟨_, _, -, -, hbinds⟩ := h
    exact hbinds
  | func m name parameters result =>
    obtain ⟨_, _, _, -, -, -, -, hbinds⟩ := h
    exact hbinds

theorem Parameter.Typed.le {p : Parameter} {formal : Formal} (h : p.Typed A Γ formal Δ) :
    Γ.Le Δ := by
  obtain ⟨hfresh, rfl⟩ := h.binds
  exact Context.le_bind _ hfresh

theorem Parameters.Typed.le {ps : Parameters} {Γ Δ formals} :
    ps.Typed A Γ formals Δ → Γ.Le Δ := by
  cases ps with
  | empty _ =>
    rintro ⟨-, rfl⟩
    exact .refl _
  | single _ _ =>
    rintro ⟨_, hp, -⟩
    exact hp.le
  | multiple _ _ rest =>
    rintro ⟨_, _, _, hp, hrest, -⟩
    exact hp.le.trans (Parameters.Typed.le hrest)

/-- A declaration takes nothing away from the context. -/
theorem Declaration.Typed.le {d : Declaration} {Γ Δ} :
    d.Typed A Γ Δ → Γ.Le Δ := by
  cases d with
  | binaryOperator _ _ _ _ _ | unaryOperator _ _ _ _ => exact False.elim
  | const _ _ _ =>
    rintro ⟨_, -, -, hfresh, rfl⟩
    exact Context.le_bind _ hfresh
  | func _ _ _ _ _ =>
    rintro ⟨_, _, _, -, -, hfresh, rfl, -⟩
    exact Context.le_bind _ hfresh
  | proc _ _ _ _ =>
    rintro ⟨_, _, hfresh, rfl, -⟩
    exact Context.le_bind _ hfresh
  | sequential _ first second =>
    rintro ⟨_, h₁, h₂⟩
    exact (Declaration.Typed.le h₁).trans (Declaration.Typed.le h₂)
  | type _ _ _ | var _ _ _ =>
    rintro ⟨_, -, -, hfresh, rfl⟩
    exact Context.le_bind _ hfresh

end

end Triangle
