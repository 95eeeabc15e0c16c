import Triangle.Proofs.Typing.Types
import Triangle.Token.Literal

/-!
# The typing rules

When a program is well typed, said by rules and without the checker.  Names mean what the innermost
scope says that has them; a scope has each name once.  Every phrase of the rules has a proper type:
there is no type for a mistake, and types are the same only if they are equal.

The rules leave one thing open, which fields may be selected: the checker locates a field when it is
selected, by counting the words before it, and the count can be too large for a machine word.  As
the rules of the language have it every field may be selected (`Fields.Any`); the checker selects
the ones it can locate (`Fields.Located`).
-/

namespace Triangle

/-! ## Names -/

/-- What names mean, scope by scope and the innermost first. -/
abbrev Names := List (List (String × Meaning))

namespace Names

/-- The names that are declared before every program. -/
def standard : Names := [Standard.all.map fun s => (s.spelling, s.meaning)]

/-- What a name means, from the innermost scope outwards. -/
def meaning? (Γ : Names) (name : String) : Option Meaning :=
  Γ.findSome? (List.lookup name)

/-- The innermost scope does not have a name yet. -/
def Fresh (Γ : Names) (name : String) : Prop := (Γ.headD []).lookup name = none

/-- A name added to the innermost scope. -/
def bind (Γ : Names) (name : String) (meaning : Meaning) : Names :=
  ((name, meaning) :: Γ.headD []) :: Γ.tail

end Names

/-- The type of the first field with the given name. -/
def Fields.typeOf? (name : String) : Fields → Option Ty
  | .nil => none
  | .cons x of rest => if x = name then some of else rest.typeOf? name

/-- Which fields of which records may be selected. -/
abbrev Selectable := Fields → String → Prop

/-- Every field may be selected. -/
def Fields.Any : Selectable := fun _ _ => True

/-- The words before the field can be counted. -/
def Fields.Located : Selectable := fun fields name => ∃ found, fields.find name 0 = .ok found

/-- Fields that can be located may be selected. -/
def Selectable.Lenient (F : Selectable) : Prop :=
  ∀ fields name, Fields.Located fields name → F fields name

theorem Fields.lenient_located : Selectable.Lenient Fields.Located := fun _ _ h => h

theorem Fields.lenient_any : Selectable.Lenient Fields.Any := fun _ _ _ => trivial

/-! ## Types and parameters -/

mutual

/-- A denoter stands for a type. -/
inductive TypeDenoter.StandsFor : Names → TypeDenoter → Ty → Prop
  | array {Γ : Names} {m size element length τ} :
    Literal.integerValue? size.spelling = some length → 0 < length →
    TypeDenoter.StandsFor Γ element τ →
    TypeDenoter.StandsFor Γ (.array m size element) (.array length τ)
  | bool {Γ : Names} {m} : TypeDenoter.StandsFor Γ (.bool m) .bool
  | char {Γ : Names} {m} : TypeDenoter.StandsFor Γ (.char m) .char
  | int {Γ : Names} {m} : TypeDenoter.StandsFor Γ (.int m) .int
  | record {Γ : Names} {m fields types} :
    FieldDenoters.StandFor Γ fields types →
    TypeDenoter.StandsFor Γ (.record m fields) (.record types)
  | simple {Γ : Names} {m name τ} :
    Γ.meaning? name.spelling = some (.type τ) → TypeDenoter.StandsFor Γ (.simple m name) τ

/-- Denoters of fields stand for fields, no two of one name. -/
inductive FieldDenoters.StandFor : Names → FieldDenoters → Fields → Prop
  | single {Γ : Names} {m name of τ} :
    TypeDenoter.StandsFor Γ of τ →
    FieldDenoters.StandFor Γ (.single m name of) (.cons name.spelling τ .nil)
  | multiple {Γ : Names} {m name of rest τ types} :
    TypeDenoter.StandsFor Γ of τ → FieldDenoters.StandFor Γ rest types →
    types.declares name.spelling = false →
    FieldDenoters.StandFor Γ (.multiple m name of rest) (.cons name.spelling τ types)

end

mutual

/-- A parameter is seen by callers as a formal, and adds its name to the innermost scope. -/
inductive Parameter.Introduces : Names → Parameter → Formal → Names → Prop
  | const {Γ : Names} {m name of τ} :
    of.StandsFor Γ τ → Γ.Fresh name.spelling →
    Parameter.Introduces Γ (.const m name of) (.const τ) (Γ.bind name.spelling (.const τ))
  | func {Γ : Names} {m name parameters result formals τ Δ} :
    Parameters.Introduce ([] :: Γ) parameters formals Δ → result.StandsFor Γ τ →
    Γ.Fresh name.spelling →
    Parameter.Introduces Γ (.func m name parameters result) (.func formals τ)
      (Γ.bind name.spelling (.func formals τ))
  | proc {Γ : Names} {m name parameters formals Δ} :
    Parameters.Introduce ([] :: Γ) parameters formals Δ → Γ.Fresh name.spelling →
    Parameter.Introduces Γ (.proc m name parameters) (.proc formals)
      (Γ.bind name.spelling (.proc formals))
  | var {Γ : Names} {m name of τ} :
    of.StandsFor Γ τ → Γ.Fresh name.spelling →
    Parameter.Introduces Γ (.var m name of) (.var τ) (Γ.bind name.spelling (.var τ))

/-- Parameters are seen by callers as a signature, and add their names to the innermost scope. -/
inductive Parameters.Introduce : Names → Parameters → Formals → Names → Prop
  | empty {Γ : Names} {m} : Parameters.Introduce Γ (.empty m) .nil Γ
  | single {Γ : Names} {m parameter formal Δ} :
    Parameter.Introduces Γ parameter formal Δ →
    Parameters.Introduce Γ (.single m parameter) (.cons formal .nil) Δ
  | multiple {Γ : Names} {m first rest formal formals Θ Δ} :
    Parameter.Introduces Γ first formal Θ → Parameters.Introduce Θ rest formals Δ →
    Parameters.Introduce Γ (.multiple m first rest) (.cons formal formals) Δ

end

/-! ## Commands, expressions and declarations -/

mutual

/-- A command is well typed. -/
inductive Command.WellTyped (F : Selectable) : Names → Command → Prop
  | assign {Γ : Names} {m target value τ} :
    Vname.HasType F Γ target τ true → Expression.HasType F Γ value τ →
    Command.WellTyped F Γ (.assign m target value)
  | doubleAssign {Γ : Names} {m first second firstValue secondValue σ τ} :
    Vname.HasType F Γ first σ true → Expression.HasType F Γ firstValue σ →
    Vname.HasType F Γ second τ true → Expression.HasType F Γ secondValue τ →
    Command.WellTyped F Γ (.doubleAssign m first second firstValue secondValue)
  | call {Γ : Names} {m name arguments formals} :
    Γ.meaning? name.spelling = some (.proc formals) → Arguments.Fit F Γ arguments formals →
    Command.WellTyped F Γ (.call m name arguments)
  | empty {Γ : Names} {m} : Command.WellTyped F Γ (.empty m)
  | ifElse {Γ : Names} {m condition first second} :
    Expression.HasType F Γ condition .bool →
    Command.WellTyped F Γ first → Command.WellTyped F Γ second →
    Command.WellTyped F Γ (.ifElse m condition first second)
  | letIn {Γ : Names} {m declaration body Δ} :
    Declaration.Introduces F ([] :: Γ) declaration Δ → Command.WellTyped F Δ body →
    Command.WellTyped F Γ (.letIn m declaration body)
  | sequential {Γ : Names} {m first second} :
    Command.WellTyped F Γ first → Command.WellTyped F Γ second →
    Command.WellTyped F Γ (.sequential m first second)
  | whileDo {Γ : Names} {m condition body} :
    Expression.HasType F Γ condition .bool → Command.WellTyped F Γ body →
    Command.WellTyped F Γ (.whileDo m condition body)
  | loopWhile {Γ : Names} {m prelude condition body} :
    Command.WellTyped F Γ prelude → Expression.HasType F Γ condition .bool →
    Command.WellTyped F Γ body →
    Command.WellTyped F Γ (.loopWhile m prelude condition body)

/-- An expression has a type. -/
inductive Expression.HasType (F : Selectable) : Names → Expression → Ty → Prop
  | array {Γ : Names} {m elements length τ} :
    ArrayAggregate.HasElements F Γ elements τ length →
    Expression.HasType F Γ (.array m elements) (.array length τ)
  | binary {Γ : Names} {m left operator right σ ρ τ} :
    Expression.HasType F Γ left σ → Expression.HasType F Γ right ρ →
    Γ.meaning? operator.spelling = some (.binary σ ρ τ) →
    Expression.HasType F Γ (.binary m left operator right) τ
  /-- The operands of an operator for all types have the same type. -/
  | comparison {Γ : Names} {m left operator right σ τ} :
    Expression.HasType F Γ left σ → Expression.HasType F Γ right σ →
    Γ.meaning? operator.spelling = some (.binary .any .any τ) →
    Expression.HasType F Γ (.binary m left operator right) τ
  | call {Γ : Names} {m name arguments formals τ} :
    Γ.meaning? name.spelling = some (.func formals τ) → Arguments.Fit F Γ arguments formals →
    Expression.HasType F Γ (.call m name arguments) τ
  | character {Γ : Names} {m literal} : Expression.HasType F Γ (.character m literal) .char
  | ifElse {Γ : Names} {m condition first second τ} :
    Expression.HasType F Γ condition .bool →
    Expression.HasType F Γ first τ → Expression.HasType F Γ second τ →
    Expression.HasType F Γ (.ifElse m condition first second) τ
  | integer {Γ : Names} {m literal} : Expression.HasType F Γ (.integer m literal) .int
  | letIn {Γ : Names} {m declaration body Δ τ} :
    Declaration.Introduces F ([] :: Γ) declaration Δ → Expression.HasType F Δ body τ →
    Expression.HasType F Γ (.letIn m declaration body) τ
  | record {Γ : Names} {m fields types} :
    RecordAggregate.HasFields F Γ fields types →
    Expression.HasType F Γ (.record m fields) (.record types)
  | unary {Γ : Names} {m operator operand σ τ} :
    Expression.HasType F Γ operand σ → Γ.meaning? operator.spelling = some (.unary σ τ) →
    Expression.HasType F Γ (.unary m operator operand) τ
  | vname {Γ : Names} {m vname τ assignable} :
    Vname.HasType F Γ vname τ assignable → Expression.HasType F Γ (.vname m vname) τ

/-- A declaration adds its names to the innermost scope.  The parameters of a routine have a scope
of their own; its name belongs to the scope around them and is known in its body. -/
inductive Declaration.Introduces (F : Selectable) : Names → Declaration → Names → Prop
  | const {Γ : Names} {m name value τ} :
    Expression.HasType F Γ value τ → Γ.Fresh name.spelling →
    Declaration.Introduces F Γ (.const m name value) (Γ.bind name.spelling (.const τ))
  | func {Γ : Names} {m name parameters result body formals τ scope} :
    result.StandsFor Γ τ → parameters.Introduce ([] :: Γ) formals (scope :: Γ) →
    Γ.Fresh name.spelling →
    Expression.HasType F (scope :: Γ.bind name.spelling (.func formals τ)) body τ →
    Declaration.Introduces F Γ (.func m name parameters result body)
      (Γ.bind name.spelling (.func formals τ))
  | proc {Γ : Names} {m name parameters body formals scope} :
    parameters.Introduce ([] :: Γ) formals (scope :: Γ) → Γ.Fresh name.spelling →
    Command.WellTyped F (scope :: Γ.bind name.spelling (.proc formals)) body →
    Declaration.Introduces F Γ (.proc m name parameters body)
      (Γ.bind name.spelling (.proc formals))
  | sequential {Γ : Names} {m first second Θ Δ} :
    Declaration.Introduces F Γ first Θ → Declaration.Introduces F Θ second Δ →
    Declaration.Introduces F Γ (.sequential m first second) Δ
  | type {Γ : Names} {m name of τ} :
    of.StandsFor Γ τ → Γ.Fresh name.spelling →
    Declaration.Introduces F Γ (.type m name of) (Γ.bind name.spelling (.type τ))
  | var {Γ : Names} {m name of τ} :
    of.StandsFor Γ τ → Γ.Fresh name.spelling →
    Declaration.Introduces F Γ (.var m name of) (Γ.bind name.spelling (.var τ))

/-- A V-name has a type, and is rooted at a variable or not. -/
inductive Vname.HasType (F : Selectable) : Names → Vname → Ty → Bool → Prop
  | dot {Γ : Names} {m record field types τ assignable} :
    Vname.HasType F Γ record (.record types) assignable →
    types.typeOf? field.spelling = some τ → F types field.spelling →
    Vname.HasType F Γ (.dot m record field) τ assignable
  | const {Γ : Names} {m name τ} :
    Γ.meaning? name.spelling = some (.const τ) → Vname.HasType F Γ (.simple m name) τ false
  | var {Γ : Names} {m name τ} :
    Γ.meaning? name.spelling = some (.var τ) → Vname.HasType F Γ (.simple m name) τ true
  | subscript {Γ : Names} {m array index length τ assignable} :
    Vname.HasType F Γ array (.array length τ) assignable → Expression.HasType F Γ index .int →
    Vname.HasType F Γ (.subscript m array index) τ assignable

/-- An argument may be passed for a formal. -/
inductive Argument.Fits (F : Selectable) : Names → Argument → Formal → Prop
  | const {Γ : Names} {m value τ} :
    Expression.HasType F Γ value τ → Argument.Fits F Γ (.const m value) (.const τ)
  | func {Γ : Names} {m name formals τ} :
    Γ.meaning? name.spelling = some (.func formals τ) →
    Argument.Fits F Γ (.func m name) (.func formals τ)
  | proc {Γ : Names} {m name formals} :
    Γ.meaning? name.spelling = some (.proc formals) →
    Argument.Fits F Γ (.proc m name) (.proc formals)
  | var {Γ : Names} {m vname τ} :
    Vname.HasType F Γ vname τ true → Argument.Fits F Γ (.var m vname) (.var τ)

/-- Arguments may be passed for the formals of a signature, one for each. -/
inductive Arguments.Fit (F : Selectable) : Names → Arguments → Formals → Prop
  | empty {Γ : Names} {m} : Arguments.Fit F Γ (.empty m) .nil
  | single {Γ : Names} {m argument formal} :
    Argument.Fits F Γ argument formal → Arguments.Fit F Γ (.single m argument) (.cons formal .nil)
  | multiple {Γ : Names} {m first rest formal formals} :
    Argument.Fits F Γ first formal → Arguments.Fit F Γ rest formals →
    Arguments.Fit F Γ (.multiple m first rest) (.cons formal formals)

/-- The elements of an array have one type, and so many are there. -/
inductive ArrayAggregate.HasElements (F : Selectable) : Names → ArrayAggregate → Ty → Int → Prop
  | single {Γ : Names} {m element τ} :
    Expression.HasType F Γ element τ → ArrayAggregate.HasElements F Γ (.single m element) τ 1
  | multiple {Γ : Names} {m first rest τ length} :
    Expression.HasType F Γ first τ → ArrayAggregate.HasElements F Γ rest τ length →
    ArrayAggregate.HasElements F Γ (.multiple m first rest) τ (length + 1)

/-- The fields of a record have types, and no two have one name. -/
inductive RecordAggregate.HasFields (F : Selectable) : Names → RecordAggregate → Fields → Prop
  | single {Γ : Names} {m field value τ} :
    Expression.HasType F Γ value τ →
    RecordAggregate.HasFields F Γ (.single m field value) (.cons field.spelling τ .nil)
  | multiple {Γ : Names} {m field value rest τ types} :
    Expression.HasType F Γ value τ → RecordAggregate.HasFields F Γ rest types →
    types.declares field.spelling = false →
    RecordAggregate.HasFields F Γ (.multiple m field value rest) (.cons field.spelling τ types)

end

/-- A program is well typed after the standard declarations. -/
def Program.WellTyped (F : Selectable) (program : Program) : Prop :=
  program.command.WellTyped F .standard

/-! ## The types of well-typed phrases are proper -/

/-- A name of the program means something proper, a standard name what it is declared as. -/
def Meaning.Regular (meaning : Meaning) : Prop :=
  meaning.Proper ∨ ∃ s : Standard, meaning = s.meaning

/-- All names mean something regular. -/
def Names.Regular (Γ : Names) : Prop := ∀ scope ∈ Γ, ∀ entry ∈ scope, entry.2.Regular

namespace Meaning.Regular

/-- Only operators can be regular without being proper. -/
theorem proper {meaning : Meaning} (h : meaning.Regular)
    (hunary : ∀ operand result, meaning ≠ .unary operand result)
    (hbinary : ∀ left right result, meaning ≠ .binary left right result) : meaning.Proper := by
  obtain h | ⟨s, rfl⟩ := h
  · exact h
  · obtain h | ⟨_, _, h⟩ | ⟨_, _, _, h⟩ := s.proper_meaning
    · exact h
    · exact absurd h (hunary _ _)
    · exact absurd h (hbinary _ _ _)

/-- Unary operators are standard. -/
theorem unary {operand result : Ty} (h : (Meaning.unary operand result).Regular) :
    operand.Proper ∧ result.Proper := by
  obtain h | ⟨s, h⟩ := h
  · exact h.elim
  · cases s <;> simp [Standard.meaning] at h
    obtain ⟨rfl, rfl⟩ := h
    exact ⟨trivial, trivial⟩

/-- Binary operators are standard, and take operands of any type or of proper types. -/
theorem binary {left right result : Ty} (h : (Meaning.binary left right result).Regular) :
    result.Proper ∧ ((left = .any ∧ right = .any) ∨ (left.Proper ∧ right.Proper)) := by
  obtain h | ⟨s, h⟩ := h
  · exact h.elim
  · cases s <;> simp [Standard.meaning] at h <;> obtain ⟨rfl, rfl, rfl⟩ := h <;>
      simp [Ty.Proper]

end Meaning.Regular

namespace Names

theorem regular_standard : Names.Regular .standard := by
  intro scope hscope entry hentry
  obtain rfl := List.mem_singleton.1 hscope
  obtain ⟨s, -, rfl⟩ := List.mem_map.1 hentry
  exact .inr ⟨s, rfl⟩

theorem Regular.opened {Γ : Names} (h : Γ.Regular) : Names.Regular ([] :: Γ) := by
  intro scope hscope entry hentry
  obtain rfl | hscope := List.mem_cons.1 hscope
  · simp at hentry
  · exact h scope hscope entry hentry

/-- Declarations of the program keep names regular. -/
theorem Regular.bind {Γ : Names} {name : String} {meaning : Meaning} (h : Γ.Regular)
    (hmeaning : meaning.Proper) : Names.Regular (Γ.bind name meaning) := by
  intro scope hscope entry hentry
  obtain rfl | hscope := List.mem_cons.1 hscope
  · obtain rfl | hentry := List.mem_cons.1 hentry
    · exact .inl hmeaning
    · cases Γ with
      | nil => simp at hentry
      | cons first rest => exact h first (by simp) entry hentry
  · exact h scope (List.mem_of_mem_tail hscope) entry hentry

/-- The innermost scope of some names around others. -/
theorem Regular.restored {scope : List (String × Meaning)} {Γ Δ : Names}
    (hscope : Names.Regular (scope :: Γ)) (h : Δ.Regular) : Names.Regular (scope :: Δ) := by
  intro inner hinner entry hentry
  obtain rfl | hinner := List.mem_cons.1 hinner
  · exact hscope inner (by simp) entry hentry
  · exact h inner hinner entry hentry

theorem Regular.meaning {Γ : Names} {name : String} {meaning : Meaning} (h : Γ.Regular)
    (hname : Γ.meaning? name = some meaning) : meaning.Regular := by
  obtain ⟨scope, hscope, hlookup⟩ := List.exists_of_findSome?_eq_some hname
  obtain ⟨front, back, rfl, -⟩ := List.lookup_eq_some_iff.1 hlookup
  exact h _ hscope _ (List.mem_append_right _ List.mem_cons_self)

end Names

theorem Fields.Proper.typeOf? {name : String} {τ : Ty} : {fields : Fields} → fields.Proper →
    fields.typeOf? name = some τ → τ.Proper
  | .nil, _, h => by simp [Fields.typeOf?] at h
  | .cons x of rest, hproper, h => by
    rw [Fields.typeOf?] at h
    split at h
    · obtain rfl := Option.some.inj h
      exact hproper.2.1
    · exact Fields.Proper.typeOf? hproper.2.2 h

mutual

theorem TypeDenoter.StandsFor.proper {Γ : Names} (hΓ : Γ.Regular) :
    {of : TypeDenoter} → {τ : Ty} → of.StandsFor Γ τ → τ.Proper
  | .array _ _ element, _, h => by
    cases h with
    | array _ hlength helement => exact ⟨hlength, TypeDenoter.StandsFor.proper hΓ helement⟩
  | .bool _, _, h | .char _, _, h | .int _, _, h => by cases h; trivial
  | .any _, _, h | .error _, _, h => by cases h
  | .record _ fields, _, h => by
    cases h with
    | record hfields => exact FieldDenoters.StandFor.proper hΓ hfields
  | .simple _ name, _, h => by
    cases h with
    | simple hname => exact (hΓ.meaning hname).proper (by simp) (by simp)

theorem FieldDenoters.StandFor.proper {Γ : Names} (hΓ : Γ.Regular) : {fields : FieldDenoters} → ∀
    {types}, fields.StandFor Γ types → types ≠ .nil ∧ types.Proper
  | .single _ _ of => by
    intro h
    cases h with
    | single hof => exact ⟨by simp, rfl, TypeDenoter.StandsFor.proper hΓ hof, trivial⟩
  | .multiple _ _ of rest => by
    intro h
    cases h with
    | multiple hof hrest hname =>
      exact ⟨by simp, hname, TypeDenoter.StandsFor.proper hΓ hof,
        (FieldDenoters.StandFor.proper hΓ hrest).2⟩

end

mutual

theorem Parameter.Introduces.proper : {parameter : Parameter} → ∀ {Γ Δ formal}, Γ.Regular →
    parameter.Introduces Γ formal Δ → formal.Proper ∧ Δ.Regular
  | .const _ _ of => by
    intro hΓ h
    cases h with
    | const hof _ => exact ⟨hof.proper hΓ, hΓ.bind (hof.proper hΓ)⟩
  | .func _ _ parameters result => by
    intro hΓ h
    cases h with
    | func hparameters hresult _ =>
      have hformals := (Parameters.Introduce.proper hΓ.opened hparameters).1
      exact ⟨⟨hformals, hresult.proper hΓ⟩, hΓ.bind ⟨hformals, hresult.proper hΓ⟩⟩
  | .proc _ _ parameters => by
    intro hΓ h
    cases h with
    | proc hparameters _ =>
      have hformals := (Parameters.Introduce.proper hΓ.opened hparameters).1
      exact ⟨hformals, hΓ.bind hformals⟩
  | .var _ _ of => by
    intro hΓ h
    cases h with
    | var hof _ => exact ⟨hof.proper hΓ, hΓ.bind (hof.proper hΓ)⟩

theorem Parameters.Introduce.proper : {parameters : Parameters} → ∀ {Γ Δ formals}, Γ.Regular →
    parameters.Introduce Γ formals Δ → formals.Proper ∧ Δ.Regular
  | .empty _ => by
    intro hΓ h
    cases h
    exact ⟨trivial, hΓ⟩
  | .single _ parameter => by
    intro hΓ h
    cases h with
    | single hparameter =>
      obtain ⟨hformal, hΔ⟩ := Parameter.Introduces.proper hΓ hparameter
      exact ⟨⟨hformal, trivial⟩, hΔ⟩
  | .multiple _ first rest => by
    intro hΓ h
    cases h with
    | multiple hfirst hrest =>
      obtain ⟨hformal, hΘ⟩ := Parameter.Introduces.proper hΓ hfirst
      obtain ⟨hformals, hΔ⟩ := Parameters.Introduce.proper hΘ hrest
      exact ⟨⟨hformal, hformals⟩, hΔ⟩

end

section

variable {F : Selectable}

mutual

theorem Expression.HasType.proper : {expression : Expression} → ∀ {Γ τ}, Γ.Regular →
    expression.HasType F Γ τ → τ.Proper
  | .array _ elements => by
    intro hΓ h
    cases h with
    | array helements =>
      obtain ⟨helement, hlength⟩ := ArrayAggregate.HasElements.proper hΓ helements
      exact ⟨hlength, helement⟩
  | .binary _ _ _ _ => by
    intro hΓ h
    cases h with
    | binary _ _ hoperator | comparison _ _ hoperator => exact (hΓ.meaning hoperator).binary.1
  | .call _ _ _ => by
    intro hΓ h
    cases h with
    | call hname _ => exact ((hΓ.meaning hname).proper (by simp) (by simp)).2
  | .character _ _ | .integer _ _ => fun _ h => by cases h; trivial
  | .empty _ => fun _ h => by cases h
  | .ifElse _ _ first _ => by
    intro hΓ h
    cases h with
    | ifElse _ hfirst _ => exact Expression.HasType.proper hΓ hfirst
  | .letIn _ declaration body => by
    intro hΓ h
    cases h with
    | letIn hdeclaration hbody =>
      exact Expression.HasType.proper (Declaration.Introduces.regular hΓ.opened hdeclaration) hbody
  | .record _ fields => by
    intro hΓ h
    cases h with
    | record hfields => exact RecordAggregate.HasFields.proper hΓ hfields
  | .unary _ _ _ => by
    intro hΓ h
    cases h with
    | unary _ hoperator => exact (hΓ.meaning hoperator).unary.2
  | .vname _ vname => by
    intro hΓ h
    cases h with
    | vname hvname => exact Vname.HasType.proper hΓ hvname

theorem Declaration.Introduces.regular : {declaration : Declaration} → ∀ {Γ Δ}, Γ.Regular →
    declaration.Introduces F Γ Δ → Δ.Regular
  | .binaryOperator _ _ _ _ _ | .unaryOperator _ _ _ _ => fun _ h => by cases h
  | .const _ _ value => by
    intro hΓ h
    cases h with
    | const hvalue _ =>
      have hproper := Expression.HasType.proper hΓ hvalue
      exact hΓ.bind hproper
  | .func _ _ _ _ _ => by
    intro hΓ h
    cases h with
    | func hresult hparameters _ _ =>
      have hformals := (hparameters.proper hΓ.opened).1
      exact hΓ.bind ⟨hformals, hresult.proper hΓ⟩
  | .proc _ _ _ _ => by
    intro hΓ h
    cases h with
    | proc hparameters _ _ =>
      have hformals := (hparameters.proper hΓ.opened).1
      exact hΓ.bind hformals
  | .sequential _ first second => by
    intro hΓ h
    cases h with
    | sequential hfirst hsecond =>
      exact Declaration.Introduces.regular (Declaration.Introduces.regular hΓ hfirst) hsecond
  | .type _ _ of => by
    intro hΓ h
    cases h with
    | type hof _ =>
      have hproper := hof.proper hΓ
      exact hΓ.bind hproper
  | .var _ _ of => by
    intro hΓ h
    cases h with
    | var hof _ =>
      have hproper := hof.proper hΓ
      exact hΓ.bind hproper

theorem Vname.HasType.proper : {vname : Vname} → ∀ {Γ τ assignable}, Γ.Regular → vname.HasType F Γ τ
    assignable → τ.Proper
  | .dot _ record _ => by
    intro hΓ h
    cases h with
    | dot hrecord hfield _ => exact (Vname.HasType.proper hΓ hrecord).2.typeOf? hfield
  | .simple _ _ => by
    intro hΓ h
    cases h with
    | const hname | var hname => exact (hΓ.meaning hname).proper (by simp) (by simp)
  | .subscript _ array _ => by
    intro hΓ h
    cases h with
    | subscript harray _ => exact (Vname.HasType.proper hΓ harray).2

theorem ArrayAggregate.HasElements.proper : {elements : ArrayAggregate} → ∀ {Γ τ length},
    Γ.Regular → elements.HasElements F Γ τ length → τ.Proper ∧ 0 < length
  | .single _ element => by
    intro hΓ h
    cases h with
    | single helement => exact ⟨Expression.HasType.proper hΓ helement, by decide⟩
  | .multiple _ _ rest => by
    intro hΓ h
    cases h with
    | multiple _ hrest =>
      obtain ⟨hproper, hlength⟩ := ArrayAggregate.HasElements.proper hΓ hrest
      exact ⟨hproper, by omega⟩

theorem RecordAggregate.HasFields.proper : {fields : RecordAggregate} → ∀ {Γ types}, Γ.Regular →
    fields.HasFields F Γ types → types ≠ .nil ∧ types.Proper
  | .single _ _ value => by
    intro hΓ h
    cases h with
    | single hvalue => exact ⟨by simp, rfl, Expression.HasType.proper hΓ hvalue, trivial⟩
  | .multiple _ _ value rest => by
    intro hΓ h
    cases h with
    | multiple hvalue hrest hname =>
      exact ⟨by simp, hname, Expression.HasType.proper hΓ hvalue,
        (RecordAggregate.HasFields.proper hΓ hrest).2⟩

end

end

end Triangle
