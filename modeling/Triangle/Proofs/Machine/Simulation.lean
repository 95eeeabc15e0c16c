import Triangle.Proofs.Machine.Routines
import Triangle.Proofs.Machine.Selection

/-!
# Code does what phrases mean

For phrases that declare no routines: if a phrase has a result, then its code, run in a situation,
has the same.  The induction is on the fuel that the result takes, because a loop is as large as
itself after an iteration.
-/

namespace Triangle

open Machine

/-! ## Phrases without routines -/

mutual

/-- No routine is declared in a command. -/
def Command.routineFree : Command → Bool
  | .assign _ target value => target.routineFree && value.routineFree
  | .doubleAssign _ first second firstValue secondValue =>
    first.routineFree && second.routineFree && firstValue.routineFree && secondValue.routineFree
  | .call _ _ arguments => arguments.routineFree
  | .empty _ => true
  | .ifElse _ condition first second =>
    condition.routineFree && first.routineFree && second.routineFree
  | .letIn _ declaration body => declaration.routineFree && body.routineFree
  | .sequential _ first second => first.routineFree && second.routineFree
  | .whileDo _ condition body => condition.routineFree && body.routineFree
  | .loopWhile _ prelude condition body =>
    prelude.routineFree && condition.routineFree && body.routineFree

/-- No routine is declared in an expression. -/
def Expression.routineFree : Expression → Bool
  | .array _ elements => elements.routineFree
  | .binary _ left _ right => left.routineFree && right.routineFree
  | .call _ _ arguments => arguments.routineFree
  | .character _ _ | .empty _ | .integer _ _ => true
  | .ifElse _ condition first second =>
    condition.routineFree && first.routineFree && second.routineFree
  | .letIn _ declaration body => declaration.routineFree && body.routineFree
  | .record _ fields => fields.routineFree
  | .unary _ _ operand => operand.routineFree
  | .vname _ vname => vname.routineFree

/-- A declaration is not of a routine, and no routine is declared in it. -/
def Declaration.routineFree : Declaration → Bool
  | .func _ _ _ _ _ | .proc _ _ _ _ => false
  | .const _ _ value => value.routineFree
  | .sequential _ first second => first.routineFree && second.routineFree
  | .binaryOperator _ _ _ _ _ | .unaryOperator _ _ _ _ | .type _ _ _ | .var _ _ _ => true

/-- No routine is declared in a V-name. -/
def Vname.routineFree : Vname → Bool
  | .dot _ record _ => record.routineFree
  | .simple _ _ => true
  | .subscript _ array index => array.routineFree && index.routineFree

/-- No routine is declared in an argument. -/
def Argument.routineFree : Argument → Bool
  | .const _ value => value.routineFree
  | .func _ _ | .proc _ _ => true
  | .var _ vname => vname.routineFree

/-- No routine is declared in arguments. -/
def Arguments.routineFree : Arguments → Bool
  | .empty _ => true
  | .single _ argument => argument.routineFree
  | .multiple _ first rest => first.routineFree && rest.routineFree

/-- No routine is declared in the elements of an array. -/
def ArrayAggregate.routineFree : ArrayAggregate → Bool
  | .single _ element => element.routineFree
  | .multiple _ first rest => first.routineFree && rest.routineFree

/-- No routine is declared in the fields of a record. -/
def RecordAggregate.routineFree : RecordAggregate → Bool
  | .single _ _ value => value.routineFree
  | .multiple _ _ value rest => value.routineFree && rest.routineFree

end

/-! ## Code in place -/

section

variable {device : Device} {A : Annotations} {step : Step} {code block : List Instruction}
  {r : Draft} {m m' : Memory}

/-- Instructions that were emitted are performed. -/
theorem Machine.Performs.reaches (h : Performs step block m m') (hcode : r.code ++ block <+: code) :
    Reaches step code ⟨r.address, m⟩ ⟨r.address + block.length, m'⟩ := by
  obtain ⟨rest, rfl⟩ := hcode
  refine h fun i instruction hi => ?_
  rw [Draft.address, List.append_assoc, List.getElem?_append_right (Nat.le_add_right _ _),
    Nat.add_sub_cancel_left, List.getElem?_append_left (List.getElem?_eq_some_iff.1 hi).1, hi]

/-- An instruction that was emitted is at its address. -/
theorem Draft.getElem?_of_emit {instruction : Instruction}
    (hcode : (r.emit [instruction]).code <+: code) : code[r.address]? = some instruction := by
  obtain ⟨rest, rfl⟩ := hcode
  simp [Draft.address]

/-! ## Statements -/

variable (device A step code)

/-- What an expression yields is pushed. -/
def Expression.SimulatedAt (fuel : Nat) (e : Expression) : Prop :=
  ∀ ⦃Γ : Context⦄ ⦃τ : Ty⦄ ⦃F : List Parameter⦄ ⦃frame : Frame⦄ ⦃p q : Draft⦄
    ⦃size : Int⦄ ⦃env : Environment⦄ ⦃layout : Layout⦄ ⦃temps : List Int⦄ ⦃s : State⦄ ⦃m : Memory⦄
    ⦃v : Value⦄, e.routineFree = true → e.Typed A Γ τ → e.Emits A F frame p size q →
    q.code <+: code → Situation Γ env p.entities frame layout temps s m →
    e.evaluate device A fuel env s = some v →
    Reaches step code ⟨p.address, m⟩ ⟨q.address, m.push v.words⟩ ∧ v.OfType τ ∧ v.defined = true

/-- What expressions yield is pushed. -/
def Expression.Simulated (fuel : Nat) : Prop :=
  ∀ ⦃e : Expression⦄, Expression.SimulatedAt device A step code fuel e

/-- The elements of an array are pushed. -/
def ArrayAggregate.Simulated (fuel : Nat) : Prop :=
  ∀ ⦃elements : ArrayAggregate⦄ ⦃Γ : Context⦄ ⦃τ : Ty⦄ ⦃length : Int⦄ ⦃F : List Parameter⦄
    ⦃frame : Frame⦄ ⦃p q : Draft⦄ ⦃size : Int⦄ ⦃env : Environment⦄ ⦃layout : Layout⦄
    ⦃temps : List Int⦄ ⦃s : State⦄ ⦃m : Memory⦄ ⦃values : List Value⦄,
    elements.routineFree = true → elements.Typed A Γ τ length → elements.Emits A F frame p size q →
    q.code <+: code → Situation Γ env p.entities frame layout temps s m →
    elements.evaluate device A fuel env s = some values →
    Reaches step code ⟨p.address, m⟩ ⟨q.address, m.push (values.flatMap Value.words)⟩ ∧
      (∀ v ∈ values, v.OfType τ ∧ v.defined = true) ∧ (values.length : Int) = length

/-- The fields of a record are pushed. -/
def RecordAggregate.Simulated (fuel : Nat) : Prop :=
  ∀ ⦃fields : RecordAggregate⦄ ⦃Γ : Context⦄ ⦃fs : Fields⦄ ⦃F : List Parameter⦄
    ⦃frame : Frame⦄ ⦃p q : Draft⦄ ⦃size : Int⦄ ⦃env : Environment⦄ ⦃layout : Layout⦄
    ⦃temps : List Int⦄ ⦃s : State⦄ ⦃m : Memory⦄ ⦃parts : Parts⦄,
    fields.routineFree = true → fields.Typed A Γ fs → fields.Emits A F frame p size q →
    q.code <+: code → Situation Γ env p.entities frame layout temps s m →
    fields.evaluate device A fuel env s = some parts →
    Reaches step code ⟨p.address, m⟩ ⟨q.address, m.push (Value.composite parts).words⟩ ∧
      parts.OfFields fs ∧ parts.defined = true

/-- The subscripts of a V-name are computed. -/
def Vname.Simulated (fuel : Nat) : Prop :=
  ∀ ⦃vname : Vname⦄ ⦃Γ : Context⦄ ⦃τ : Ty⦄ ⦃assignable : Bool⦄ ⦃F : List Parameter⦄
    ⦃frame : Frame⦄ ⦃p q : Draft⦄ ⦃access : Access⦄ ⦃env : Environment⦄ ⦃layout : Layout⦄
    ⦃temps : List Int⦄ ⦃s : State⦄ ⦃m : Memory⦄ ⦃place : Place⦄,
    vname.routineFree = true → vname.Typed A Γ τ assignable → vname.Emits A F frame p access q →
    q.code <+: code → Situation Γ env p.entities frame layout temps s m →
    vname.identify device A fuel env s = some place →
    ∃ index, Reaches step code ⟨p.address, m⟩ ⟨q.address, access.after index m⟩ ∧
      (access.indexed = false → index = 0) ∧
      access.Selects layout s place τ assignable index

/-- What an argument passes is pushed. -/
def Argument.Simulated (fuel : Nat) : Prop :=
  ∀ ⦃argument : Argument⦄ ⦃Γ : Context⦄ ⦃formal : Formal⦄ ⦃F : List Parameter⦄
    ⦃frame : Frame⦄ ⦃p q : Draft⦄ ⦃size : Int⦄ ⦃env : Environment⦄ ⦃layout : Layout⦄
    ⦃temps : List Int⦄ ⦃s : State⦄ ⦃m : Memory⦄ ⦃passed : Denotee⦄,
    argument.routineFree = true → argument.Typed A Γ formal → formal.Data →
    argument.Emits A F frame p size q →
    q.code <+: code → Situation Γ env p.entities frame layout temps s m →
    argument.pass device A fuel env s = some passed →
    ∃ words, Reaches step code ⟨p.address, m⟩ ⟨q.address, m.push words⟩ ∧
      (Formals.cons formal .nil).Passed layout [passed] words

/-- What arguments pass is pushed. -/
def Arguments.Simulated (fuel : Nat) : Prop :=
  ∀ ⦃arguments : Arguments⦄ ⦃Γ : Context⦄ ⦃formals : Formals⦄ ⦃F : List Parameter⦄
    ⦃frame : Frame⦄ ⦃p q : Draft⦄ ⦃size : Int⦄ ⦃env : Environment⦄ ⦃layout : Layout⦄
    ⦃temps : List Int⦄ ⦃s : State⦄ ⦃m : Memory⦄ ⦃passed : List Denotee⦄,
    arguments.routineFree = true → arguments.Typed A Γ formals → formals.Data →
    arguments.Emits A F frame p size q →
    q.code <+: code → Situation Γ env p.entities frame layout temps s m →
    arguments.pass device A fuel env s = some passed →
    ∃ words, Reaches step code ⟨p.address, m⟩ ⟨q.address, m.push words⟩ ∧
      formals.Passed layout passed words

/-- What a declaration introduces is pushed as further blocks. -/
def Declaration.Simulated (fuel : Nat) : Prop :=
  ∀ ⦃declaration : Declaration⦄ ⦃Γ Δ : Context⦄ ⦃F : List Parameter⦄ ⦃frame above : Frame⦄
    ⦃p q : Draft⦄ ⦃size : Int⦄ ⦃env inner : Environment⦄ ⦃layout : Layout⦄ ⦃s s' : State⦄
    ⦃m : Memory⦄,
    declaration.routineFree = true → declaration.Typed A Γ Δ →
    declaration.Emits A F frame p size q → frame.expand size = .ok above →
    q.code <+: code → Situation Γ env p.entities frame layout [] s m →
    declaration.elaborate device A fuel env s = some (inner, s') →
    ∃ words new, Reaches step code ⟨p.address, m⟩ ⟨q.address, m.push words⟩ ∧
      (words.length : Int) = size ∧
      Situation Δ inner q.entities above (layout ++ new) [] s' (m.push words)

/-- What a command does is done. -/
def Command.SimulatedAt (fuel : Nat) (command : Command) : Prop :=
  ∀ ⦃Γ : Context⦄ ⦃F : List Parameter⦄ ⦃frame : Frame⦄
    ⦃p q : Draft⦄ ⦃env : Environment⦄ ⦃layout : Layout⦄ ⦃s s' : State⦄ ⦃m : Memory⦄,
    command.routineFree = true → command.Typed A Γ → command.Emits A F frame p q →
    q.code <+: code → Situation Γ env p.entities frame layout [] s m →
    command.execute device A fuel env s = some s' →
    ∃ m', Reaches step code ⟨p.address, m⟩ ⟨q.address, m'⟩ ∧
      Situation Γ env p.entities frame layout [] s' m'

/-- What commands do is done. -/
def Command.Simulated (fuel : Nat) : Prop :=
  ∀ ⦃command : Command⦄, Command.SimulatedAt device A step code fuel command

/-- All phrases are simulated by their code, with some fuel. -/
structure Simulation (fuel : Nat) : Prop where
  expression : Expression.Simulated device A step code fuel
  elements : ArrayAggregate.Simulated device A step code fuel
  fields : RecordAggregate.Simulated device A step code fuel
  vname : Vname.Simulated device A step code fuel
  argument : Argument.Simulated device A step code fuel
  arguments : Arguments.Simulated device A step code fuel
  declaration : Declaration.Simulated device A step code fuel
  command : Command.Simulated device A step code fuel

end

end Triangle
