import Triangle.Diagnostic.Problem
import Triangle.Typing.Annotations
import Triangle.Typing.Scopes

/-!
# The state of checking

Checking walks a tree with the scopes at hand, the annotations made so far and the log.  The only
thing that ends it early is an overflow in the offset of a field.
-/

namespace Triangle

/-- What checking has at hand. -/
structure CheckState where
  scopes : Scopes
  annotations : Annotations
  log : Log Problem

/-- A step of checking. -/
abbrev Check := StateT CheckState Checked

namespace Check

/-- Reports a mistake. -/
def report (span : Span) (fault : ContextFault) : Check Unit :=
  modify fun state => { state with log := state.log.report span (.contextual fault) }

/-- Requires a phrase of one type to be equivalent to another. -/
def require (expected found : Ty) (span : Span) : Check Unit :=
  unless found.equivalent expected do
    report span (.typeMismatch expected found)

/-- Records the type of a node, and passes it on. -/
def typed (id : NodeId) (ty : Ty) : Check Ty := do
  modify fun state => { state with annotations := state.annotations.withType id ty }
  return ty

/-- Opens a scope. -/
def openScope : Check Unit :=
  modify fun state => { state with scopes := state.scopes.opened }

/-- Closes the innermost scope, and passes it on. -/
def closeScope : Check Scope :=
  modifyGet fun state => (state.scopes.innermost, { state with scopes := state.scopes.closed })

/-- Puts back a scope. -/
def restoreScope (scope : Scope) : Check Unit :=
  modify fun state => { state with scopes := state.scopes.restored scope }

/-- Introduces a name into the innermost scope. -/
def declare (name : Terminal) (declaration : NodeId) (meaning : Meaning) : Check Unit := do
  match (← get).scopes.enter? name.spelling ⟨.node declaration, meaning⟩ with
  | some scopes => modify fun state => { state with scopes }
  | none => report name.mark.span (.redeclared name.spelling)

/-- What a name or operator means; what it refers to is recorded. -/
def resolve (name : Terminal) : Check (Option Meaning) := do
  match (← get).scopes.find? name.spelling with
  | some binding =>
    modify fun state =>
      { state with annotations := state.annotations.withReferent name.mark.id binding.referent }
    return some binding.meaning
  | none =>
    report name.mark.span (.undeclared name.spelling)
    return none

/-- Reports that a name does not have the role it is used in. -/
def wrongRole (name : Terminal) (expected : Role) : Check Unit :=
  report name.mark.span (.wrongRole name.spelling expected)

/-- The signature of a procedure. -/
def procedure (name : Terminal) : Check (Option Formals) := do
  match ← resolve name with
  | some (.proc formals) => return some formals
  | some _ =>
    wrongRole name .procedure
    return none
  | none => return none

/-- The signature and the result type of a function. -/
def function (name : Terminal) : Check (Option (Formals × Ty)) := do
  match ← resolve name with
  | some (.func formals result) => return some (formals, result)
  | some _ =>
    wrongRole name .function
    return none
  | none => return none

/-- Puts a field before others, which must not have its name. -/
def prependField (name : Terminal) (of : Ty) (rest : Fields) : Check Fields := do
  if rest.declares name.spelling then
    report name.mark.span (.duplicateField name.spelling)
  return .cons name.spelling of rest

end Check

end Triangle
