import Triangle.Proofs.Typing.Rules
import Triangle.Proofs.Typing.Scoping

/-!
# What names mean to the checker

The scopes of the checker keep for every name what it refers to and what it means.  The typing rules
speak of the meanings alone.
-/

namespace Triangle

/-- What the names of a scope mean. -/
def Scope.names (scope : Scope) : List (String × Meaning) :=
  scope.map fun entry => (entry.1, entry.2.meaning)

namespace Scopes

/-- What the names in nested scopes mean. -/
def names (scopes : Scopes) : Names := (scopes.nested ++ [scopes.outermost]).map Scope.names

theorem names_initial : initial.names = .standard := by
  simp [names, initial, Scope.names, standardScope, Names.standard]

theorem meaning?_names (scopes : Scopes) (name : String) :
    scopes.names.meaning? name = (scopes.find? name).map Binding.meaning :=
  scopes.findSome?_view Binding.meaning name

theorem names_extended (scopes : Scopes) (name : String) (binding : Binding) :
    (scopes.extended [(name, binding)]).names = scopes.names.bind name binding.meaning :=
  scopes.view_extended Binding.meaning name binding

theorem names_extended_opened (scopes : Scopes) (new : Scope) :
    (scopes.opened.extended new).names = new.names :: scopes.names :=
  scopes.view_extended_opened Binding.meaning new

theorem fresh_names_iff {scopes : Scopes} {name : String} {binding : Binding} :
    scopes.names.Fresh name ↔ ∃ scopes', scopes.enter? name binding = some scopes' :=
  lookup_headD_view_eq_none_iff Binding.meaning

end Scopes

/-- What the names known in a state mean. -/
def CheckState.names (s : CheckState) : Names := s.scopes.names

theorem CheckState.names_initial (log : Log Problem) :
    CheckState.names ⟨.initial, .empty, log⟩ = .standard :=
  Scopes.names_initial

/-- A field that is found has the type it was given. -/
theorem Fields.typeOf?_of_find {name : String} {found : Option (Int × Ty)}
    {fields : Fields} {before}
    (h : fields.find name before = .ok found) : fields.typeOf? name = found.map Prod.snd := by
  cases fields with
  | nil =>
    cases h
    rfl
  | cons x of rest =>
    rw [Fields.find] at h
    rw [Fields.typeOf?]
    split at h
    · rename_i hx
      cases h
      rw [if_pos hx]
      rfl
    · rename_i hx
      obtain ⟨_, -, h⟩ := bind_eq_ok_iff.1 h
      obtain ⟨_, -, h⟩ := bind_eq_ok_iff.1 h
      rw [if_neg hx]
      exact Fields.typeOf?_of_find h

end Triangle
