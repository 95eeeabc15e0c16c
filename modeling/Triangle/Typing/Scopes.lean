import Triangle.Typing.Meaning

/-!
# Scopes

The names that can be used at a point of the program, in nested scopes.  A name is looked up from
the innermost scope outwards, so that a declaration hides those of the same name further out.
Within one scope the first declaration of a name stands.  The outermost scope holds the standard
environment and is never closed.
-/

namespace Triangle

/-- What a scope keeps for a name. -/
structure Binding where
  /-- The declaration the name refers to. -/
  referent : Referent
  /-- What the name means. -/
  meaning : Meaning

/-- The names of one scope, the latest first. -/
abbrev Scope := List (String × Binding)

/-- Nested scopes. -/
structure Scopes where
  /-- The scope around all others. -/
  outermost : Scope
  /-- The scopes inside it, the innermost first. -/
  nested : List Scope

namespace Scopes

/-- The scope of the standard environment. -/
def standardScope : Scope :=
  Standard.all.map fun declaration =>
    (declaration.spelling, ⟨.standard declaration, declaration.meaning⟩)

/-- The scopes before any declaration of the program. -/
def initial : Scopes := ⟨standardScope, []⟩

/-- Opens an empty scope inside all others. -/
def opened (scopes : Scopes) : Scopes :=
  { scopes with nested := [] :: scopes.nested }

/-- Closes the innermost scope. -/
def closed (scopes : Scopes) : Scopes :=
  { scopes with nested := scopes.nested.tail }

/-- The innermost scope. -/
def innermost (scopes : Scopes) : Scope :=
  scopes.nested.headD scopes.outermost

/-- Puts back a scope that was closed. -/
def restored (scopes : Scopes) (scope : Scope) : Scopes :=
  { scopes with nested := scope :: scopes.nested }

/-- Introduces a name into the innermost scope, unless the scope has one of that spelling. -/
def enter? (scopes : Scopes) (name : String) (binding : Binding) : Option Scopes :=
  if (scopes.innermost.lookup name).isSome then
    none
  else
    match scopes.nested with
    | [] => some { scopes with outermost := (name, binding) :: scopes.outermost }
    | scope :: rest => some { scopes with nested := ((name, binding) :: scope) :: rest }

/-- What a name refers to and means, from the innermost scope outwards. -/
def find? (scopes : Scopes) (name : String) : Option Binding :=
  (scopes.nested ++ [scopes.outermost]).findSome? fun scope => scope.lookup name

end Scopes

end Triangle
