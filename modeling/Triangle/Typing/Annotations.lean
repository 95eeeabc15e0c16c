import Triangle.Syntax.NodeMap
import Triangle.Typing.Meaning

/-!
# Annotations

What checking finds out about a tree, filed under its nodes: the types of expressions, V-names,
type denoters, declarations and parameters, the declarations that names and operators refer to,
and which V-names are variables.
-/

namespace Triangle

/-- What is known about the nodes of a tree. -/
structure Annotations where
  types : NodeMap Ty := .empty
  referents : NodeMap Referent := .empty
  /-- The V-names that are variables. -/
  assignable : NodeMap Unit := .empty

namespace Annotations

/-- Nothing is known. -/
def empty : Annotations := {}

instance : Inhabited Annotations := ⟨empty⟩

/-- The type of a node. -/
def typeOf? (annotations : Annotations) (id : NodeId) : Option Ty :=
  annotations.types.get? id

/-- The declaration that a name or operator refers to. -/
def referentOf? (annotations : Annotations) (id : NodeId) : Option Referent :=
  annotations.referents.get? id

/-- Whether a V-name is a variable. -/
def isVariable (annotations : Annotations) (id : NodeId) : Bool :=
  (annotations.assignable.get? id).isSome

/-- The number of words of a node's type; a node without a type takes up none. -/
def sizeOf (annotations : Annotations) (id : NodeId) : Checked Int :=
  match annotations.typeOf? id with
  | some ty => ty.size
  | none => .ok 0

/-- Records the type of a node. -/
def withType (annotations : Annotations) (id : NodeId) (ty : Ty) : Annotations :=
  { annotations with types := annotations.types.insert id ty }

/-- Records the declaration that a name refers to. -/
def withReferent (annotations : Annotations) (id : NodeId) (referent : Referent) : Annotations :=
  { annotations with referents := annotations.referents.insert id referent }

/-- Records that a V-name is a variable. -/
def withVariable (annotations : Annotations) (id : NodeId) : Annotations :=
  { annotations with assignable := annotations.assignable.insert id () }

end Annotations

end Triangle
