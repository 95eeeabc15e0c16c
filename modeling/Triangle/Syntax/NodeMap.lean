import Std.Data.TreeMap
import Triangle.Syntax.Tree

/-!
# Facts filed under nodes

A node map keeps at most one value for each node.  `NodeMap.get?` is the view of it: a map is
known by what it answers for each node.
-/

namespace Triangle

/-- Values filed under identities of nodes. -/
structure NodeMap (α : Type) where
  entries : Std.TreeMap NodeId α := {}

namespace NodeMap

variable {α : Type}

/-- The map that knows nothing. -/
def empty : NodeMap α := {}

instance : Inhabited (NodeMap α) := ⟨empty⟩

/-- What is filed under a node. -/
def get? (map : NodeMap α) (id : NodeId) : Option α := map.entries[id]?

/-- Files a value under a node, in the place of any other. -/
def insert (map : NodeMap α) (id : NodeId) (value : α) : NodeMap α :=
  ⟨map.entries.insert id value⟩

@[simp] theorem get?_empty (id : NodeId) : (empty : NodeMap α).get? id = none := by
  simp [empty, get?]

theorem get?_insert (map : NodeMap α) (id other : NodeId) (value : α) :
    (map.insert id value).get? other = if id = other then some value else map.get? other := by
  simp [insert, get?, Std.TreeMap.getElem?_insert]

end NodeMap

end Triangle
