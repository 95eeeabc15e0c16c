import Triangle.Syntax.Outline
import Triangle.Text.Pad
import Triangle.Typing.Annotations

/-!
# Showing a tree

A tree is shown as its outline, a line for each node, indented by its depth.  Terminals are shown
with their spelling, and expressions and V-names with their type where it is known.
-/

namespace Triangle

/-- What the line of a node says. -/
def Entry.describe (annotations : Annotations) (entry : Entry) : String :=
  match entry.kind with
  | .terminal => entry.label ++ " " ++ entry.name.getD ""
  | .typed =>
    match annotations.typeOf? entry.mark.id with
    | some ty => entry.label ++ " : " ++ ty.describe
    | none => entry.label
  | .phrase => entry.label

/-- The line of a node. -/
def Entry.line (annotations : Annotations) (entry : Entry) : String :=
  Text.spaces (2 * entry.depth) ++ entry.describe annotations ++ "\n"

/-- A program as text, with what is known about it. -/
def Program.render (program : Program) (annotations : Annotations) : String :=
  String.join (program.outline.map (·.line annotations))

end Triangle
