import Triangle.Source.Basic

/-!
# Cursors

A cursor is a place in a text from which it is read character by character.  It is a value: to
come back to a place it is enough to have kept the cursor that stood there.
-/

namespace Triangle

/-- A place in a text: what is still to be read, and the position of its first character. -/
structure Cursor where
  /-- What is still to be read. -/
  rest : List Char
  /-- The position of the first character to be read. -/
  position : Position
deriving DecidableEq, Inhabited

/-- A cursor before the first character of a source. -/
def Source.cursor (source : Source) : Cursor := ⟨source.text.toList, .start⟩

namespace Cursor

/-- The next character, if there is one. -/
def peek (cursor : Cursor) : Option Char := cursor.rest.head?

/-- Reads the next character.  At the end of the text there is none, and the cursor stays. -/
def bump (cursor : Cursor) : Option Char × Cursor :=
  match cursor.peek with
  | none => (none, cursor)
  | some c => (some c, ⟨cursor.rest.tail, cursor.position.step c⟩)

/-- The cursor after a number of characters, or after as many as there are. -/
def bumps : Nat → Cursor → Cursor
  | 0, cursor => cursor
  | count + 1, cursor => bumps count cursor.bump.2

/-- The text read from the place `mark` to the place `cursor` of the same text. -/
def sliceFrom (mark cursor : Cursor) : List Char :=
  mark.rest.take (mark.rest.length - cursor.rest.length)

/-- The span read since a position. -/
def spanFrom (cursor : Cursor) (start : Position) : Span :=
  .between start cursor.position

end Cursor

/-- The span of a source from the character with index `first` to the one before `last`. -/
def Source.spanOf (source : Source) (first last : Nat) : Span :=
  let mark := source.cursor.bumps first
  (mark.bumps (last - first)).spanFrom mark.position

end Triangle
