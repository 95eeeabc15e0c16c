/-!
# Positions

A position is a line and a column, both counted from one.  Reading a character moves it: a line
feed to the start of the next line, a tab to the next tab stop, anything else one column on.

Positions are ordered by line first, so that reading on only ever moves forward.
-/

namespace Triangle

/-- A place in a text, just before some character of it. -/
structure Position where
  /-- The line, counted from one. -/
  line : Nat
  /-- The column, counted from one. -/
  column : Nat
deriving DecidableEq

namespace Position

/-- The position before the first character of a text. -/
def start : Position := ⟨1, 1⟩

instance : Inhabited Position := ⟨start⟩

instance : LT Position where
  lt p q := p.line < q.line ∨ (p.line = q.line ∧ p.column < q.column)

instance : LE Position where
  le p q := p.line < q.line ∨ (p.line = q.line ∧ p.column ≤ q.column)

instance (p q : Position) : Decidable (p < q) :=
  inferInstanceAs (Decidable (p.line < q.line ∨ (p.line = q.line ∧ p.column < q.column)))

instance (p q : Position) : Decidable (p ≤ q) :=
  inferInstanceAs (Decidable (p.line < q.line ∨ (p.line = q.line ∧ p.column ≤ q.column)))

/-- The next column of the same line. -/
def advance (p : Position) : Position := ⟨p.line, p.column + 1⟩

/-- The previous column of the same line, or the first one. -/
def back (p : Position) : Position := ⟨p.line, max (p.column - 1) 1⟩

/-- The start of the next line. -/
def newline (p : Position) : Position := ⟨p.line + 1, 1⟩

/-- The distance between two tab stops. -/
def tabWidth : Nat := 4

/-- The next tab stop of the same line. -/
def tab (p : Position) : Position := ⟨p.line, 1 + ((p.column - 1) / tabWidth + 1) * tabWidth⟩

/-- The position after reading one character. -/
def step (p : Position) (c : Char) : Position :=
  if c = '\n' then p.newline else if c = '\t' then p.tab else p.advance

/-- The position after reading a run of characters. -/
def after (p : Position) (text : List Char) : Position :=
  text.foldl step p

/-- A position as it is written in messages. -/
def describe (p : Position) : String :=
  toString p.line ++ ":" ++ toString p.column

/-! ## Order -/

theorem lt_iff (p q : Position) :
    p < q ↔ p.line < q.line ∨ (p.line = q.line ∧ p.column < q.column) := Iff.rfl

theorem lt_advance (p : Position) : p < p.advance := by
  simp [lt_iff, advance]

/-- Reading a character moves a position strictly forward. -/
theorem lt_step (p : Position) (c : Char) (h : 0 < p.column) : p < p.step c := by
  unfold step
  split
  · simp [lt_iff, newline]
  · split
    · refine Or.inr ⟨rfl, ?_⟩
      show p.column < 1 + ((p.column - 1) / 4 + 1) * 4
      omega
    · exact lt_advance p

@[simp] theorem after_nil (p : Position) : p.after [] = p := rfl

@[simp] theorem after_cons (p : Position) (c : Char) (text : List Char) :
    p.after (c :: text) = (p.step c).after text := rfl

theorem after_append (p : Position) (first second : List Char) :
    p.after (first ++ second) = (p.after first).after second := by
  simp [after, List.foldl_append]

end Position

end Triangle
