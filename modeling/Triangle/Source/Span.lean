import Triangle.Source.Position

/-!
# Spans

A span is the stretch of a text that a token, a phrase or a complaint covers.  It starts at its
first position and stops before its last one, and it is never empty: where nothing was read, it
covers the one column at its start.
-/

namespace Triangle

/-- A stretch of a text, from `start` up to and without `stop`. -/
structure Span where
  /-- The first position covered. -/
  start : Position
  /-- The position just after the stretch. -/
  stop : Position
deriving DecidableEq, Inhabited

namespace Span

/-- The span read between two positions, or the single column at `start` if nothing was read. -/
def between (start stop : Position) : Span :=
  ⟨start, if start < stop then stop else start.advance⟩

/-- The span from the start of one span to the stop of another. -/
def join (first last : Span) : Span := ⟨first.start, last.stop⟩

/-- A span by its two positions. -/
def endpoints (span : Span) : String :=
  span.start.describe ++ "-" ++ span.stop.describe

/-- A span of the text called `name`, as it is written in messages: its only position, or its
first and its last one. -/
def describe (name : String) (span : Span) : String :=
  name ++ ":" ++
    if span.stop ≤ span.start.advance then
      span.start.describe
    else
      "[" ++ endpoints ⟨span.start, span.stop.back⟩ ++ "]"

end Span

end Triangle
