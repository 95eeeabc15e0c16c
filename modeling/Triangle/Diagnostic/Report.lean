import Triangle.Diagnostic.Log
import Triangle.Source.Basic
import Triangle.Text.Pad

/-!
# The report shown to the user

Each diagnostic is a heading, its place, and the lines of the text it is about, set behind a
margin with their numbers; if these are a single line, the stretch itself is underlined.  A last
line counts errors and warnings.  Without diagnostics the report is empty.
-/

namespace Triangle

open Text

/-- The lines of the text that a span touches, numbered behind a margin of the given width. -/
def Source.excerpt (source : Source) (span : Span) (width : Nat) : String :=
  let lines := source.lines
  let numbers := List.range' span.start.line (span.stop.line + 1 - span.start.line)
  String.join <| numbers.map fun number =>
    alignRight width (toString number) ++ " | " ++ String.ofList (lineOf lines number) ++ "\n"

/-- The line that points at a span within a single line of the text; a longer span has none. -/
def Span.underline (span : Span) (width : Nat) : String :=
  if span.start.line = span.stop.line then
    let first := span.start.column
    let last := max span.stop.column (first + 1)
    spaces width ++ " | " ++ spaces (first - 1) ++ rule '^' (last - first) ++ "\n"
  else
    ""

variable {ε : Type} [Complaint ε]

/-- A diagnostic with the part of the text it is about. -/
def Diagnostic.report (source : Source) (diagnostic : Diagnostic ε) : String :=
  let span := diagnostic.span
  let width := (toString span.stop.line).length
  (Complaint.phase diagnostic.complaint).word ++ " " ++ diagnostic.severity.word ++ ": " ++
      Complaint.message diagnostic.complaint ++ "\n" ++
    " --> " ++ span.describe source.name ++ "\n" ++
    spaces width ++ " |\n" ++
    source.excerpt span width ++
    span.underline width ++
    "\n"

/-- A number of things of one kind. -/
def countOf (count : Nat) (thing : String) : String :=
  toString count ++ " " ++ thing ++ if count = 1 then "" else "s"

/-- Everything in a log about a source, and how much it is. -/
def Log.reportOn (log : Log ε) (source : Source) : String :=
  if log.diagnostics.isEmpty then
    ""
  else
    let warnings := log.diagnostics.length - log.errors
    String.join (log.diagnostics.map (·.report source)) ++
      countOf log.errors "error" ++ ", " ++ countOf warnings "warning" ++ " reported\n"

end Triangle
