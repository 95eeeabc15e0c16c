import Triangle.Source.Span

/-!
# Source texts

A source is a text with the name it goes by in messages.  Messages quote it line by line; a line
is quoted without its line feed and without the carriage returns before it.
-/

namespace Triangle

/-- A named program text. -/
structure Source where
  /-- The name shown in messages, usually a path. -/
  name : String
  /-- The program text. -/
  text : String
deriving DecidableEq, Inhabited

/-- Cuts a text at its line feeds; a text with `n` of them has `n + 1` lines. -/
def splitLines : List Char → List (List Char)
  | [] => [[]]
  | c :: text =>
    if c = '\n' then
      [] :: splitLines text
    else
      match splitLines text with
      | [] => [[c]]
      | line :: lines => (c :: line) :: lines

/-- A line without the carriage returns at its end. -/
def trimReturns (line : List Char) : List Char :=
  (line.reverse.dropWhile fun c => c = '\r').reverse

/-- The line with the given number, counted from one, as messages quote it.  There is nothing on
a line that does not exist. -/
def lineOf (lines : List (List Char)) : Nat → List Char
  | 0 => []
  | number + 1 => trimReturns (lines.getD number [])

namespace Source

/-- The lines of a source, without their line feeds. -/
def lines (source : Source) : List (List Char) :=
  splitLines source.text.toList

/-- The line with the given number as messages quote it. -/
def line (source : Source) (number : Nat) : List Char :=
  lineOf source.lines number

end Source

end Triangle
