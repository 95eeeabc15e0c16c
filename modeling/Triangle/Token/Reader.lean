import Triangle.Diagnostic.Problem
import Triangle.Source.Basic

/-!
# Reading tokens one by one

A reader hands out the tokens of a text in order and enters the mistakes found on the way into
the log, each when its token is read.  Once the log has halted there is nothing more to read: the
text ends where the reader stands.  After the end of the text it keeps on answering with the end.
-/

namespace Triangle

/-- A place between two tokens of a text. -/
structure Reader where
  /-- The tokens still to be read. -/
  upcoming : List Lexeme
  /-- Where the last token read ends. -/
  place : Position
  /-- The complaints so far. -/
  log : Log Problem

namespace Reader

/-- A reader before the first token of a source. -/
def ofSource (source : Source) (failFast : Bool) : Reader :=
  ⟨lexemes source.text, .start, .empty failFast⟩

/-- Where the reader stands after a token: behind it, or before the end of the text. -/
def placeAfter (token : Token) : Position :=
  if token.kind = .endOfText then token.span.start else token.span.stop

/-- The log after reading a token. -/
def logAfter (log : Log Problem) (lexeme : Lexeme) : Log Problem :=
  match lexeme.fault with
  | some (span, fault) => log.report span (.lexical fault)
  | none => log

/-- The next token. -/
def next (reader : Reader) : Token × Reader :=
  if reader.log.halted then
    (.endAt reader.place, reader)
  else
    match reader.upcoming with
    | [] => (.endAt reader.place, reader)
    | lexeme :: rest =>
      (lexeme.token, ⟨rest, placeAfter lexeme.token, logAfter reader.log lexeme⟩)

/-- A token that is read takes one off those to come, unless it is the end of the text. -/
theorem next_upcoming_length (reader : Reader) (h : reader.next.1.kind ≠ .endOfText) :
    reader.next.2.upcoming.length < reader.upcoming.length := by
  unfold next at *
  split at h
  · simp [Token.endAt] at h
  · split at h
    · simp [Token.endAt] at h
    · rename_i hlog _ _ _ heq
      simp [hlog, heq]

/-- The next token that could be read. -/
def significant (reader : Reader) : Token × Reader :=
  if reader.next.1.kind = .faulty then significant reader.next.2 else reader.next
termination_by reader.upcoming.length
decreasing_by
  rename_i h
  exact next_upcoming_length reader (by rw [h]; decide)

/-- All tokens up to the end of the text, and the reader after it. -/
def tokens (reader : Reader) : List Token × Reader :=
  if reader.next.1.kind = .endOfText then
    ([reader.next.1], reader.next.2)
  else
    let rest := reader.next.2.tokens
    (reader.next.1 :: rest.1, rest.2)
termination_by reader.upcoming.length
decreasing_by
  rename_i h
  exact next_upcoming_length reader h

end Reader

end Triangle
