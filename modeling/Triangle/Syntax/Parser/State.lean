import Triangle.Syntax.Tree
import Triangle.Token.Reader

/-!
# The state of a parser

A parser looks at one token at a time.  It keeps the span of the token it passed last, from which
the span of a finished phrase is made, and it hands out the identities of nodes.

Parsers recurse under a bound on how deeply their calls may nest; where the bound is used up they
give no result.  Nothing else makes them fail: a mistake in the program goes into the log, and
reading goes on.

## What is here

* `advance` passes the current token, `expect` passes it if it is of the required kind and
  complains otherwise.
* `recover` complains about a phrase that cannot start with the current token, and passes the
  token unless it may belong to a phrase further out.
* `node` gives a phrase its mark when all its parts have been read.
-/

namespace Triangle

/-- Where a parser stands. -/
structure ParserState where
  /-- The tokens after the current one. -/
  reader : Reader
  /-- The token looked at. -/
  current : Token
  /-- The span of the token passed last; at first, that of the first token. -/
  previous : Span
  /-- How many identities were handed out. -/
  issued : Nat

/-- A parser stands at a state and gives a result, unless it nests too deeply. -/
abbrev Parser := StateT ParserState Option

namespace Parser

/-- The state before the first token of a source. -/
def start (source : Source) (failFast : Bool) : ParserState :=
  let (token, reader) := (Reader.ofSource source failFast).significant
  ⟨reader, token, token.span, 0⟩

/-- The kind of the current token. -/
def kind : Parser Kind := do
  return (← get).current.kind

/-- Whether the current token is of a kind. -/
def looksAt (expected : Kind) : Parser Bool := do
  return (← kind) = expected

/-- The span of the current token, where a phrase starts. -/
def here : Parser Span := do
  return (← get).current.span

/-- Passes the current token. -/
def advance : Parser Token :=
  modifyGet fun state =>
    let (token, reader) := state.reader.significant
    (state.current, { state with reader, current := token, previous := state.current.span })

/-- Complains about the current token. -/
def complain (expected : Expectation) : Parser Unit :=
  modify fun state =>
    let log := state.reader.log.report state.current.span (.syntactic ⟨expected, state.current⟩)
    { state with reader := { state.reader with log } }

/-- Hands out the next identity. -/
def fresh : Parser NodeId :=
  modifyGet fun state => (state.issued, { state with issued := state.issued + 1 })

/-- The span of a phrase from its start to the token passed last. -/
def extent (start previous : Span) : Span :=
  if start.start < previous.stop then start.join previous else start

/-- The mark of a phrase all of which has been read. -/
def node (start : Span) : Parser Mark := do
  let id ← fresh
  return ⟨id, extent start (← get).previous⟩

/-- Passes the current token as a terminal. -/
def terminal : Parser Terminal := do
  let token ← advance
  return ⟨⟨← fresh, token.span⟩, token.spelling⟩

/-- A terminal in the place of one that is missing. -/
def missing : Parser Terminal := do
  let span ← here
  return ⟨⟨← fresh, span⟩, ""⟩

/-- Passes a token of the given kind, or complains. -/
def expect (expected : Kind) : Parser Unit := do
  if ← looksAt expected then
    let _ ← advance
  else
    complain (.token expected)

/-- Passes a keyword, or complains. -/
def keyword (word : Keyword) : Parser Unit :=
  expect (.keyword word)

/-- Passes a terminal of the given kind, or complains and makes one up. -/
def terminalOf (expected : Kind) : Parser Terminal := do
  if ← looksAt expected then
    terminal
  else
    complain (.token expected)
    missing

/-- Passes an identifier, or complains and makes one up. -/
def identifier : Parser Terminal :=
  terminalOf .identifier

/-- Whether a phrase further out may go on with a token of this kind. -/
def isSynchronizing : Kind → Bool
  | .semicolon | .closeParen | .closeSquare | .closeCurly | .endOfText => true
  | .keyword .end_ | .keyword .in_ | .keyword .then_ | .keyword .else_ | .keyword .do_ => true
  | _ => false

/-- Complains about a phrase that cannot start here, and passes the current token unless a phrase
further out may go on with it. -/
def recover (expected : Expectation) : Parser Unit := do
  complain expected
  unless isSynchronizing (← kind) do
    let _ ← advance

end Parser

end Triangle
