import Triangle.Source.Span

/-!
# The diagnostics of a compilation

Every phase adds its complaints to one log.  A complaint is an error or a warning; only errors
stop later phases.  A log that fails fast is closed by its first error: it takes nothing after
it, and whoever would produce more diagnostics can see that it has halted.

What a complaint says is left open here: any type will do whose values name the phase they belong
to and can be put into words.

## What is here

* `Log.report` and `Log.warn` add a diagnostic, unless the log has halted.
* `Log.errors` counts errors; `Log.halted` tells that no further diagnostic is taken.
-/

namespace Triangle

/-- The part of the work that a complaint comes from. -/
inductive Phase where
  /-- Cutting the text into tokens. -/
  | lexical
  /-- Building the tree. -/
  | syntactic
  /-- Checking names and types. -/
  | contextual
  /-- Keeping within the limits of the machine. -/
  | restriction
deriving DecidableEq

/-- A phase as it is named in messages. -/
def Phase.word : Phase → String
  | lexical => "lexical"
  | syntactic => "syntax"
  | contextual => "semantic"
  | restriction => "restriction"

/-- Whether a complaint stops the compilation. -/
inductive Severity where
  /-- It does. -/
  | error
  /-- It does not. -/
  | warning
deriving DecidableEq

/-- A severity as it is named in messages. -/
def Severity.word : Severity → String
  | error => "error"
  | warning => "warning"

/-- Complaints that name their phase and can be put into words. -/
class Complaint (ε : Type) where
  /-- The phase a complaint belongs to. -/
  phase : ε → Phase
  /-- A complaint in words. -/
  message : ε → String

/-- A remark is a complaint of a given phase in given words. -/
instance : Complaint (Phase × String) where
  phase := Prod.fst
  message := Prod.snd

/-- A complaint about a stretch of the text. -/
structure Diagnostic (ε : Type) where
  /-- Whether it is an error. -/
  severity : Severity
  /-- The stretch it is about. -/
  span : Span
  /-- What is the matter. -/
  complaint : ε

/-- The diagnostics of a compilation, the oldest first. -/
structure Log (ε : Type) where
  /-- Whether the first error closes the log. -/
  failFast : Bool := false
  /-- What was reported so far. -/
  diagnostics : List (Diagnostic ε) := []

namespace Log

variable {ε : Type}

/-- A log without diagnostics. -/
def empty (failFast : Bool) : Log ε := { failFast }

/-- The number of errors. -/
def errors (log : Log ε) : Nat :=
  log.diagnostics.countP fun diagnostic => diagnostic.severity = .error

/-- Whether the log takes no further diagnostic. -/
def halted (log : Log ε) : Bool :=
  log.failFast && 0 < log.errors

/-- The log with a further diagnostic, unless it has halted. -/
def add (log : Log ε) (diagnostic : Diagnostic ε) : Log ε :=
  if log.halted then log else { log with diagnostics := log.diagnostics ++ [diagnostic] }

/-- Adds an error. -/
def report (log : Log ε) (span : Span) (complaint : ε) : Log ε :=
  log.add ⟨.error, span, complaint⟩

/-- Adds a warning. -/
def warn (log : Log ε) (span : Span) (complaint : ε) : Log ε :=
  log.add ⟨.warning, span, complaint⟩

end Log

end Triangle
