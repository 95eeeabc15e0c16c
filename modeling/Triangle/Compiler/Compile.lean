import Triangle.Diagnostic.Report
import Triangle.Encoding.Phrases
import Triangle.Folding.Fold
import Triangle.Syntax.Parser.Grammar
import Triangle.Syntax.Statistics
import Triangle.Typing.AnnotatedTree
import Triangle.Typing.Check.Phrases

/-!
# Compiling a text

A compilation runs the phases one after the other, each only if the ones before it reported no
error, and keeps a transcript: the name of each phase, the trees and figures that were asked for,
and at the end the diagnostics.

An overflow ends a compilation.  What was written to the transcript until then remains.
-/

namespace Triangle

/-- What a compilation does besides making code of the program. -/
structure Options where
  /-- Fold constants. -/
  fold : Bool := false
  /-- Show the tree after checking. -/
  showTree : Bool := false
  /-- Show the tree after folding. -/
  showTreeAfter : Bool := false
  /-- Show how many literals there are. -/
  showStatistics : Bool := false
  /-- Report nothing after the first error. -/
  failFast : Bool := false
deriving DecidableEq

/-- What came of a compilation. -/
structure Outcome where
  log : Log Problem
  /-- The code, if no error was reported. -/
  object : Option ObjectCode := none
  /-- The number of literals, if it was asked for. -/
  statistics : Option Statistics := none
  /-- The number of folded expressions, if constants were folded. -/
  folds : Option FoldCounts := none

/-- Whether a compilation gave code. -/
def Outcome.successful (outcome : Outcome) : Bool :=
  outcome.object.isSome

/-- A step of a compilation, with the transcript so far. -/
abbrev Compilation := ExceptT Overflow (StateM String)

namespace Compilation

/-- The first line of a transcript. -/
def banner : String := "********** Triangle Compiler (Rust Version 1.0) **********"

/-- Adds to the transcript. -/
def write (text : String) : Compilation Unit :=
  modify (· ++ text)

/-- Adds a line to the transcript. -/
def writeLine (text : String) : Compilation Unit :=
  write (text ++ "\n")

/-- Counts the literals, if asked to. -/
def summarize (options : Options) (program : Program) : Compilation (Option Statistics) := do
  if options.showStatistics then
    write program.statistics.describe
    return some program.statistics
  else
    return none

/-- Checks a program, and shows it if asked to. -/
def analyze (options : Options) (program : Program) (log : Log Problem) :
    Compilation (Annotations × Log Problem) := do
  writeLine "Contextual Analysis ..."
  let (annotations, log) ← program.check log
  if options.showTree then
    write (program.render annotations)
  return (annotations, log)

/-- Folds the constants of a checked program, and shows it if asked to. -/
def optimize (options : Options) (program : Program) (annotations : Annotations)
    (log : Log Problem) : Compilation Folded := do
  let folded := program.fold annotations log
  writeLine ("Folded " ++ toString folded.counts.integers ++ " integer and " ++
    toString folded.counts.booleans ++ " boolean expressions")
  if options.showTreeAfter then
    write (folded.program.render folded.annotations)
  return folded

/-- Generates the code of a checked program.  There is none if that reports an error. -/
def generate (program : Program) (annotations : Annotations) (log : Log Problem) :
    Compilation (Option ObjectCode × Log Problem) := do
  writeLine "Code Generation ..."
  let (object, log) ← program.encode annotations log
  return (if log.errors = 0 then some object else none, log)

/-- The phases after parsing. -/
def proceed (options : Options) (program : Program) (log : Log Problem) :
    Compilation Outcome := do
  let statistics ← summarize options program
  let (annotations, log) ← analyze options program log
  if log.errors = 0 then
    if options.fold then
      let folded ← optimize options program annotations log
      let (object, log) ← generate folded.program folded.annotations folded.log
      return { log, object, statistics, folds := some folded.counts }
    else
      let (object, log) ← generate program annotations log
      return { log, object, statistics }
  else
    return { log, statistics }

/-- All phases. -/
def phases (source : Source) (options : Options) : Compilation Outcome := do
  writeLine banner
  writeLine "Syntactic Analysis ..."
  let parsed := parse source options.failFast
  let outcome ←
    if parsed.log.errors = 0 then proceed options parsed.program parsed.log
    else pure { log := parsed.log }
  write (outcome.log.reportOn source)
  return outcome

end Compilation

/-- Compiles a text: what came of it, or the overflow that ended it, and the transcript. -/
def compile (source : Source) (options : Options) : Checked Outcome × String :=
  (Compilation.phases source options).run.run ""

end Triangle
