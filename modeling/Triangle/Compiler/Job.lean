import Triangle.Compiler.Compile
import Triangle.Compiler.Host

/-!
# Compiling files

A job reads a program from a file, compiles it, prints the transcript and writes the code to
another file.  The code is written only if there is any.
-/

namespace Triangle

/-- A compilation from file to file. -/
structure Job where
  /-- The path of the program. -/
  source : String
  /-- The path of the code. -/
  object : String := "obj.tam"
  options : Options := {}
deriving DecidableEq

/-- What can go wrong with a job besides errors in the program. -/
inductive Failure where
  /-- The program cannot be read. -/
  | source (path : String) (fault : FileFault)
  /-- The transcript cannot be printed. -/
  | transcript
  /-- The code cannot be written. -/
  | object (path : String) (fault : FileFault)
  /-- The verdict cannot be printed. -/
  | verdict

namespace Failure

/-- What was being done when something went wrong. -/
def context? : Failure → Option String
  | source path _ => some ("Can't access source file " ++ path)
  | transcript => some "Failed to write compiler output"
  | object path _ => some ("Failed to write object file: " ++ path)
  | verdict => none

/-- What went wrong. -/
def cause : Failure → String
  | source _ fault | object _ fault => fault.message
  | transcript | verdict => "failed to write whole buffer"

/-- A failure in one line. -/
def message (failure : Failure) : String :=
  match failure.context? with
  | some context => context ++ ": " ++ failure.cause
  | none => failure.cause

/-- A failure in a few lines. -/
def report (failure : Failure) : String :=
  match failure.context? with
  | some context => "Error: " ++ context ++ "\n\nCaused by:\n    " ++ failure.cause ++ "\n"
  | none => "Error: " ++ failure.cause ++ "\n"

end Failure

/-- What ends a job early. -/
inductive Stop where
  | overflow (cause : Overflow)
  | failure (failure : Failure)

/-- The text that bytes encode. -/
def decodeText (bytes : List UInt8) : Except FileFault String :=
  match String.fromUTF8? ⟨bytes.toArray⟩ with
  | some text => .ok text
  | none => .error .notText

namespace Job

variable {m : Type → Type} [Monad m] [Host m]

/-- The program of a job. -/
def load (job : Job) : ExceptT Stop m Source := do
  match (← Host.readFile (m := m) job.source) >>= decodeText with
  | .ok text => return ⟨job.source, text⟩
  | .error fault => throw (.failure (.source job.source fault))

/-- Prints a text, or fails. -/
def print (text : String) (failure : Failure) : ExceptT Stop m Unit := do
  unless ← Host.print (m := m) text do
    throw (.failure failure)

/-- Does a job, and tells whether there is code. -/
def run (job : Job) : ExceptT Stop m Bool := do
  let source ← job.load
  let (result, transcript) := compile source job.options
  print transcript .transcript
  match result with
  | .error cause => throw (.overflow cause)
  | .ok outcome =>
    match outcome.object with
    | some object =>
      if let some fault ← Host.writeFile (m := m) job.object object.bytes then
        throw (.failure (.object job.object fault))
      print "Compilation was successful.\n" .verdict
      return true
    | none =>
      print "Compilation was unsuccessful.\n" .verdict
      return false

end Job

end Triangle
