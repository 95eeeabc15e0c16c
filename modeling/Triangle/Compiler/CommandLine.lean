import Triangle.Compiler.Job

/-!
# The command line

The arguments name a program, where its code goes, and options.

* Options may stand before and after the program; after `--` there are none.
* A value follows its option, or is joined to it: `-o FILE`, `-oFILE`, `-o=FILE`,
  `--objectName FILE`, `--objectName=FILE`.  A value of its own does not start with `-`, unless
  that is all of it.
* Nothing may be given twice.

Arguments are read from left to right.  Asking for the version or for help ends that, and so does
an argument that makes no sense; what is missing or given twice is found at the end.
-/

namespace Triangle

/-- An option without a value. -/
inductive Flag where
  | folding
  | showTree
  | showTreeAfter
  | showStats
  | failFast
deriving DecidableEq

/-- The flag with a given name. -/
def Flag.ofName? : String → Option Flag
  | "folding" => some folding
  | "showTree" => some showTree
  | "showTreeAfter" => some showTreeAfter
  | "showStats" => some showStats
  | "failFast" => some failFast
  | _ => none

/-- What a command line asks for. -/
inductive Invocation where
  | compile (job : Job)
  | version
  | help
  /-- It makes no sense. -/
  | misuse
deriving DecidableEq

namespace CommandLine

/-- What an argument is. -/
inductive Argument where
  /-- A name, or the value of an option before it. -/
  | word (text : String)
  /-- All arguments after it are names. -/
  | endOfOptions
  | flag (flag : Flag)
  /-- The option for the code, with the value joined to it. -/
  | object (value : Option String)
  | version
  | help
  | unknown
deriving DecidableEq

/-- The part of a text after a leading equals sign. -/
def dropEquals : List Char → List Char
  | '=' :: rest => rest
  | text => text

/-- Reads what follows `--`: a name, and a value after an equals sign. -/
def readLong (text : List Char) : Argument :=
  let name := String.ofList (text.takeWhile (· ≠ '='))
  let value? := match text.dropWhile (· ≠ '=') with
    | [] => none
    | _ :: value => some (String.ofList value)
  if name = "objectName" then .object value?
  else if value?.isSome then .unknown
  else if name = "version" then .version
  else if name = "help" then .help
  else
    match Flag.ofName? name with
    | some flag => .flag flag
    | none => .unknown

/-- Reads an argument where options may stand. -/
def read (argument : String) : Argument :=
  match argument.toList with
  | ['-', '-'] => .endOfOptions
  | '-' :: '-' :: text => readLong text
  | ['-', 'o'] => .object none
  | '-' :: 'o' :: value => .object (some (String.ofList (dropEquals value)))
  | '-' :: 'V' :: _ => .version
  | '-' :: 'h' :: _ => .help
  | '-' :: _ :: _ => .unknown
  | _ => .word argument

/-- What was given so far. -/
structure Given where
  source : Option String := none
  /-- How often there was an option for the code. -/
  objectOptions : Nat := 0
  object : Option String := none
  flags : List Flag := []
  /-- Whether the last argument was an option that still has no value. -/
  awaitsValue : Bool := false

namespace Given

/-- Takes a name: the program, if there is none yet. -/
def name? (given : Given) (text : String) : Option Given :=
  match given.source with
  | none => some { given with source := some text }
  | some _ => none

/-- Whether nothing is missing or given twice. -/
def isComplete (given : Given) : Bool :=
  given.source.isSome && given.flags.Nodup &&
    (given.objectOptions = 0 || given.objectOptions = 1 && given.object.isSome)

/-- The options that the flags stand for. -/
def options (given : Given) : Options where
  fold := Flag.folding ∈ given.flags
  showTree := Flag.showTree ∈ given.flags
  showTreeAfter := Flag.showTreeAfter ∈ given.flags
  showStatistics := Flag.showStats ∈ given.flags
  failFast := Flag.failFast ∈ given.flags

/-- What was asked for. -/
def invocation (given : Given) : Invocation :=
  match given.isComplete, given.source with
  | true, some source =>
    .compile ⟨source, given.object.getD "obj.tam", given.options⟩
  | _, _ => .misuse

end Given

/-- Reads names only. -/
def readNames (given : Given) : List String → Invocation
  | [] => given.invocation
  | argument :: rest =>
    match given.name? argument with
    | some given => readNames given rest
    | none => .misuse

/-- Reads arguments. -/
def readAll (given : Given) : List String → Invocation
  | [] => given.invocation
  | argument :: rest =>
    let settled := { given with awaitsValue := false }
    match read argument with
    | .word text =>
      if given.awaitsValue then readAll { settled with object := some text } rest
      else
        match settled.name? text with
        | some given => readAll given rest
        | none => .misuse
    | .endOfOptions => readNames settled rest
    | .flag flag => readAll { settled with flags := flag :: settled.flags } rest
    | .object value? =>
      readAll
        { settled with
          objectOptions := settled.objectOptions + 1
          object := value?
          awaitsValue := value?.isNone }
        rest
    | .version => .version
    | .help => .help
    | .unknown => .misuse

/-- What a command line asks for. -/
def parse (arguments : List String) : Invocation :=
  readAll {} arguments

end CommandLine

/-- How a run of the compiler ends: its status, and what it complains about. -/
structure Exit where
  status : Nat
  complaint : String := ""

namespace Invocation

/-- The name of the compiler, and its version. -/
def versionText : String := "Triangle compiler 1.0.0\n"

/-- How to call the compiler. -/
def usageText : String :=
  "Usage: triangle [--folding] [--showTree] [--showTreeAfter] [--showStats] [--failFast] " ++
    "[-o FILE] SOURCE\n"

/-- Whether the compiler is used to look at trees; then errors in the program do not count. -/
def interactive (options : Options) : Bool :=
  options.showTree || options.showTreeAfter

variable {m : Type → Type} [Monad m] [Host m]

/-- Does what a command line asks for. -/
def execute : Invocation → m Exit
  | .version => do
    let _ ← Host.print versionText
    return ⟨0, ""⟩
  | .help => do
    let _ ← Host.print usageText
    return ⟨0, ""⟩
  | .misuse => return ⟨2, usageText⟩
  | .compile job => do
    match ← job.run.run with
    | .ok successful => return ⟨if successful || interactive job.options then 0 else 1, ""⟩
    | .error (.failure failure) => return ⟨1, failure.report⟩
    | .error (.overflow cause) => return ⟨101, "Error: " ++ cause.message ++ "\n"⟩

end Invocation

end Triangle
