import Triangle.Compiler.CommandLine

/-!
# The compiler as a program

The files and the output of the system as a host, and the entry point.
-/

namespace Triangle

/-- What an error of the system says about a file.  Some calls give the number of an error with
the opposite sign. -/
def FileFault.ofError : IO.Error → FileFault
  | .noFileOrDirectory .. => .missing
  | .inappropriateType _ code description =>
    if code = 20 ∨ code = -20 then .notDirectory
    else if code = 21 ∨ code = -21 then .isDirectory
    else .other description
  | error => .other (toString error)

instance : Host IO where
  readFile path := do
    try
      return .ok (← IO.FS.readBinFile path).toList
    catch error =>
      return .error (.ofError error)
  writeFile path bytes := do
    try
      IO.FS.writeBinFile path ⟨bytes.toArray⟩
      return none
    catch error =>
      return some (.ofError error)
  print text := do
    try
      IO.print text
      return true
    catch _ =>
      return false

end Triangle

/-- Compiles as the command line asks for. -/
def main (arguments : List String) : IO UInt32 := do
  let exit : Triangle.Exit ← (Triangle.CommandLine.parse arguments).execute
  IO.eprint exit.complaint
  return exit.status.toUInt32
