/-!
# Hosts

What a run of the compiler needs of the system it runs on: reading a file, writing one, and
printing.  Each may fail, and says so in its result.
-/

namespace Triangle

/-- What can be wrong with a file. -/
inductive FileFault where
  /-- There is no such file. -/
  | missing
  /-- The path leads through a file. -/
  | notDirectory
  /-- The path leads to a directory. -/
  | isDirectory
  /-- The file does not hold text. -/
  | notText
  /-- Something else, in the words of the system. -/
  | other (description : String)

/-- A fault in words. -/
def FileFault.message : FileFault → String
  | missing => "No such file or directory (os error 2)"
  | notDirectory => "Not a directory (os error 20)"
  | isDirectory => "Is a directory (os error 21)"
  | notText => "stream did not contain valid UTF-8"
  | other description => description

/-- Systems that have files and an output. -/
class Host (m : Type → Type) where
  /-- The bytes of a file. -/
  readFile : String → m (Except FileFault (List UInt8))
  /-- Makes a file, or changes the whole of it; a fault if that fails. -/
  writeFile : String → List UInt8 → m (Option FileFault)
  /-- Prints a text, and tells whether all of it was printed. -/
  print : String → m Bool

end Triangle
