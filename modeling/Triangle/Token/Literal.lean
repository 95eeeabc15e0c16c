import Triangle.Machine.Limits
import Triangle.Text.Decimal
import Triangle.Word

/-!
# The values of literals

A literal is kept as it is spelled; what it stands for is read off its spelling where it is
needed.
-/

namespace Triangle.Literal

/-- The character that an escape stands for. -/
def unescape? : Char → Option Char
  | 'n' => some '\n'
  | 't' => some '\t'
  | '0' => some '\x00'
  | '\\' => some '\\'
  | '\'' => some '\''
  | _ => none

/-- What stands between two quotes: one character, or a backslash and an escape. -/
def unquoted? : List Char → Option Char
  | [c] => some c
  | ['\\', c] => unescape? c
  | _ => none

/-- The value of a character literal, which includes its quotes. -/
def characterValue? (spelling : String) : Option Char :=
  match spelling.toList with
  | '\'' :: rest => if rest.getLast? = some '\'' then unquoted? rest.dropLast else none
  | _ => none

/-- The value of an integer literal: a word that is not greater than `maxint`. -/
def integerValue? (spelling : String) : Option Int :=
  (Text.readInteger? spelling.toList).filter fun value =>
    Word.fits value && value ≤ Machine.maxint

end Triangle.Literal
