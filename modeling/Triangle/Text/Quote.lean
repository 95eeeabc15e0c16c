import Triangle.Text.Unprintable

/-!
# Quoting a character in a message

A quoted character stands between two `'`.  The quote itself, the backslash and a few controls
have a short escape, every other character without a mark of its own is written by its code in
hexadecimal, and all the rest stand for themselves.
-/

namespace Triangle.Text

/-- The way a character is written between quotes. -/
def escaped (c : Char) : String :=
  match c with
  | '\x00' => "\\0"
  | '\t' => "\\t"
  | '\r' => "\\r"
  | '\n' => "\\n"
  | '\'' => "\\'"
  | '\\' => "\\\\"
  | c =>
    if isUnprintable c then
      "\\u\x7b" ++ String.ofList (Nat.toDigits 16 c.toNat) ++ "\x7d"
    else
      String.singleton c

/-- A character between quotes. -/
def quoted (c : Char) : String :=
  "'" ++ escaped c ++ "'"

end Triangle.Text
