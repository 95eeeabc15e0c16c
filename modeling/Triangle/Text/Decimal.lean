/-!
# Decimal numbers

Reading the digits of a literal, and the decimal value of a run of digits.
-/

namespace Triangle.Text

/-- Whether a character is one of the ten decimal digits. -/
def isDigit (c : Char) : Bool :=
  '0' ≤ c && c ≤ '9'

/-- The number a digit stands for. -/
def digitValue (c : Char) : Nat :=
  c.toNat - '0'.toNat

/-- The decimal value of a run of digits, the most significant first. -/
def decimalValue (digits : List Char) : Nat :=
  digits.foldl (fun value c => 10 * value + digitValue c) 0

/-- Reads a run of one or more digits, and nothing else. -/
def readNatural? (text : List Char) : Option Nat :=
  if text ≠ [] ∧ text.all isDigit then some (decimalValue text) else none

/-- Reads an integer: digits after at most one sign. -/
def readInteger? : List Char → Option Int
  | '+' :: digits => (readNatural? digits).map Int.ofNat
  | '-' :: digits => (readNatural? digits).map fun value => -Int.ofNat value
  | digits => (readNatural? digits).map Int.ofNat

end Triangle.Text
