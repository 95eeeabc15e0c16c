import Triangle.Machine.Limits
import Triangle.Typing.Meaning

/-!
# Values

What expressions are evaluated to and variables hold.  A composite value is the list of its parts,
each under what selects it: an index of an array or the name of a field.  A variable has its shape
from the start, so a value that a variable holds may have parts that nothing was assigned to yet.

The standard operators are partial.  Sums, differences and products have to be integers of the
language, nothing is divided by zero, and quotients are truncated.
-/

namespace Triangle

/-- What selects a part of a composite value. -/
inductive Selector where
  | index (i : Int)
  | field (name : String)
deriving DecidableEq

mutual

/-- A value, or what a variable holds. -/
inductive Value where
  /-- Nothing was assigned here yet. -/
  | undefined
  | bool (value : Bool)
  | char (code : Int)
  | int (value : Int)
  /-- An array or a record. -/
  | composite (parts : Parts)
deriving DecidableEq

/-- The parts of a composite value. -/
inductive Parts where
  | nil
  | cons (selector : Selector) (value : Value) (rest : Parts)
deriving DecidableEq

end

/-! ## Parts -/

mutual

/-- Something was assigned to all parts. -/
def Value.defined : Value → Bool
  | .undefined => false
  | .bool _ | .char _ | .int _ => true
  | .composite parts => parts.defined

/-- Something was assigned to all parts of each. -/
def Parts.defined : Parts → Bool
  | .nil => true
  | .cons _ value rest => value.defined && rest.defined

end

/-- The part under a selector. -/
def Parts.select (selector : Selector) : Parts → Option Value
  | .nil => none
  | .cons s value rest => if s = selector then some value else rest.select selector

/-- Another part under a selector that is there. -/
def Parts.replace (selector : Selector) (part : Value) : Parts → Option Parts
  | .nil => none
  | .cons s value rest =>
    if s = selector then some (.cons s part rest)
    else (rest.replace selector part).map (.cons s value)

/-- The elements of an array, from an index on. -/
def Parts.ofElements (start : Int) : List Value → Parts
  | [] => .nil
  | value :: rest => .cons (.index start) value (.ofElements (start + 1) rest)

namespace Value

/-- A part of a composite value. -/
def select (selector : Selector) : Value → Option Value
  | composite parts => parts.select selector
  | _ => none

/-- A composite value with another part. -/
def replace : Value → Selector → Value → Option Value
  | composite parts, selector, part => (parts.replace selector part).map composite
  | _, _, _ => none

/-- What several selectors, one after the other, lead to. -/
def part : Value → List Selector → Option Value
  | value, [] => some value
  | value, selector :: path => do
    let inner ← value.select selector
    inner.part path

/-- A value with something else where several selectors lead to. -/
def update : Value → List Selector → Value → Option Value
  | _, [], new => some new
  | value, selector :: path, new => do
    let inner ← value.select selector
    value.replace selector (← inner.update path new)

/-- An integer of the language. -/
def integer? (n : Int) : Option Value :=
  if -Machine.maxint ≤ n ∧ n ≤ Machine.maxint then some (int n) else none

/-- Whether two values of one type are the same. -/
def equal? : Value → Value → Option Bool
  | bool a, bool b => some (a = b)
  | char a, char b => some (a = b)
  | int a, int b => some (a = b)
  | composite a, composite b => some (a = b)
  | _, _ => none

end Value

mutual

/-- What a variable of a type holds at first. -/
def Ty.unassigned : Ty → Value
  | .array length of =>
    .composite (.ofElements 0 (List.replicate length.toNat of.unassigned))
  | .record fields => .composite fields.unassigned
  | .bool | .char | .int | .any | .error => .undefined

/-- What the fields of a variable hold at first. -/
def Fields.unassigned : Fields → Parts
  | .nil => .nil
  | .cons name of rest => .cons (.field name) of.unassigned rest.unassigned

end

/-! ## Operators -/

namespace Standard

/-- The result of a standard operator of one operand. -/
def unary? : Standard → Value → Option Value
  | not_, .bool a => some (.bool !a)
  | _, _ => none

/-- The result of a standard operator of two operands, both of which are evaluated. -/
def binary? : Standard → Value → Value → Option Value
  | and_, .bool a, .bool b => some (.bool (a && b))
  | or_, .bool a, .bool b => some (.bool (a || b))
  | add, .int a, .int b => Value.integer? (a + b)
  | sub, .int a, .int b => Value.integer? (a - b)
  | mult, .int a, .int b => Value.integer? (a * b)
  | div, .int a, .int b => if b = 0 then none else some (.int (a.tdiv b))
  | mod, .int a, .int b => if b = 0 then none else some (.int (a.tmod b))
  | lt, .int a, .int b => some (.bool (a < b))
  | le, .int a, .int b => some (.bool (a ≤ b))
  | gt, .int a, .int b => some (.bool (b < a))
  | ge, .int a, .int b => some (.bool (b ≤ a))
  | eq, a, b => (a.equal? b).map .bool
  | ne, a, b => (a.equal? b).map fun same => .bool !same
  | _, _, _ => none

end Standard

end Triangle
