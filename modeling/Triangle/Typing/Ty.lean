import Triangle.Word

/-!
# Types

A type is primitive, an array or a record.  Two more stand beside these: `any`, the type of the
operands of `=` and `\=`, and `error`, the type of a phrase that was already complained about.
Equivalence is structural and `error` is equivalent to everything, so that one mistake is
reported once.

## What is here

* `Ty.equivalent` — structural equivalence: arrays by length and element, records by the names
  and types of their fields in order.
* `Ty.size` — the number of words a value takes up.  It is computed on demand in word arithmetic,
  so a type may be declared whose size would overflow.
* `Ty.field` — the offset and the type of a field of a record.
-/

namespace Triangle

mutual

/-- A type. -/
inductive Ty where
  | bool
  | char
  | int
  /-- What the operands of `=` and `\=` are declared with. -/
  | any
  /-- What a faulty phrase has. -/
  | error
  | array (length : Int) (element : Ty)
  | record (fields : Fields)

/-- The fields of a record, in order. -/
inductive Fields where
  | nil
  | cons (name : String) (of : Ty) (rest : Fields)

end

mutual

/-- Whether two types are the same. -/
def Ty.beq : Ty → Ty → Bool
  | .bool, .bool => true
  | .char, .char => true
  | .int, .int => true
  | .any, .any => true
  | .error, .error => true
  | .array m s, .array n t => m == n && s.beq t
  | .record f, .record g => f.beq g
  | _, _ => false

/-- Whether two lists of fields are the same. -/
def Fields.beq : Fields → Fields → Bool
  | .nil, .nil => true
  | .cons x s f, .cons y t g => x == y && s.beq t && f.beq g
  | _, _ => false

end

instance : BEq Ty := ⟨Ty.beq⟩

instance : Inhabited Ty := ⟨.error⟩

mutual

/-- Whether a value of one type may stand where the other is required. -/
def Ty.equivalent : Ty → Ty → Bool
  | .error, _ => true
  | _, .error => true
  | .bool, .bool => true
  | .char, .char => true
  | .int, .int => true
  | .array m s, .array n t => m == n && s.equivalent t
  | .record f, .record g => f.equivalent g
  | _, _ => false

/-- Whether two lists of fields agree in number, names and types. -/
def Fields.equivalent : Fields → Fields → Bool
  | .nil, .nil => true
  | .cons x s f, .cons y t g => x == y && s.equivalent t && f.equivalent g
  | _, _ => false

end

mutual

/-- The number of words a value of a type takes up. -/
def Ty.size : Ty → Checked Int
  | .bool | .char | .int => .ok 1
  | .any | .error => .ok 0
  | .array length element => do Word.mul length (← element.size)
  | .record fields => fields.sizeFrom 0

/-- The number of words taken up after some fields behind `before` words. -/
def Fields.sizeFrom (before : Int) : Fields → Checked Int
  | .nil => .ok before
  | .cons _ of rest => do rest.sizeFrom (← Word.add before (← of.size))

end

/-- The type of the first field with the given name, and the words between `before` and it. -/
def Fields.find (name : String) (before : Int) : Fields → Checked (Option (Int × Ty))
  | .nil => .ok none
  | .cons x of rest =>
    if x = name then
      .ok (some (before, of))
    else do
      rest.find name (← Word.add before (← of.size))

/-- The offset and the type of a field; only a record has fields. -/
def Ty.field (name : String) : Ty → Checked (Option (Int × Ty))
  | .record fields => fields.find name 0
  | _ => .ok none

/-- Whether a type stands for an earlier complaint. -/
def Ty.isError : Ty → Bool
  | .error => true
  | _ => false

/-- Whether some field has the given name. -/
def Fields.declares (name : String) : Fields → Bool
  | .nil => false
  | .cons x _ rest => x == name || rest.declares name

mutual

/-- A type as it is written in messages, which is also the way it is written in programs. -/
def Ty.describe : Ty → String
  | .bool => "Boolean"
  | .char => "Char"
  | .int => "Integer"
  | .any => "any"
  | .error => "<error>"
  | .array length element => "array " ++ toString length ++ " of " ++ element.describe
  | .record fields => "record " ++ fields.describe ++ " end"

/-- Fields separated by commas. -/
def Fields.describe : Fields → String
  | .nil => ""
  | .cons name of .nil => name ++ ": " ++ of.describe
  | .cons name of rest => name ++ ": " ++ of.describe ++ ", " ++ rest.describe

end

end Triangle
