import Triangle.Diagnostic.Problem
import Triangle.Typing.Annotations

/-!
# Constants

The values that expressions are known to have before the program runs, and the standard operators
on them.  An operation is carried out only if the machine would give the same result without a
fault: sums, differences, products, quotients and remainders have to lie between `-maxint` and
`maxint`.

`/\` and `\/` need only one constant operand if that decides the result.
-/

namespace Triangle

/-- A value known before the program runs. -/
inductive Constant where
  /-- An integer, or the code of a character. -/
  | int (value : Int)
  | bool (value : Bool)
deriving DecidableEq

namespace Constant

/-- What becomes of an operation on constants. -/
inductive Outcome where
  /-- It has a value. -/
  | value (constant : Constant)
  /-- It divides by zero. -/
  | byZero (operation : ZeroDivision)
  /-- It is left to the machine. -/
  | unknown
deriving DecidableEq

/-- An integer result, if it is an integer of the language. -/
def inRange (value : Int) : Outcome :=
  if -Machine.maxint ≤ value && value ≤ Machine.maxint then .value (.int value) else .unknown

/-- Whether a constant operand alone decides the result of an operator. -/
def absorbs : Standard → Option Constant → Bool
  | .and_, some (.bool false) => true
  | .or_, some (.bool true) => true
  | _, _ => false

/-- A standard operator on two constants.  Where a quotient would not be a word, there is no
remainder either. -/
def operate (operator : Standard) (left right : Constant) : Outcome :=
  match operator, left, right with
  | .and_, .bool left, .bool right => .value (.bool (left && right))
  | .or_, .bool left, .bool right => .value (.bool (left || right))
  | .eq, left, right => .value (.bool (left = right))
  | .ne, left, right => .value (.bool (left ≠ right))
  | .lt, .int left, .int right => .value (.bool (left < right))
  | .le, .int left, .int right => .value (.bool (left ≤ right))
  | .gt, .int left, .int right => .value (.bool (right < left))
  | .ge, .int left, .int right => .value (.bool (right ≤ left))
  | .add, .int left, .int right => inRange (left + right)
  | .sub, .int left, .int right => inRange (left - right)
  | .mult, .int left, .int right => inRange (left * right)
  | .div, .int left, .int right =>
    if right = 0 then .byZero .division else inRange (left.tdiv right)
  | .mod, .int left, .int right =>
    if right = 0 then .byZero .modulo
    else if Word.fits (left.tdiv right) then inRange (left.tmod right)
    else .unknown
  | _, _, _ => .unknown

/-- A standard binary operator on operands that may be constant. -/
def binary (operator : Standard) (left right : Option Constant) : Outcome :=
  if absorbs operator left || absorbs operator right then
    .value (.bool (operator = .or_))
  else
    match left, right with
    | some left, some right => operate operator left right
    | _, _ => .unknown

/-- A standard unary operator on an operand that may be constant. -/
def unary (operator : Standard) (operand : Option Constant) : Outcome :=
  match operator, operand with
  | .not_, some (.bool value) => .value (.bool (!value))
  | _, _ => .unknown

end Constant

/-- The standard declaration that a terminal refers to.  Where nothing is known about it, its
spelling decides. -/
def Annotations.standardOf? (annotations : Annotations) (terminal : Terminal) : Option Standard :=
  match annotations.referentOf? terminal.mark.id with
  | some (.standard declaration) => some declaration
  | some (.node _) => none
  | none => Standard.ofSpelling? terminal.spelling

/-- The value of an expression that is a literal, `true` or `false`. -/
def Expression.constant? (annotations : Annotations) : Expression → Option Constant
  | .integer _ literal => (Literal.integerValue? literal.spelling).map .int
  | .character _ literal =>
    (Literal.characterValue? literal.spelling).map fun c => .int c.toNat
  | .vname _ (.simple _ name) =>
    match annotations.standardOf? name with
    | some .true_ => some (.bool true)
    | some .false_ => some (.bool false)
    | _ => none
  | _ => none

/-- What becomes of a unary expression. -/
def Annotations.foldUnary (annotations : Annotations) (operator : Terminal)
    (operand : Expression) : Constant.Outcome :=
  match annotations.standardOf? operator with
  | some declaration => Constant.unary declaration (operand.constant? annotations)
  | none => .unknown

/-- What becomes of a binary expression. -/
def Annotations.foldBinary (annotations : Annotations) (operator : Terminal)
    (left right : Expression) : Constant.Outcome :=
  match annotations.standardOf? operator with
  | some declaration =>
    Constant.binary declaration (left.constant? annotations) (right.constant? annotations)
  | none => .unknown

end Triangle
