import Triangle.Typing.Ty

/-!
# Signatures

A formal parameter is seen from a call site as its mode and its types; the parameters of a
routine together are its signature.  A routine is passed as an argument, so formals contain
signatures in turn.
-/

namespace Triangle

mutual

/-- A parameter as the caller sees it. -/
inductive Formal where
  /-- A value. -/
  | const (of : Ty)
  /-- The address of a variable. -/
  | var (of : Ty)
  /-- A procedure. -/
  | proc (formals : Formals)
  /-- A function. -/
  | func (formals : Formals) (result : Ty)

/-- The parameters of a routine, in order. -/
inductive Formals where
  | nil
  | cons (first : Formal) (rest : Formals)

end

/-- The way an argument is passed. -/
inductive Mode where
  | const
  | var
  | proc
  | func
deriving DecidableEq

/-- A mode as it is named in messages. -/
def Mode.word : Mode → String
  | const => "const"
  | var => "var"
  | proc => "proc"
  | func => "func"

/-- The mode of a parameter. -/
def Formal.mode : Formal → Mode
  | const _ => .const
  | var _ => .var
  | proc _ => .proc
  | func _ _ => .func

mutual

/-- Whether an argument described by one formal may be passed for the other. -/
def Formal.matches : Formal → Formal → Bool
  | .const s, .const t => s.equivalent t
  | .var s, .var t => s.equivalent t
  | .proc f, .proc g => f.matches g
  | .func f s, .func g t => f.matches g && s.equivalent t
  | _, _ => false

/-- Whether two signatures agree in number and one by one. -/
def Formals.matches : Formals → Formals → Bool
  | .nil, .nil => true
  | .cons s f, .cons t g => s.matches t && f.matches g
  | _, _ => false

end

/-- The signature with the parameters of a list. -/
def Formals.ofList : List Formal → Formals
  | [] => .nil
  | first :: rest => .cons first (ofList rest)

/-- The parameters of a signature. -/
def Formals.toList : Formals → List Formal
  | .nil => []
  | .cons first rest => first :: rest.toList

end Triangle
