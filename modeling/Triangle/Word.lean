/-!
# Arithmetic on machine words

Sizes, displacements and literal values are words of 32 bits with a sign.  An operation whose
exact result does not fit is an overflow, and an overflow ends the compilation: nothing is ever
wrapped around.
-/

namespace Triangle

/-- The operation whose result did not fit. -/
inductive Overflow where
  | add
  | subtract
  | multiply
deriving DecidableEq

/-- An overflow in words. -/
def Overflow.message : Overflow → String
  | add => "attempt to add with overflow"
  | subtract => "attempt to subtract with overflow"
  | multiply => "attempt to multiply with overflow"

/-- Results of a computation that an overflow can end. -/
abbrev Checked := Except Overflow

namespace Word

/-- The least word. -/
def least : Int := -2147483648

/-- The greatest word. -/
def greatest : Int := 2147483647

/-- Whether an integer is a word. -/
def fits (n : Int) : Bool := least ≤ n && n ≤ greatest

/-- A result, if it fits. -/
def checked (cause : Overflow) (n : Int) : Checked Int :=
  if fits n then .ok n else .error cause

/-- The sum of two words. -/
def add (m n : Int) : Checked Int := checked .add (m + n)

/-- The difference of two words. -/
def sub (m n : Int) : Checked Int := checked .subtract (m - n)

/-- The product of two words. -/
def mul (m n : Int) : Checked Int := checked .multiply (m * n)

/-! ## When an operation has a result -/

theorem fits_iff {n : Int} : fits n = true ↔ least ≤ n ∧ n ≤ greatest := by
  simp [fits]

theorem checked_eq_ok_iff {cause : Overflow} {n k : Int} :
    checked cause n = .ok k ↔ fits n = true ∧ n = k := by
  rw [checked]
  split
  · rename_i h
    simp [h]
  · rename_i h
    simp [h]

/-- A sum is exact where there is one. -/
theorem add_eq_ok_iff {m n k : Int} : add m n = .ok k ↔ fits (m + n) = true ∧ m + n = k :=
  checked_eq_ok_iff

/-- A difference is exact where there is one. -/
theorem sub_eq_ok_iff {m n k : Int} : sub m n = .ok k ↔ fits (m - n) = true ∧ m - n = k :=
  checked_eq_ok_iff

/-- A product is exact where there is one. -/
theorem mul_eq_ok_iff {m n k : Int} : mul m n = .ok k ↔ fits (m * n) = true ∧ m * n = k :=
  checked_eq_ok_iff

end Word

end Triangle
