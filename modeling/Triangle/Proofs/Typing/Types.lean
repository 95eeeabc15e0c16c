import Triangle.Proofs.Runs
import Triangle.Typing.Meaning

/-!
# Proper types

A type is plain if neither `any` nor `error` is anywhere in it, and proper if moreover its arrays
have elements and its records have fields, no two of one name.  These are the types that phrases
have where nothing was complained about.

Equivalence exists to let `error` pass.  Between plain types it is equality, and so is the
agreement of two signatures; after this module the checker's tests can be read as equations.
-/

namespace Triangle

mutual

/-- Neither `any` nor `error` occurs in a type. -/
def Ty.Plain : Ty → Prop
  | .bool | .char | .int => True
  | .any | .error => False
  | .array _ element => element.Plain
  | .record fields => fields.Plain

/-- Neither `any` nor `error` occurs in the types of some fields. -/
def Fields.Plain : Fields → Prop
  | .nil => True
  | .cons _ of rest => of.Plain ∧ rest.Plain

end

mutual

/-- A type that a value can have. -/
def Ty.Proper : Ty → Prop
  | .bool | .char | .int => True
  | .any | .error => False
  | .array length element => 0 < length ∧ element.Proper
  | .record fields => fields ≠ .nil ∧ fields.Proper

/-- Fields of types that values can have, no two of one name. -/
def Fields.Proper : Fields → Prop
  | .nil => True
  | .cons name of rest => rest.declares name = false ∧ of.Proper ∧ rest.Proper

end

mutual

theorem Ty.Proper.plain : {t : Ty} → t.Proper → t.Plain
  | .bool, _ | .char, _ | .int, _ => trivial
  | .array _ element, h => Ty.Proper.plain (t := element) h.2
  | .record fields, h => Fields.Proper.plain (f := fields) h.2

theorem Fields.Proper.plain : {f : Fields} → f.Proper → f.Plain
  | .nil, _ => trivial
  | .cons _ of rest, h =>
    ⟨Ty.Proper.plain (t := of) h.2.1, Fields.Proper.plain (f := rest) h.2.2⟩

end

/-! ## Equivalence -/

mutual

/-- Plain types are equivalent only if they are equal. -/
theorem Ty.equivalent_iff : {s t : Ty} → s.Plain → t.Plain → (s.equivalent t = true ↔ s = t)
  | .array m s, .array n t, hs, ht => by
    have ih := Ty.equivalent_iff (s := s) (t := t) hs ht
    simp [Ty.equivalent, ih]
  | .record f, .record g, hf, hg => by
    have ih := Fields.equivalent_iff (f := f) (g := g) hf hg
    simp [Ty.equivalent, ih]
  | .bool, t, _, ht | .char, t, _, ht | .int, t, _, ht => by
    cases t <;> simp_all [Ty.equivalent, Ty.Plain]
  | .array _ _, .bool, _, _ | .array _ _, .char, _, _ | .array _ _, .int, _, _
  | .array _ _, .record _, _, _ | .record _, .bool, _, _ | .record _, .char, _, _
  | .record _, .int, _, _ | .record _, .array _ _, _, _ => by simp [Ty.equivalent]

theorem Fields.equivalent_iff :
    {f g : Fields} → f.Plain → g.Plain → (f.equivalent g = true ↔ f = g)
  | .nil, .nil, _, _ => by simp [Fields.equivalent]
  | .nil, .cons _ _ _, _, _ | .cons _ _ _, .nil, _, _ => by simp [Fields.equivalent]
  | .cons x s f, .cons y t g, hf, hg => by
    have ihs := Ty.equivalent_iff (s := s) (t := t) hf.1 hg.1
    have ihf := Fields.equivalent_iff (f := f) (g := g) hf.2 hg.2
    simp [Fields.equivalent, ihs, ihf, and_assoc]

end

mutual

theorem Ty.beq_iff : {s t : Ty} → (s.beq t = true ↔ s = t)
  | .array m s, .array n t => by
    have ih := Ty.beq_iff (s := s) (t := t)
    simp [Ty.beq, ih]
  | .record f, .record g => by
    have ih := Fields.beq_iff (f := f) (g := g)
    simp [Ty.beq, ih]
  | .bool, t | .char, t | .int, t | .any, t | .error, t => by cases t <;> simp [Ty.beq]
  | .array _ _, .bool | .array _ _, .char | .array _ _, .int | .array _ _, .any
  | .array _ _, .error | .array _ _, .record _ | .record _, .bool | .record _, .char
  | .record _, .int | .record _, .any | .record _, .error | .record _, .array _ _ => by
    simp [Ty.beq]

theorem Fields.beq_iff : {f g : Fields} → (f.beq g = true ↔ f = g)
  | .nil, .nil => by simp [Fields.beq]
  | .nil, .cons _ _ _ | .cons _ _ _, .nil => by simp [Fields.beq]
  | .cons x s f, .cons y t g => by
    have ihs := Ty.beq_iff (s := s) (t := t)
    have ihf := Fields.beq_iff (f := f) (g := g)
    simp [Fields.beq, ihs, ihf, and_assoc]

end

instance : LawfulBEq Ty where
  eq_of_beq h := Ty.beq_iff.1 h
  rfl := Ty.beq_iff.2 rfl

/-- Between proper types the checker's test is equality. -/
theorem Ty.Proper.eq_of_equivalent {s t : Ty} (hs : s.Proper) (ht : t.Proper)
    (h : s.equivalent t = true) : s = t :=
  (Ty.equivalent_iff hs.plain ht.plain).1 h

/-! ## Sizes -/

mutual

/-- A value of a proper type takes up at least one word. -/
theorem Ty.Proper.size_pos : {t : Ty} → {n : Int} → t.Proper → t.size = .ok n → 0 < n
  | .bool, _, _, hsize | .char, _, _, hsize | .int, _, _, hsize => by
    cases hsize
    decide
  | .array length element, n, h, hsize => by
    simp only [Ty.size] at hsize
    obtain ⟨k, hk, hmul⟩ := bind_eq_ok_iff.1 hsize
    obtain ⟨-, rfl⟩ := Word.mul_eq_ok_iff.1 hmul
    exact Int.mul_pos h.1 (Ty.Proper.size_pos (t := element) h.2 hk)
  | .record fields, n, h, hsize => (Fields.Proper.sizeFrom_le (f := fields) h.2 hsize).2 h.1

/-- Every field adds to the size of a record. -/
theorem Fields.Proper.sizeFrom_le : {f : Fields} → {before n : Int} → f.Proper →
    f.sizeFrom before = .ok n → before ≤ n ∧ (f ≠ .nil → before < n)
  | .nil, before, n, _, hsize => by
    cases hsize
    exact ⟨Int.le_refl _, fun hne => absurd rfl hne⟩
  | .cons name of rest, before, n, h, hsize => by
    simp only [Fields.sizeFrom] at hsize
    obtain ⟨k, hk, hsize⟩ := bind_eq_ok_iff.1 hsize
    obtain ⟨next, hnext, hrest⟩ := bind_eq_ok_iff.1 hsize
    obtain ⟨-, rfl⟩ := Word.add_eq_ok_iff.1 hnext
    have hpos := Ty.Proper.size_pos (t := of) h.2.1 hk
    have hle := (Fields.Proper.sizeFrom_le (f := rest) h.2.2 hrest).1
    exact ⟨by omega, fun _ => by omega⟩

end

/-! ## Signatures -/

mutual

/-- Neither `any` nor `error` occurs in the types of a parameter. -/
def Formal.Plain : Formal → Prop
  | .const of | .var of => of.Plain
  | .proc formals => formals.Plain
  | .func formals result => formals.Plain ∧ result.Plain

/-- Neither `any` nor `error` occurs in the types of some parameters. -/
def Formals.Plain : Formals → Prop
  | .nil => True
  | .cons first rest => first.Plain ∧ rest.Plain

end

mutual

/-- The types of a parameter are proper. -/
def Formal.Proper : Formal → Prop
  | .const of | .var of => of.Proper
  | .proc formals => formals.Proper
  | .func formals result => formals.Proper ∧ result.Proper

/-- The types of some parameters are proper. -/
def Formals.Proper : Formals → Prop
  | .nil => True
  | .cons first rest => first.Proper ∧ rest.Proper

end

mutual

theorem Formal.Proper.plain : {f : Formal} → f.Proper → f.Plain
  | .const _, h | .var _, h => Ty.Proper.plain h
  | .proc f, h => Formals.Proper.plain (f := f) h
  | .func f _, h => ⟨Formals.Proper.plain (f := f) h.1, h.2.plain⟩

theorem Formals.Proper.plain : {f : Formals} → f.Proper → f.Plain
  | .nil, _ => trivial
  | .cons s f, h => ⟨Formal.Proper.plain (f := s) h.1, Formals.Proper.plain (f := f) h.2⟩

end

mutual

/-- A plain parameter matches only itself. -/
theorem Formal.matches_iff : {f g : Formal} → f.Plain → g.Plain → (f.matches g = true ↔ f = g)
  | .const s, .const t, hs, ht | .var s, .var t, hs, ht => by
    simp [Formal.matches, Ty.equivalent_iff (s := s) (t := t) hs ht]
  | .proc f, .proc g, hf, hg => by
    simp [Formal.matches, Formals.matches_iff (f := f) (g := g) hf hg]
  | .func f s, .func g t, hf, hg => by
    simp [Formal.matches, Formals.matches_iff (f := f) (g := g) hf.1 hg.1,
      Ty.equivalent_iff hf.2 hg.2]
  | .const _, .var _, _, _ | .const _, .proc _, _, _ | .const _, .func _ _, _, _
  | .var _, .const _, _, _ | .var _, .proc _, _, _ | .var _, .func _ _, _, _
  | .proc _, .const _, _, _ | .proc _, .var _, _, _ | .proc _, .func _ _, _, _
  | .func _ _, .const _, _, _ | .func _ _, .var _, _, _ | .func _ _, .proc _, _, _ => by
    simp [Formal.matches]

/-- A plain signature matches only itself. -/
theorem Formals.matches_iff :
    {f g : Formals} → f.Plain → g.Plain → (f.matches g = true ↔ f = g)
  | .nil, .nil, _, _ => by simp [Formals.matches]
  | .nil, .cons _ _, _, _ | .cons _ _, .nil, _, _ => by simp [Formals.matches]
  | .cons s f, .cons t g, hf, hg => by
    simp [Formals.matches, Formal.matches_iff (f := s) (g := t) hf.1 hg.1,
      Formals.matches_iff (f := f) (g := g) hf.2 hg.2]

end

/-- The types in what a name of the program means are proper; no such name is an operator. -/
def Meaning.Proper : Meaning → Prop
  | .const of | .var of | .type of => of.Proper
  | .proc formals => formals.Proper
  | .func formals result => formals.Proper ∧ result.Proper
  | .unary _ _ | .binary _ _ _ => False

/-- Standard names mean something proper, unless they are operators. -/
theorem Standard.proper_meaning (s : Standard) :
    s.meaning.Proper ∨ (∃ operand result, s.meaning = .unary operand result) ∨
      ∃ left right result, s.meaning = .binary left right result := by
  cases s <;> simp [Standard.meaning, Meaning.Proper, Formals.ofList, Formals.Proper,
    Formal.Proper, Ty.Proper]

end Triangle
