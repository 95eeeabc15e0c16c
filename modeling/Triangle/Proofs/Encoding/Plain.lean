import Triangle.Proofs.Encoding.Emission

/-!
# Code without jumps

The code that uses an entity or evaluates a literal neither jumps nor halts; only commands,
conditional expressions and declarations of routines have jumps.  The lengths in such code are small
numbers, the codes of registers, and the sizes of what is moved; what has to be known of the sizes
is left to the one who asks.
-/

namespace Triangle

/-- The address that a jump goes to. -/
def Instruction.target? (instruction : Instruction) : Option Int :=
  if instruction.op = .jump ∨ instruction.op = .jumpif then some instruction.d else none

theorem Instruction.d_of_target? {instruction : Instruction} {target : Int}
    (h : instruction.target? = some target) : instruction.d = target := by
  rw [Instruction.target?] at h
  split at h
  · exact Option.some.inj h
  · cases h

/-- Operations that go on with the next instruction or come back to it. -/
def Opcode.IsPlain (op : Opcode) : Prop := op ≠ .halt ∧ op ≠ .jump ∧ op ≠ .jumpif

instance (op : Opcode) : Decidable op.IsPlain := inferInstanceAs (Decidable (_ ∧ _))

/-- Instructions that neither jump nor halt, with lengths that are allowed. -/
def Plain (allowed : Int → Prop) (code : List Instruction) : Prop :=
  ∀ instruction ∈ code, instruction.op.IsPlain ∧ allowed instruction.n

theorem Opcode.IsPlain.target? {instruction : Instruction} (h : instruction.op.IsPlain) :
    instruction.target? = none :=
  if_neg fun hjump => hjump.elim h.2.1 h.2.2

/-- All lengths that an instruction can have are allowed. -/
def Permits (allowed : Int → Prop) : Prop := ∀ n, 0 ≤ n → n ≤ Machine.maxLength → allowed n

/-- A call can hold any register in place of a length. -/
theorem Register.code_le (register : Register) : (register.code : Int) ≤ Machine.maxLength := by
  cases register <;> decide

section

variable {allowed : Int → Prop} {code code' : List Instruction} {entity : Entity} {frame : Frame}
  {access : Access} {address : Address} {size : Int}

namespace Plain

theorem nil : Plain allowed [] := fun _ h => (List.not_mem_nil h).elim

theorem cons {op : Opcode} {r : Register} {n d : Int} (hop : op.IsPlain) (hn : allowed n)
    (hcode : Plain allowed code) : Plain allowed (⟨op, r, n, d⟩ :: code) :=
  List.forall_mem_cons.2 ⟨⟨hop, hn⟩, hcode⟩

theorem append (h : Plain allowed code) (h' : Plain allowed code') :
    Plain allowed (code ++ code') :=
  List.forall_mem_append.2 ⟨h, h'⟩

theorem ite {c : Prop} [Decidable c] (h : Plain allowed code) (h' : Plain allowed code') :
    Plain allowed (if c then code else code') := by
  split
  · exact h
  · exact h'

theorem literal (ha : Permits allowed) (value : Int) : Plain allowed (literalCode value) :=
  cons (by decide) (ha _ (by decide) (by decide)) nil

theorem primitive (ha : Permits allowed) (routine : Primitive) :
    Plain allowed (primitiveCode routine) :=
  ite nil (cons (by decide) (ha _ (by decide) (by decide)) nil)

theorem scale (ha : Permits allowed) (element : Int) (indexed : Bool) :
    Plain allowed (scaleCode element indexed) :=
  append (ite (append (literal ha _) (primitive ha _)) nil) (ite (primitive ha _) nil)

theorem pop {extra : Int} (hsize : extra > 0 → allowed size) :
    Plain allowed (if extra > 0 then [⟨.pop, .cb, size, extra⟩] else []) := by
  split
  · rename_i hextra
    exact cons (by decide) (hsize hextra) nil
  · exact nil

end Plain

theorem Entity.Called.plain (ha : Permits allowed) (h : entity.Called frame size code) :
    Plain allowed code := by
  cases entity with
  | knownRoutine address =>
    obtain ⟨link, -, rfl⟩ := h
    exact .cons (by decide) (ha _ (Int.natCast_nonneg _) link.code_le) .nil
  | unknownRoutine address =>
    obtain ⟨register, -, rfl⟩ := h
    exact .cons (by decide) (ha _ (by decide) (by decide))
      (.cons (by decide) (ha _ (by decide) (by decide)) .nil)
  | primitive routine =>
    obtain rfl := h
    exact .primitive ha routine
  | equality routine =>
    obtain rfl := h
    exact (Plain.literal ha _).append (.primitive ha routine)
  | _ =>
    obtain rfl := h
    exact .nil

theorem Entity.Closed.plain (ha : Permits allowed) (h : entity.Closed frame code) :
    Plain allowed code := by
  cases entity with
  | knownRoutine address =>
    obtain ⟨link, -, rfl⟩ := h
    exact .cons (by decide) (ha _ (by decide) (by decide))
      (.cons (by decide) (ha _ (by decide) (by decide)) .nil)
  | unknownRoutine address =>
    obtain ⟨register, -, rfl⟩ := h
    exact .cons (by decide) (ha _ (by decide) (by decide)) .nil
  | primitive routine =>
    obtain rfl := h
    exact .cons (by decide) (ha _ (by decide) (by decide))
      (.cons (by decide) (ha _ (by decide) (by decide)) .nil)
  | _ =>
    obtain rfl := h
    exact .nil

theorem Access.Pointed.plain (ha : Permits allowed) (h : access.Pointed address frame code) :
    Plain allowed code := by
  obtain ⟨register, -, rfl⟩ := h
  have hload : Plain allowed [⟨.load, register, Machine.addressSize, address.displacement⟩] :=
    .cons (by decide) (ha _ (by decide) (by decide)) .nil
  exact (hload.append (.ite (.primitive ha _) .nil)).append
    (.ite ((Plain.literal ha _).append (.primitive ha _)) .nil)

theorem Access.Moved.plain {direct indirect : Opcode} (ha : Permits allowed)
    (hdirect : direct.IsPlain) (hindirect : indirect.IsPlain) (hsize : allowed size)
    (h : access.Moved direct indirect address size frame code) : Plain allowed code := by
  obtain ⟨register, displacement, -, -, rfl⟩ := h
  have hload : Plain allowed [⟨.loada, register, 0, displacement⟩] :=
    .cons (by decide) (ha _ (by decide) (by decide)) .nil
  exact .ite ((hload.append (.primitive ha _)).append (.cons hindirect hsize .nil))
    (.cons hdirect hsize .nil)

/-- Fetching jumps nowhere, and the only length of its own is the size. -/
theorem Access.Fetched.plain (ha : Permits allowed) (h : access.Fetched size frame code)
    (hsize : size ≤ Machine.maxLength → allowed size) : Plain allowed code := by
  obtain ⟨hle, h⟩ := h
  split at h
  · obtain rfl := h
    exact .literal ha _
  · exact h.plain ha (by decide) (by decide) (hsize hle)
  · exact h.plain ha (by decide) (by decide) (hsize hle)
  · obtain ⟨pointer, hpointer, rfl⟩ := h
    exact (hpointer.plain ha).append (.cons (by decide) (hsize hle) .nil)
  · obtain rfl := h
    exact .nil

theorem Access.Stored.plain (ha : Permits allowed) (h : access.Stored size frame code)
    (hsize : size ≤ Machine.maxLength → allowed size) : Plain allowed code := by
  obtain ⟨hle, h⟩ := h
  split at h
  · exact h.plain ha (by decide) (by decide) (hsize hle)
  · obtain ⟨pointer, hpointer, rfl⟩ := h
    exact (hpointer.plain ha).append (.cons (by decide) (hsize hle) .nil)
  · obtain rfl := h
    exact .nil

theorem Access.Addressed.plain (ha : Permits allowed) (h : access.Addressed frame code) :
    Plain allowed code := by
  rw [Access.Addressed] at h
  split at h
  · obtain ⟨register, displacement, -, -, rfl⟩ := h
    exact .append (.cons (by decide) (ha _ (by decide) (by decide)) .nil)
      (.ite (.primitive ha _) .nil)
  · obtain ⟨register, displacement, -, -, rfl⟩ := h
    exact .append (.cons (by decide) (ha _ (by decide) (by decide)) .nil)
      (.ite (.primitive ha _) .nil)
  · exact h.plain ha
  · obtain rfl := h
    exact .nil

end

end Triangle
