import Triangle.Machine.CodeStore

/-!
# Reading object files back

Four bytes of an object file are a word, and four words an instruction.  To read them so finds the
code again, however many instructions there are and whatever the signs of their operands.
-/

namespace Triangle

namespace Word

/-- The word of four bytes, the most significant first.  What exceeds the greatest word stands for a
negative number. -/
def ofBytes (a b c d : UInt8) : Int :=
  let residue : Int := ((a.toNat * 256 + b.toNat) * 256 + c.toNat) * 256 + d.toNat
  if residue ≤ greatest then residue else residue - 4294967296

/-- Reads words until the bytes come to an end; none may be left over. -/
def readAll : List UInt8 → Option (List Int)
  | [] => some []
  | a :: b :: c :: d :: rest => (readAll rest).map (ofBytes a b c d :: ·)
  | _ => none

theorem toNat_byte (k : Int) : ((UInt8.ofNat (k % 256).toNat).toNat : Int) = k % 256 := by
  have hlt : (k % 256).toNat < 2 ^ 8 := by omega
  rw [UInt8.toNat_ofNat', Nat.mod_eq_of_lt hlt]
  omega

/-- The bytes of a word are read as that word, also if it is negative. -/
theorem ofBytes_of_fits {n : Int} (h : fits n = true) :
    ofBytes (.ofNat (n / 16777216 % 256).toNat) (.ofNat (n / 65536 % 256).toNat)
      (.ofNat (n / 256 % 256).toNat) (.ofNat (n / 1 % 256).toNat) = n := by
  obtain ⟨hleast, hgreatest⟩ := fits_iff.1 h
  simp only [least, greatest] at hleast hgreatest
  simp only [ofBytes, toNat_byte, greatest]
  split <;> omega

theorem readAll_bytes {n : Int} (h : fits n = true) (rest : List UInt8) :
    readAll (bytes n ++ rest) = (readAll rest).map (n :: ·) := by
  have hread := ofBytes_of_fits h
  simp only [bytes, List.map_cons, List.map_nil, List.cons_append, List.nil_append, readAll, hread]

theorem readAll_flatMap_bytes (words : List Int) (h : ∀ n ∈ words, fits n = true)
    (rest : List UInt8) :
    readAll (words.flatMap bytes ++ rest) = (readAll rest).map (words ++ ·) := by
  induction words with
  | nil => exact Option.map_id_apply.symm
  | cons n words ih =>
    rw [List.flatMap_cons, List.append_assoc, readAll_bytes (h n List.mem_cons_self),
      ih fun k hk => h k (List.mem_cons_of_mem n hk), Option.map_map]
    rfl

end Word

namespace Instruction

/-- The length and the operand of an instruction are words. -/
def Encodable (instruction : Instruction) : Prop :=
  Word.fits instruction.n = true ∧ Word.fits instruction.d = true

instance (instruction : Instruction) : Decidable instruction.Encodable :=
  inferInstanceAs (Decidable (_ ∧ _))

/-- Reads instructions until the words come to an end; none may be left over. -/
def readAll : List Int → Option (List Instruction)
  | [] => some []
  | op :: r :: n :: d :: rest => do
    let op ← Opcode.ofCode? op
    let r ← Register.ofCode? r
    return ⟨op, r, n, d⟩ :: (← readAll rest)
  | _ => none

theorem readAll_flatMap_fields (code : List Instruction) :
    readAll (code.flatMap fields) = some code := by
  induction code with
  | nil => rfl
  | cons first rest ih => simp [fields, readAll, ih]

/-- The codes of operations and registers are words as well. -/
theorem Encodable.fits {instruction : Instruction} (h : instruction.Encodable) :
    ∀ n ∈ instruction.fields, Word.fits n = true := by
  obtain ⟨op, r, n, d⟩ := instruction
  have hop : Word.fits op.code = true := by cases op <;> rfl
  have hr : Word.fits r.code = true := by cases r <;> rfl
  simpa [fields] using ⟨hop, hr, h⟩

end Instruction

namespace ObjectCode

/-- All lengths and operands are words. -/
def Encodable (object : ObjectCode) : Prop :=
  ∀ instruction ∈ object.instructions, instruction.Encodable

instance (object : ObjectCode) : Decidable object.Encodable :=
  inferInstanceAs (Decidable (∀ instruction ∈ object.instructions, instruction.Encodable))

/-- The code that an object file holds. -/
def ofBytes? (bytes : List UInt8) : Option ObjectCode := do
  return ⟨← Instruction.readAll (← Word.readAll bytes)⟩

theorem bytes_eq (object : ObjectCode) :
    object.bytes = (object.instructions.flatMap Instruction.fields).flatMap Word.bytes := by
  rw [bytes, List.flatMap_assoc]
  rfl

theorem length_bytes (object : ObjectCode) :
    object.bytes.length = 16 * object.instructions.length := by
  simp only [bytes, List.length_flatMap, Instruction.length_bytes, List.map_const',
    List.sum_replicate_nat, Nat.mul_comm]

theorem Encodable.ofBytes?_bytes {object : ObjectCode} (h : object.Encodable) :
    ofBytes? object.bytes = some object := by
  have hfits : ∀ n ∈ object.instructions.flatMap Instruction.fields, Word.fits n = true := by
    intro n hn
    obtain ⟨instruction, hmem, hfield⟩ := List.mem_flatMap.1 hn
    exact (h instruction hmem).fits n hfield
  have hwords := Word.readAll_flatMap_bytes _ hfits []
  rw [List.append_nil, ← bytes_eq] at hwords
  simp [ofBytes?, hwords, Word.readAll, Instruction.readAll_flatMap_fields]

/-- **Object files can be read back.**  The bytes of some code are sixteen for each instruction, to
read them gives the code again, and so no other code has the same bytes. -/
theorem Encodable.decodable {object : ObjectCode} (h : object.Encodable) :
    object.bytes.length = 16 * object.instructions.length ∧
      ofBytes? object.bytes = some object ∧
      ∀ other : ObjectCode, other.Encodable → other.bytes = object.bytes → other = object := by
  refine ⟨object.length_bytes, h.ofBytes?_bytes, fun other hother hbytes => ?_⟩
  have hread := hother.ofBytes?_bytes
  rw [hbytes, h.ofBytes?_bytes] at hread
  exact (Option.some.inj hread).symm

/-- Code with negative operands, and with the least and the greatest one. -/
theorem extremes_decodable :
    let object : ObjectCode := ⟨[⟨.load, .lb, 1, -4⟩, ⟨.loadl, .cb, 2147483647, -2147483648⟩]⟩
    object.Encodable ∧ object.bytes.length = 32 ∧ ofBytes? object.bytes = some object := by
  intro object
  have h : object.Encodable := by decide
  exact ⟨h, h.decodable.1, h.decodable.2.1⟩

end ObjectCode

end Triangle
