import Triangle.Proofs.Encoding.Sizes
import Triangle.Proofs.Typing.Fading

/-!
# The laws of equivalence

Equivalence of types is symmetric, and between plain types it is equality; the erroneous type
absorbs everything, so that a type goes on being equivalent to what it was equivalent to when parts
of it become erroneous.  It is no equivalence relation: `any` is not equivalent to itself, and two
different types are both equivalent to `error`.  Signatures are compared type by type, so the same
laws hold of them.
-/

namespace Triangle

/-! ## Symmetry -/

mutual

theorem Ty.equivalent_comm : (s t : Ty) → s.equivalent t = t.equivalent s
  | .array m s, .array n t => by
    rw [Ty.equivalent, Ty.equivalent, Ty.equivalent_comm s t, Bool.beq_comm]
  | .record f, .record g => Fields.equivalent_comm f g
  | .bool, t | .char, t | .int, t | .any, t | .error, t => by cases t <;> rfl
  | .array _ _, .bool | .array _ _, .char | .array _ _, .int | .array _ _, .any
  | .array _ _, .error | .array _ _, .record _ | .record _, .bool | .record _, .char
  | .record _, .int | .record _, .any | .record _, .error | .record _, .array _ _ => rfl

theorem Fields.equivalent_comm : (f g : Fields) → f.equivalent g = g.equivalent f
  | .nil, .nil | .nil, .cons _ _ _ | .cons _ _ _, .nil => rfl
  | .cons x s f, .cons y t g => by
    rw [Fields.equivalent, Fields.equivalent, Ty.equivalent_comm s t, Fields.equivalent_comm f g,
      Bool.beq_comm]

end

mutual

theorem Formal.matches_comm : (s t : Formal) → s.matches t = t.matches s
  | .const s, .const t | .var s, .var t => Ty.equivalent_comm s t
  | .proc f, .proc g => Formals.matches_comm f g
  | .func f s, .func g t => by
    rw [Formal.matches, Formal.matches, Formals.matches_comm f g, Ty.equivalent_comm s t]
  | .const _, .var _ | .const _, .proc _ | .const _, .func _ _ | .var _, .const _
  | .var _, .proc _ | .var _, .func _ _ | .proc _, .const _ | .proc _, .var _
  | .proc _, .func _ _ | .func _ _, .const _ | .func _ _, .var _ | .func _ _, .proc _ => rfl

theorem Formals.matches_comm : (f g : Formals) → f.matches g = g.matches f
  | .nil, .nil | .nil, .cons _ _ | .cons _ _, .nil => rfl
  | .cons s f, .cons t g => by
    rw [Formals.matches, Formals.matches, Formal.matches_comm s t, Formals.matches_comm f g]

end

/-! ## The laws -/

/-- **The laws of equivalence and of matching.**  Both are symmetric; on plain types, and on plain
signatures, they are equality, and then sizes agree; and both are kept when parts of a type become
erroneous. -/
theorem equivalent_and_matches_laws :
    ((∀ a b : Ty, a.equivalent b = b.equivalent a) ∧
      (∀ a b : Ty, a.Plain → b.Plain → a.equivalent b = (a == b) ∧
        (a.equivalent b = true → a.words = b.words ∧ a.size = b.size)) ∧
      (∀ (a : Ty) (n : Int), a.size = .ok n → n = a.words) ∧
      ∀ a a' b : Ty, a.Fades a' → a.equivalent b = true → a'.equivalent b = true) ∧
    ((∀ f g : Formal, f.matches g = g.matches f) ∧
      (∀ f g : Formal, f.Plain → g.Plain → (f.matches g = true ↔ f = g)) ∧
      ∀ f f' g : Formal, f.Fades f' → f.matches g = true → f'.matches g = true) ∧
    (∀ f g : Formals, f.matches g = g.matches f) ∧
      (∀ f g : Formals, f.Plain → g.Plain → (f.matches g = true ↔ f = g)) ∧
      ∀ f f' g : Formals, f.Fade f' → f.matches g = true → f'.matches g = true := by
  refine ⟨⟨Ty.equivalent_comm, fun a b ha hb => ⟨?_, fun h => ?_⟩, fun _ _ => Ty.words_of_size,
      fun _ _ b h => h.equivalent (.refl b)⟩,
    ⟨Formal.matches_comm, fun _ _ => Formal.matches_iff, fun _ _ g h => h.matches (.refl g)⟩,
    Formals.matches_comm, fun _ _ => Formals.matches_iff, fun _ _ g h => h.matches (.refl g)⟩
  · rw [Bool.eq_iff_iff, Ty.equivalent_iff ha hb, beq_iff_eq]
  · obtain rfl := (Ty.equivalent_iff ha hb).1 h
    exact ⟨rfl, rfl⟩

theorem equivalent_array_of_error : (Ty.array 3 .error).equivalent (.array 3 .int) = true :=
  equivalent_and_matches_laws.1.2.2.2 (.array 3 .int) _ _ (.array .error) rfl

end Triangle
