import Triangle.Proofs.Typing.Rules

/-!
# Types that fade

After a mistake the checker goes on with the erroneous type, which spreads from there: into the
types of arrays and records, into signatures and into what names mean.  One type fades to another if
it is the same but for parts that have become erroneous.  The tests of the checker only get more
lenient on the way, and a field that could be located still can be.
-/

namespace Triangle

/-! ## The order -/

mutual

/-- A type is the other, but for parts that are erroneous there. -/
inductive Ty.Fades : Ty → Ty → Prop
  | error {τ} : Ty.Fades τ .error
  | bool : Ty.Fades .bool .bool
  | char : Ty.Fades .char .char
  | int : Ty.Fades .int .int
  | any : Ty.Fades .any .any
  | array {length σ τ} : Ty.Fades σ τ → Ty.Fades (.array length σ) (.array length τ)
  | record {f g} : Fields.Fade f g → Ty.Fades (.record f) (.record g)

/-- Fields are the others, but for parts of their types that are erroneous there. -/
inductive Fields.Fade : Fields → Fields → Prop
  | nil : Fields.Fade .nil .nil
  | cons {name σ τ f g} : Ty.Fades σ τ → Fields.Fade f g →
      Fields.Fade (.cons name σ f) (.cons name τ g)

end

mutual

/-- A formal is the other, but for parts of its types that are erroneous there. -/
inductive Formal.Fades : Formal → Formal → Prop
  | const {σ τ} : σ.Fades τ → Formal.Fades (.const σ) (.const τ)
  | var {σ τ} : σ.Fades τ → Formal.Fades (.var σ) (.var τ)
  | proc {f g} : Formals.Fade f g → Formal.Fades (.proc f) (.proc g)
  | func {f g σ τ} : Formals.Fade f g → σ.Fades τ → Formal.Fades (.func f σ) (.func g τ)

/-- A signature is the other, but for parts of its types that are erroneous there. -/
inductive Formals.Fade : Formals → Formals → Prop
  | nil : Formals.Fade .nil .nil
  | cons {s t f g} : Formal.Fades s t → Formals.Fade f g → Formals.Fade (.cons s f) (.cons t g)

end

/-- A meaning is the other, but for parts of its types that are erroneous there. -/
inductive Meaning.Fades : Meaning → Meaning → Prop
  | const {σ τ} : σ.Fades τ → Meaning.Fades (.const σ) (.const τ)
  | var {σ τ} : σ.Fades τ → Meaning.Fades (.var σ) (.var τ)
  | type {σ τ} : σ.Fades τ → Meaning.Fades (.type σ) (.type τ)
  | proc {f g} : f.Fade g → Meaning.Fades (.proc f) (.proc g)
  | func {f g σ τ} : f.Fade g → σ.Fades τ → Meaning.Fades (.func f σ) (.func g τ)
  | unary {σ τ} : Meaning.Fades (.unary σ τ) (.unary σ τ)
  | binary {σ ρ τ} : Meaning.Fades (.binary σ ρ τ) (.binary σ ρ τ)

mutual

theorem Ty.Fades.refl : (τ : Ty) → τ.Fades τ
  | .bool => .bool
  | .char => .char
  | .int => .int
  | .any => .any
  | .error => .error
  | .array _ element => .array (Ty.Fades.refl element)
  | .record fields => .record (Fields.Fade.refl fields)

theorem Fields.Fade.refl : (f : Fields) → f.Fade f
  | .nil => .nil
  | .cons _ of rest => .cons (Ty.Fades.refl of) (Fields.Fade.refl rest)

end

mutual

theorem Formal.Fades.refl : (s : Formal) → s.Fades s
  | .const τ => .const (.refl τ)
  | .var τ => .var (.refl τ)
  | .proc formals => .proc (Formals.Fade.refl formals)
  | .func formals τ => .func (Formals.Fade.refl formals) (.refl τ)

theorem Formals.Fade.refl : (f : Formals) → f.Fade f
  | .nil => .nil
  | .cons first rest => .cons (Formal.Fades.refl first) (Formals.Fade.refl rest)

end

theorem Meaning.Fades.refl : (meaning : Meaning) → meaning.Fades meaning
  | .const τ => .const (.refl τ)
  | .var τ => .var (.refl τ)
  | .type τ => .type (.refl τ)
  | .proc formals => .proc (.refl formals)
  | .func formals τ => .func (.refl formals) (.refl τ)
  | .unary _ _ => .unary
  | .binary _ _ _ => .binary

/-! ## Tests -/

theorem Ty.equivalent_error : (τ : Ty) → τ.equivalent .error = true
  | .bool | .char | .int | .any | .error | .array _ _ | .record _ => rfl

theorem Ty.error_equivalent (τ : Ty) : Ty.equivalent .error τ = true := by
  cases τ <;> rfl

mutual

/-- Types that were equivalent still are. -/
theorem Ty.Fades.equivalent : {σ τ σ' τ' : Ty} → σ.Fades σ' → τ.Fades τ' →
    σ.equivalent τ = true → σ'.equivalent τ' = true
  | σ, τ, _, _, .error, _, _ => Ty.error_equivalent _
  | σ, τ, _, _, _, .error, _ => Ty.equivalent_error _
  | .bool, .bool, _, _, .bool, .bool, _ | .char, .char, _, _, .char, .char, _
  | .int, .int, _, _, .int, .int, _ => rfl
  | .array m σ, .array n τ, _, _, .array hσ, .array hτ, h => by
    simp only [Ty.equivalent, Bool.and_eq_true] at h ⊢
    exact ⟨h.1, Ty.Fades.equivalent hσ hτ h.2⟩
  | .record f, .record g, _, _, .record hf, .record hg, h => by
    simp only [Ty.equivalent] at h ⊢
    exact Fields.Fade.equivalent hf hg h

theorem Fields.Fade.equivalent : {f g f' g' : Fields} → f.Fade f' → g.Fade g' →
    f.equivalent g = true → f'.equivalent g' = true
  | .nil, .nil, _, _, .nil, .nil, _ => rfl
  | .cons _ _ _, .cons _ _ _, _, _, .cons hσ hf, .cons hτ hg, h => by
    simp only [Fields.equivalent, Bool.and_eq_true] at h ⊢
    exact ⟨⟨h.1.1, Ty.Fades.equivalent hσ hτ h.1.2⟩, Fields.Fade.equivalent hf hg h.2⟩

end

mutual

/-- Formals that matched still do. -/
theorem Formal.Fades.matches : {s t s' t' : Formal} → s.Fades s' → t.Fades t' →
    s.matches t = true → s'.matches t' = true
  | .const _, .const _, _, _, .const hs, .const ht, h
  | .var _, .var _, _, _, .var hs, .var ht, h => hs.equivalent ht h
  | .proc _, .proc _, _, _, .proc hf, .proc hg, h => Formals.Fade.matches hf hg h
  | .func _ _, .func _ _, _, _, .func hf hs, .func hg ht, h => by
    simp only [Formal.matches, Bool.and_eq_true] at h ⊢
    exact ⟨Formals.Fade.matches hf hg h.1, hs.equivalent ht h.2⟩

theorem Formals.Fade.matches : {f g f' g' : Formals} → f.Fade f' → g.Fade g' →
    f.matches g = true → f'.matches g' = true
  | .nil, .nil, _, _, .nil, .nil, _ => rfl
  | .cons _ _, .cons _ _, _, _, .cons hs hf, .cons ht hg, h => by
    simp only [Formals.matches, Bool.and_eq_true] at h ⊢
    exact ⟨Formal.Fades.matches hs ht h.1, Formals.Fade.matches hf hg h.2⟩

end

theorem Fields.Fade.declares {name : String} :
    {f g : Fields} → f.Fade g → g.declares name = f.declares name
  | .nil, _, .nil => rfl
  | .cons _ _ _, _, .cons _ h => by rw [Fields.declares, Fields.declares, h.declares]

variable {name x : String}

theorem Fields.Fade.typeOf? {τ : Ty} {f g : Fields} (hfade : f.Fade g)
    (h : f.typeOf? name = some τ) :
    ∃ σ, g.typeOf? name = some σ ∧ τ.Fades σ := by
  cases hfade with
  | nil => exact absurd h (Option.some_ne_none _).symm
  | @cons x _ _ _ _ hσ hrest =>
    rw [Fields.typeOf?] at h ⊢
    by_cases hx : x = name
    · rw [if_pos hx] at h ⊢
      cases h
      exact ⟨_, rfl, hσ⟩
    · rw [if_neg hx] at h ⊢
      exact hrest.typeOf? h

/-! ## Sizes -/

theorem Word.fits_of_le {n k : Int} (hk : fits k = true) (hpos : 0 ≤ n) (hle : n ≤ k) :
    fits n = true := by
  rw [fits_iff] at hk ⊢
  exact ⟨by simp only [least]; omega, by omega⟩

mutual

/-- A type that has a size fades to one with a size that is not larger. -/
theorem Ty.Fades.size : {τ τ' : Ty} → {k : Int} → τ.Proper → τ.Fades τ' → τ.size = .ok k →
    ∃ n, τ'.size = .ok n ∧ 0 ≤ n ∧ n ≤ k
  | τ, _, k, hproper, .error, hsize => ⟨0, rfl, by simp, Int.le_of_lt (hproper.size_pos hsize)⟩
  | .bool, _, _, _, .bool, hsize | .char, _, _, _, .char, hsize
  | .int, _, _, _, .int, hsize => by
    cases hsize
    exact ⟨1, rfl, by decide, by decide⟩
  | .array length σ, .array _ τ, k, hproper, .array h, hsize => by
    simp only [Ty.size] at hsize ⊢
    obtain ⟨k', hk', hsize⟩ := bind_eq_ok_iff.1 hsize
    obtain ⟨hfits, rfl⟩ := Word.mul_eq_ok_iff.1 hsize
    obtain ⟨n, hn, hpos, hle⟩ := Ty.Fades.size hproper.2 h hk'
    have hlength := Int.le_of_lt hproper.1
    have hprod : length * n ≤ length * k' := Int.mul_le_mul_of_nonneg_left hle hlength
    have hpos' : 0 ≤ length * n := Int.mul_nonneg hlength hpos
    exact ⟨length * n, bind_eq_ok_iff.2 ⟨n, hn, Word.mul_eq_ok_iff.2
      ⟨Word.fits_of_le hfits hpos' hprod, rfl⟩⟩, hpos', hprod⟩
  | .record f, .record g, k, hproper, .record h, hsize => by
    simp only [Ty.size] at hsize ⊢
    obtain ⟨n, hn, hle, hbound⟩ :=
      Fields.Fade.sizeFrom hproper.2 h (Int.le_refl 0) (Int.le_refl 0) hsize
    exact ⟨n, hn, hle, hbound⟩

theorem Fields.Fade.sizeFrom : {f g : Fields} → {before before' k : Int} → f.Proper → f.Fade g →
    0 ≤ before' → before' ≤ before → f.sizeFrom before = .ok k →
    ∃ n, g.sizeFrom before' = .ok n ∧ 0 ≤ n ∧ n ≤ k
  | .nil, _, before, before', k, _, .nil, hpos, hle, hsize => by
    cases hsize
    exact ⟨before', rfl, hpos, hle⟩
  | .cons name σ f, .cons _ τ g, before, before', k, hproper, .cons h hrest, hpos, hle, hsize => by
    simp only [Fields.sizeFrom] at hsize ⊢
    obtain ⟨k', hk', hsize⟩ := bind_eq_ok_iff.1 hsize
    obtain ⟨_, hadd, hsize⟩ := bind_eq_ok_iff.1 hsize
    obtain ⟨hfits, rfl⟩ := Word.add_eq_ok_iff.1 hadd
    obtain ⟨n, hn, hpos', hle'⟩ := Ty.Fades.size hproper.2.1 h hk'
    obtain ⟨n', hn', hbounds⟩ := @Fields.Fade.sizeFrom _ _ _ (before' + n) _ hproper.2.2 hrest
      (by omega) (by omega) hsize
    exact ⟨n', bind_eq_ok_iff.2 ⟨n, hn, bind_eq_ok_iff.2 ⟨_, Word.add_eq_ok_iff.2
      ⟨Word.fits_of_le hfits (by omega) (by omega), rfl⟩, hn'⟩⟩, hbounds⟩

end

/-- A field that can be located still can be, and its type has faded. -/
theorem Fields.Fade.find {name : String} {σ : Ty} :
    {f g : Fields} → {before before' offset : Int} → f.Proper → f.Fade g → 0 ≤ before' →
      before' ≤ before → f.find name before = .ok (some (offset, σ)) →
      ∃ offset' τ, g.find name before' = .ok (some (offset', τ)) ∧ σ.Fades τ
  | .nil, _, _, _, _, _, .nil, _, _, h => by cases h
  | .cons x σ' f, .cons _ τ g, before, before', offset, hproper, .cons hσ hrest, hpos, hle, h => by
    rw [Fields.find] at h ⊢
    by_cases hx : x = name
    · rw [if_pos hx] at h ⊢
      cases h
      exact ⟨before', τ, rfl, hσ⟩
    · rw [if_neg hx] at h ⊢
      obtain ⟨k, hk, h⟩ := bind_eq_ok_iff.1 h
      obtain ⟨_, hadd, h⟩ := bind_eq_ok_iff.1 h
      obtain ⟨hfits, rfl⟩ := Word.add_eq_ok_iff.1 hadd
      obtain ⟨n, hn, hpos', hle'⟩ := Ty.Fades.size hproper.2.1 hσ hk
      obtain ⟨offset', τ', hfind, hτ'⟩ := @Fields.Fade.find name σ _ _ _ (before' + n) _
        hproper.2.2 hrest (by omega) (by omega) h
      exact ⟨offset', τ', bind_eq_ok_iff.2 ⟨n, hn, bind_eq_ok_iff.2 ⟨_, Word.add_eq_ok_iff.2
        ⟨Word.fits_of_le hfits (by omega) (by omega), rfl⟩, hfind⟩⟩, hτ'⟩

/-! ## Names -/

/-- The names of a scope mean the same, but for types that are erroneous there. -/
inductive Names.ScopeFades : List (String × Meaning) → List (String × Meaning) → Prop
  | nil : Names.ScopeFades [] []
  | cons {name m n scope scope'} : m.Fades n → Names.ScopeFades scope scope' →
    Names.ScopeFades ((name, m) :: scope) ((name, n) :: scope')

/-- Names mean the same, but for types that are erroneous there. -/
inductive Names.Fade : Names → Names → Prop
  | nil : Names.Fade [] []
  | cons {scope scope' Γ Γ'} : Names.ScopeFades scope scope' → Names.Fade Γ Γ' →
    Names.Fade (scope :: Γ) (scope' :: Γ')

/-- No scope has a name. -/
def Names.Lacks (Γ : Names) (x : String) : Prop := ∀ scope ∈ Γ, scope.lookup x = none

namespace Names

theorem ScopeFades.refl : (scope : List (String × Meaning)) → ScopeFades scope scope
  | [] => .nil
  | (_, m) :: scope => .cons (.refl m) (ScopeFades.refl scope)

theorem Fade.refl : (Γ : Names) → Γ.Fade Γ
  | [] => .nil
  | scope :: Γ => .cons (.refl scope) (Fade.refl Γ)

/-- A scope and what it fades to have the same names. -/
theorem ScopeFades.lookup {scope scope' : List (String × Meaning)} (h : ScopeFades scope scope')
    (name : String) :
    (scope.lookup name = none ∧ scope'.lookup name = none) ∨
      ∃ m n, scope.lookup name = some m ∧ scope'.lookup name = some n ∧ m.Fades n := by
  induction h with
  | nil => exact .inl ⟨rfl, rfl⟩
  | @cons x m n scope scope' hm _ ih =>
    rw [List.lookup_cons, List.lookup_cons]
    cases name == x with
    | true => exact .inr ⟨m, n, rfl, rfl, hm⟩
    | false => exact ih

theorem Fade.meaning? {Γ Γ' : Names} (h : Γ.Fade Γ') {m : Meaning}
    (hname : Γ.meaning? name = some m) : ∃ n, Γ'.meaning? name = some n ∧ m.Fades n := by
  induction h with
  | nil => cases hname
  | cons hscope _ ih =>
    rw [Names.meaning?, List.findSome?_cons] at hname ⊢
    obtain ⟨h₁, h₂⟩ | ⟨m', n, h₁, h₂, hm⟩ := hscope.lookup name
    · rw [h₁] at hname
      rw [h₂]
      exact ih hname
    · rw [h₁] at hname
      obtain rfl := Option.some.inj hname
      exact ⟨n, by rw [h₂], hm⟩

theorem Fade.fresh {Γ Γ' : Names} (h : Γ.Fade Γ') (hfresh : Γ.Fresh name) : Γ'.Fresh name := by
  cases h with
  | nil => exact hfresh
  | cons hscope _ =>
    obtain ⟨-, h₂⟩ | ⟨m, n, h₁, -, -⟩ := hscope.lookup name
    · exact h₂
    · exact absurd (hfresh.symm.trans h₁) (by simp)

theorem Fade.bind {Γ Γ' : Names} (h : Γ.Fade Γ') (name : String) {m n : Meaning}
    (hm : m.Fades n) : Names.Fade (Γ.bind name m) (Γ'.bind name n) := by
  cases h with
  | nil => exact .cons (.cons hm .nil) .nil
  | cons hscope hrest => exact .cons (.cons hm hscope) hrest

theorem Lacks.meaning? {Γ : Names} (h : Γ.Lacks x) : Γ.meaning? x = none :=
  List.findSome?_eq_none_iff.2 h

theorem Lacks.opened {Γ : Names} (h : Γ.Lacks x) : Names.Lacks ([] :: Γ) x := by
  intro scope hscope
  obtain rfl | hscope := List.mem_cons.1 hscope
  · rfl
  · exact h scope hscope

theorem Lacks.bind {Γ : Names} {m : Meaning} (h : Γ.Lacks x) (hne : name ≠ x) :
    Names.Lacks (Γ.bind name m) x := by
  intro scope hscope
  obtain rfl | hscope := List.mem_cons.1 hscope
  · rw [List.lookup_cons, beq_false_of_ne hne.symm]
    cases Γ with
    | nil => rfl
    | cons first rest => exact h first (by simp)
  · exact h scope (List.mem_of_mem_tail hscope)

end Names

end Triangle
