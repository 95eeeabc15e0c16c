import Triangle.Proofs.Encoding.Emission
import Triangle.Proofs.Typing.Regularity

/-!
# Words

How many words a value takes up follows from its type, and how many words the arguments of a call
take up follows from the signature.  Sizes are computed in machine words where code is generated;
what is computed is the exact number wherever there is a result.
-/

namespace Triangle

variable {τ : Ty} {frame above : Frame}

mutual

/-- The exact number of words a value of a type takes up. -/
def Ty.words : Ty → Int
  | .bool | .char | .int => 1
  | .any | .error => 0
  | .array length element => length * element.words
  | .record fields => fields.words

/-- The exact number of words that fields take up. -/
def Fields.words : Fields → Int
  | .nil => 0
  | .cons _ of rest => of.words + rest.words

end

/-- The words that are passed for a formal parameter. -/
def Formal.words : Formal → Int
  | .const of => of.words
  | .var _ => Machine.addressSize
  | .proc _ | .func _ _ => Machine.closureSize

/-- The words that are passed for a signature. -/
def Formals.words : Formals → Int
  | .nil => 0
  | .cons formal rest => formal.words + rest.words

mutual

theorem Ty.words_of_size : {τ : Ty} → ∀ {n}, τ.size = .ok n → n = τ.words
  | .bool | .char | .int | .any | .error => by
    intro h
    cases h
    rfl
  | .array length element => by
    intro h
    obtain ⟨size, hsize, h⟩ := bind_eq_ok_iff.1 h
    obtain ⟨-, rfl⟩ := Word.mul_eq_ok_iff.1 h
    rw [Ty.words_of_size hsize, Ty.words]
  | .record fields => by
    intro h
    have := Fields.words_of_sizeFrom (f := fields) h
    rw [Ty.words]
    omega

theorem Fields.words_of_sizeFrom : {f : Fields} → ∀ {k n}, f.sizeFrom k = .ok n → n = k + f.words
  | .nil => by
    intro h
    cases h
    rw [Fields.words, Int.add_zero]
  | .cons _ of rest => by
    intro h
    obtain ⟨size, hsize, h⟩ := bind_eq_ok_iff.1 h
    obtain ⟨sum, hsum, h⟩ := bind_eq_ok_iff.1 h
    obtain ⟨-, rfl⟩ := Word.add_eq_ok_iff.1 hsum
    rw [Fields.words_of_sizeFrom (f := rest) h, Ty.words_of_size hsize, Fields.words]
    omega

end

mutual

/-- A value of a proper type takes up a word at least. -/
theorem Ty.Proper.words_pos : {τ : Ty} → τ.Proper → 0 < τ.words
  | .bool, _ | .char, _ | .int, _ => by decide
  | .array _ element, h => Int.mul_pos h.1 (Ty.Proper.words_pos (τ := element) h.2)
  | .record fields, h => (Fields.Proper.words_nonneg (f := fields) h.2).2 h.1

theorem Fields.Proper.words_nonneg :
    {f : Fields} → f.Proper → 0 ≤ f.words ∧ (f ≠ .nil → 0 < f.words)
  | .nil, _ => ⟨Int.le_refl 0, fun h => (h rfl).elim⟩
  | .cons _ of rest, h => by
    have hof := Ty.Proper.words_pos (τ := of) h.2.1
    have hrest := (Fields.Proper.words_nonneg (f := rest) h.2.2).1
    rw [Fields.words]
    exact ⟨by omega, fun _ => by omega⟩

end

variable {size : Int} {p q : Draft} {Γ : Context}

theorem Annotations.words_of_sizeOf {A : Annotations} {id : NodeId} (ht : A.typeOf? id = some τ)
    (h : A.sizeOf id = .ok size) : size = τ.words := by
  rw [Annotations.sizeOf, ht] at h
  exact Ty.words_of_size h

/-! ## Values -/

variable {A : Annotations} {F : List Parameter} {m : Mark}

/-- Expressions that push as many words as are on file for them. -/
def Expression.isFiled : Expression → Bool
  | .binary _ _ _ _ | .call _ _ _ | .unary _ _ _ | .vname _ _ => true
  | _ => false

namespace Expression.Emits

/-- The size of such an expression is looked up. -/
theorem sizeOf {e : Expression} (hfiled : e.isFiled = true) (h : e.Emits A F frame p size q) :
    A.sizeOf e.mark.id = .ok size := by
  cases e with
  | binary _ _ _ _ =>
    obtain ⟨_, _, _, _, _, _, _, _, -, -, -, -, -, -, hsize, -⟩ := h
    exact hsize
  | call _ _ _ | unary _ _ _ =>
    obtain ⟨_, _, _, _, -, -, -, hsize, -⟩ := h
    exact hsize
  | vname _ _ =>
    obtain ⟨_, _, _, hsize, -⟩ := h
    exact hsize
  | _ => cases hfiled

/-- The size of a choice is that of its first limb. -/
theorem limb {condition first second : Expression}
    (h : (Expression.ifElse m condition first second).Emits A F frame p size q) :
    ∃ r r', first.Emits A F frame r size r' := by
  obtain ⟨_, _, _, r', _, -, hfirst, -, -⟩ := h
  exact ⟨_, r', hfirst⟩

/-- The size of a block is that of its body. -/
theorem body {declaration : Declaration} {e : Expression}
    (h : (Expression.letIn m declaration e).Emits A F frame p size q) :
    ∃ above r r', e.Emits A F above r size r' := by
  obtain ⟨_, above, r, r', -, -, hbody, -, -⟩ := h
  exact ⟨above, r, r', hbody⟩

end Expression.Emits

mutual

/-- An expression pushes a value of its type. -/
theorem Expression.Emits.size_eq : {e : Expression} → ∀ {Γ τ F frame p q size}, e.Typed A Γ τ →
    e.Emits A F frame p size q → size = τ.words
  | .array _ _ => by
    rintro ⟨-, _, _, helements, rfl⟩ ⟨_, hr, -⟩
    rw [ArrayAggregate.Emits.size_eq helements hr, Ty.words]
  | .binary _ _ _ _ | .call _ _ _ | .unary _ _ _ | .vname _ _ => by
    intro ht he
    exact Annotations.words_of_sizeOf ht.1 (he.sizeOf rfl)
  | .character _ _ | .integer _ _ => by
    rintro ⟨-, rfl⟩ ⟨rfl, -⟩
    rfl
  | .empty _ => fun ht _ => ht.elim
  | .ifElse _ _ _ _ => by
    rintro ⟨-, -, hfirst, -⟩ he
    obtain ⟨_, _, hr⟩ := he.limb
    exact Expression.Emits.size_eq hfirst hr
  | .letIn _ _ _ => by
    rintro ⟨-, _, -, hbody⟩ he
    obtain ⟨_, _, _, hr⟩ := he.body
    exact Expression.Emits.size_eq hbody hr
  | .record _ _ => by
    rintro ⟨-, _, hfields, rfl⟩ ⟨_, hr, -⟩
    rw [RecordAggregate.Emits.size_eq hfields hr, Ty.words]

theorem ArrayAggregate.Emits.size_eq : {elements : ArrayAggregate} → ∀ {Γ τ length F frame p q
    size}, elements.Typed A Γ τ length → elements.Emits A F frame p size q → size = length * τ.words
  | .single _ _ => by
    rintro ⟨helement, rfl⟩ ⟨_, hr, -⟩
    rw [Expression.Emits.size_eq helement hr, Int.one_mul]
  | .multiple _ _ _ => by
    rintro ⟨_, hfirst, hrest, rfl⟩ ⟨_, _, _, _, _, hr₁, -, hr₂, hsum, -⟩
    obtain ⟨-, rfl⟩ := Word.add_eq_ok_iff.1 hsum
    rw [Expression.Emits.size_eq hfirst hr₁, ArrayAggregate.Emits.size_eq hrest hr₂, Int.add_mul,
      Int.one_mul, Int.add_comm]

theorem RecordAggregate.Emits.size_eq : {fields : RecordAggregate} → ∀ {Γ fs F frame p q size},
    fields.Typed A Γ fs → fields.Emits A F frame p size q → size = fs.words
  | .single _ _ _ => by
    rintro ⟨_, hvalue, rfl⟩ ⟨_, hr, -⟩
    rw [Expression.Emits.size_eq hvalue hr, Fields.words, Fields.words, Int.add_zero]
  | .multiple _ _ _ _ => by
    rintro ⟨_, _, hvalue, hrest, -, rfl⟩ ⟨_, _, _, _, _, hr₁, -, hr₂, hsum, -⟩
    obtain ⟨-, rfl⟩ := Word.add_eq_ok_iff.1 hsum
    rw [Expression.Emits.size_eq hvalue hr₁, RecordAggregate.Emits.size_eq hrest hr₂, Fields.words]

end

/-! ## Parameters -/

theorem Argument.Emits.size_eq {argument : Argument} {formal : Formal} {F : List Parameter}
    {frame : Frame} (ht : argument.Typed A Γ formal) (he : argument.Emits A F frame p size q) :
    size = formal.words := by
  cases argument with
  | const m value =>
    obtain ⟨_, hvalue, rfl⟩ := ht
    obtain ⟨_, hr, -⟩ := he
    exact hr.size_eq hvalue
  | func m name =>
    obtain ⟨_, _, -, rfl⟩ := ht
    obtain ⟨_, -, rfl, -⟩ := he
    rfl
  | proc m name =>
    obtain ⟨_, -, rfl⟩ := ht
    obtain ⟨_, -, rfl, -⟩ := he
    rfl
  | var m vname =>
    obtain ⟨_, -, rfl⟩ := ht
    obtain ⟨_, _, _, -, -, rfl, -⟩ := he
    rfl

theorem Arguments.Emits.size_eq {arguments : Arguments} {formals Γ F frame p q size} :
    arguments.Typed A Γ formals → arguments.Emits A F frame p size q → size = formals.words := by
  cases arguments with
  | empty _ =>
    rintro rfl ⟨rfl, -⟩
    rfl
  | single _ _ =>
    rintro ⟨_, hargument, rfl⟩ ⟨_, hr, -⟩
    rw [hr.size_eq hargument, Formals.words, Formals.words, Int.add_zero]
  | multiple _ _ _ =>
    rintro ⟨_, _, hfirst, hrest, rfl⟩ ⟨_, _, _, _, _, hr₁, -, hr₂, hsum, -⟩
    obtain ⟨-, rfl⟩ := Word.add_eq_ok_iff.1 hsum
    rw [hr₁.size_eq hfirst, Arguments.Emits.size_eq hrest hr₂, Formals.words]

theorem Parameter.Placed.size_eq {parameter : Parameter} {Δ : Context} {formal : Formal}
    (ht : parameter.Typed A Γ formal Δ) (he : parameter.Placed A frame p size q) :
    size = formal.words := by
  cases parameter with
  | const m name of =>
    obtain ⟨_, -, hof, rfl, -⟩ := ht
    exact Annotations.words_of_sizeOf hof he.1
  | var m name of =>
    obtain ⟨_, -, -, rfl, -⟩ := ht
    exact he.1
  | proc m name parameters =>
    obtain ⟨_, _, -, rfl, -⟩ := ht
    exact he.1
  | func m name parameters result =>
    obtain ⟨_, _, _, -, -, -, rfl, -⟩ := ht
    exact he.1

theorem Parameters.Placed.size_eq {parameters : Parameters} {Γ Δ formals frame p q size} :
    parameters.Typed A Γ formals Δ → parameters.Placed A frame p size q → size = formals.words := by
  cases parameters with
  | empty _ =>
    rintro ⟨rfl, -⟩ he
    exact he.1
  | single _ _ =>
    rintro ⟨_, hparameter, rfl⟩ he
    rw [Parameter.Placed.size_eq hparameter he, Formals.words, Formals.words, Int.add_zero]
  | multiple _ _ _ =>
    rintro ⟨_, _, _, hfirst, hrest, rfl⟩ ⟨_, _, _, _, hr, -, hq, hsum⟩
    obtain ⟨-, rfl⟩ := Word.add_eq_ok_iff.1 hsum
    rw [hq.size_eq hfirst, Parameters.Placed.size_eq hrest hr, Formals.words]

theorem Expression.Emits.size_nonneg {e : Expression} {F : List Parameter} (ht : e.Typed A Γ τ)
    (hΓ : Γ.Proper) (he : e.Emits A F frame p size q) : 0 ≤ size := by
  rw [he.size_eq ht]
  exact Int.le_of_lt (ht.proper hΓ).words_pos

theorem Argument.Emits.size_nonneg {a : Argument} {formal : Formal} {F : List Parameter}
    {frame : Frame} (ht : a.Typed A Γ formal) (hΓ : Γ.Proper) (he : a.Emits A F frame p size q) :
    0 ≤ size := by
  cases a with
  | const m value =>
    obtain ⟨_, hvalue, -⟩ := ht
    obtain ⟨_, hr, -⟩ := he
    exact hr.size_nonneg hvalue hΓ
  | func m name | proc m name =>
    obtain ⟨_, -, rfl, -⟩ := he
    decide
  | var m vname =>
    obtain ⟨_, _, _, -, -, rfl, -⟩ := he
    decide

/-- What a block declares has a size that is not negative. -/
theorem Declaration.Emits.size_nonneg : {d : Declaration} → ∀ {Γ Δ F frame p q size},
    d.Typed A Γ Δ → Γ.Proper → d.Emits A F frame p size q → 0 ≤ size
  | .const _ _ value => by
    rintro ⟨τ, hvalue, -⟩ hΓ ⟨r, hr, -⟩
    split at hr
    · exact Int.le_of_eq hr.1.symm
    · obtain ⟨r', hr', -⟩ := hr
      exact hr'.size_nonneg hvalue hΓ
  | .func _ _ _ _ _ | .proc _ _ _ _ => by
    rintro _ _ ⟨_, -, rfl, -⟩
    exact Int.le_refl 0
  | .binaryOperator _ _ _ _ _ | .unaryOperator _ _ _ _ => fun ht => ht.elim
  | .sequential _ _ _ => by
    rintro ⟨Θ, hfirst, hsecond⟩ hΓ ⟨_, _, _, _, _, hr₁, -, hr₂, hsum, -⟩
    obtain ⟨-, rfl⟩ := Word.add_eq_ok_iff.1 hsum
    have h₁ := Declaration.Emits.size_nonneg hfirst hΓ hr₁
    have h₂ := Declaration.Emits.size_nonneg hsecond (hfirst.proper hΓ) hr₂
    omega
  | .type _ _ _ => fun _ _ he => Int.le_of_eq he.1.symm
  | .var _ _ _ => by
    rintro ⟨τ, hτ, htype, -⟩ hΓ he
    rw [Annotations.words_of_sizeOf htype he.1]
    exact Int.le_of_lt (hτ.proper hΓ.types).words_pos

/-! ## Frames -/

theorem Frame.expand_eq (h : frame.expand size = .ok above) :
    above = ⟨frame.level, frame.size + size⟩ ∧ frame.size + size ≤ Word.greatest := by
  simp only [Frame.expand] at h
  obtain ⟨sum, hsum, h⟩ := bind_eq_ok_iff.1 h
  obtain ⟨hfits, rfl⟩ := Word.add_eq_ok_iff.1 hsum
  cases h
  exact ⟨rfl, (Word.fits_iff.1 hfits).2⟩

/-- Pushing some words and then some more. -/
theorem Frame.expand_add {top : Frame} {m n k : Int} (h : frame.expand m = .ok above)
    (hsum : Word.add m n = .ok k) (htop : frame.expand k = .ok top) : above.expand n = .ok top := by
  obtain ⟨rfl, -⟩ := Frame.expand_eq h
  obtain ⟨-, rfl⟩ := Word.add_eq_ok_iff.1 hsum
  rw [← htop]
  simp only [Frame.expand, Word.add, Int.add_assoc]

theorem Frame.push_eq {inner : Frame} (h : frame.push size = .ok inner) :
    inner = ⟨frame.level + 1, size⟩ := by
  rw [Frame.push] at h
  split at h
  · cases h
    rfl
  · cases h

end Triangle
