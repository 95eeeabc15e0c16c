import Triangle.Proofs.Typing.Judgement

/-!
# The types of well-typed phrases are proper

In a context of proper types every phrase has a proper type, and a declaration introduces only
proper types.  The rules do not say so; it is shown by going through them once.
-/

namespace Triangle

variable {A : Annotations}

/-- The type of a field of a proper record is proper. -/
theorem Fields.Proper.of_find {f : Fields} {name before offset of} :
    f.Proper →
    f.find name before = .ok (some (offset, of)) → of.Proper := by
  cases f with
  | nil => exact fun _ h => by cases h
  | cons x t rest =>
    intro hproper h
    rw [Fields.find] at h
    split at h
    · cases h
      exact hproper.2.1
    · obtain ⟨k, -, h⟩ := bind_eq_ok_iff.1 h
      obtain ⟨next, -, h⟩ := bind_eq_ok_iff.1 h
      exact Fields.Proper.of_find (f := rest) hproper.2.2 h

/-- A standard operator takes operands of any type, or operands of proper types. -/
theorem Standard.binary_cases {s : Standard} {left right result : Ty}
    (h : s.meaning = .binary left right result) :
    result.Proper ∧ ((left = .any ∧ right = .any) ∨ (left.Proper ∧ right.Proper)) := by
  cases s <;> simp [Standard.meaning] at h <;> obtain ⟨rfl, rfl, rfl⟩ := h <;>
    simp [Ty.Proper]

theorem Standard.unary_proper {s : Standard} {operand result : Ty}
    (h : s.meaning = .unary operand result) : operand.Proper ∧ result.Proper := by
  cases s <;> simp [Standard.meaning] at h
  obtain ⟨rfl, rfl⟩ := h
  exact ⟨trivial, trivial⟩

/-- A name stands for proper types, unless it is an operator. -/
theorem Annotations.Means.proper {Γ : Context} {name : Terminal} {meaning : Meaning}
    (h : A.Means Γ name meaning) (hΓ : Γ.Proper) :
    meaning.Proper ∨ (∃ operand result, meaning = .unary operand result) ∨
      ∃ left right result, meaning = .binary left right result := by
  obtain ⟨referent, -, hmeaning⟩ := h
  cases referent with
  | node id => exact .inl (hΓ hmeaning)
  | standard s =>
    obtain rfl := Option.some.inj hmeaning
    exact s.proper_meaning

/-- An operator is a standard one: no name of the program means an operator. -/
theorem Annotations.Means.binary {Γ : Context} {name : Terminal} {left right result : Ty}
    (h : A.Means Γ name (.binary left right result)) (hΓ : Γ.Proper) :
    ∃ s, A.referentOf? name.mark.id = some (.standard s) ∧
      s.meaning = .binary left right result := by
  obtain ⟨referent, hreferent, hmeaning⟩ := h
  cases referent with
  | node id => exact (hΓ hmeaning).elim
  | standard s => exact ⟨s, hreferent, Option.some.inj hmeaning⟩

theorem Annotations.Means.unary {Γ : Context} {name : Terminal} {operand result : Ty}
    (h : A.Means Γ name (.unary operand result)) (hΓ : Γ.Proper) :
    ∃ s, A.referentOf? name.mark.id = some (.standard s) ∧ s.meaning = .unary operand result := by
  obtain ⟨referent, hreferent, hmeaning⟩ := h
  cases referent with
  | node id => exact (hΓ hmeaning).elim
  | standard s => exact ⟨s, hreferent, Option.some.inj hmeaning⟩

/-! ## Types -/

/-- All types that are declared are proper.  A signature is written in the scope of the routine it
belongs to, so its types are looked at before the routine is known to have proper ones. -/
def Context.ProperTypes (Γ : Context) : Prop := ∀ ⦃id τ⦄, Γ id = some (.type τ) → τ.Proper

theorem Context.Proper.types {Γ : Context} (h : Γ.Proper) : Γ.ProperTypes := fun _ _ hid => h hid

theorem Context.ProperTypes.bind {Γ : Context} {id : NodeId} {meaning : Meaning}
    (h : Γ.ProperTypes) (hmeaning : ∀ τ, meaning ≠ .type τ) : (Γ.bind id meaning).ProperTypes := by
  intro other τ hother
  obtain ⟨-, heq⟩ | ⟨-, hother⟩ := Context.bind_eq_some hother
  · exact (hmeaning τ heq).elim
  · exact h hother

theorem Formal.meaning_ne_type (formal : Formal) (τ : Ty) : formal.meaning ≠ .type τ := by
  cases formal <;> exact Meaning.noConfusion

theorem Formal.Proper.meaning {formal : Formal} (h : formal.Proper) : formal.meaning.Proper := by
  cases formal <;> exact h

mutual

theorem TypeDenoter.Denotes.proper : {of : TypeDenoter} → ∀ {Γ τ}, of.Denotes A Γ τ →
    Γ.ProperTypes → τ.Proper
  | .any _ | .error _ => False.elim
  | .array _ _ _ => by
    rintro ⟨-, length, σ, -, hlength, hσ, rfl⟩ hΓ
    exact ⟨hlength, TypeDenoter.Denotes.proper hσ hΓ⟩
  | .bool _ | .char _ | .int _ => by
    rintro ⟨-, rfl⟩ _
    trivial
  | .record _ _ => by
    rintro ⟨-, fs, hfs, rfl⟩ hΓ
    exact FieldDenoters.Denotes.proper hfs hΓ
  | .simple _ _ => by
    rintro ⟨-, referent, -, hmeaning⟩ hΓ
    cases referent with
    | node id => exact hΓ hmeaning
    | standard s => simpa [Option.some.inj hmeaning, Meaning.Proper] using s.proper_meaning

theorem FieldDenoters.Denotes.proper : {fields : FieldDenoters} → ∀ {Γ fs}, fields.Denotes A Γ fs →
    Γ.ProperTypes → fs ≠ .nil ∧ fs.Proper
  | .single _ _ _ => by
    rintro ⟨τ, hτ, rfl⟩ hΓ
    exact ⟨Fields.noConfusion, rfl, TypeDenoter.Denotes.proper hτ hΓ, trivial⟩
  | .multiple _ _ _ _ => by
    rintro ⟨τ, others, hτ, hothers, hfresh, rfl⟩ hΓ
    exact ⟨Fields.noConfusion, hfresh, TypeDenoter.Denotes.proper hτ hΓ,
      (FieldDenoters.Denotes.proper hothers hΓ).2⟩

end

/-! ## Formal parameters -/

mutual

theorem Parameter.Typed.signature : {parameter : Parameter} → ∀ {Γ Δ formal},
    parameter.Typed A Γ formal Δ → Γ.ProperTypes → formal.Proper ∧
    ∃ id, Δ = Γ.bind id formal.meaning
  | .const m _ _ | .var m _ _ => by
    rintro ⟨τ, hτ, -, rfl, -, rfl⟩ hΓ
    exact ⟨hτ.proper hΓ, m.id, rfl⟩
  | .proc m _ _ => by
    rintro ⟨formals, Θ, hformals, rfl, -, rfl⟩ hΓ
    exact ⟨Parameters.Typed.signature hformals hΓ, m.id, rfl⟩
  | .func m _ _ _ => by
    rintro ⟨formals, Θ, τ, hformals, hτ, -, rfl, -, rfl⟩ hΓ
    exact ⟨⟨Parameters.Typed.signature hformals hΓ, hτ.proper hΓ⟩, m.id, rfl⟩

theorem Parameters.Typed.signature : {parameters : Parameters} → ∀ {Γ Δ formals},
    parameters.Typed A Γ formals Δ → Γ.ProperTypes → formals.Proper
  | .empty _ => by
    rintro ⟨rfl, -⟩ _
    trivial
  | .single _ _ => by
    rintro ⟨formal, hformal, rfl⟩ hΓ
    exact ⟨(Parameter.Typed.signature hformal hΓ).1, trivial⟩
  | .multiple _ _ _ => by
    rintro ⟨formal, others, Θ, hfirst, hrest, rfl⟩ hΓ
    obtain ⟨hproper, id, rfl⟩ := Parameter.Typed.signature hfirst hΓ
    exact ⟨hproper, Parameters.Typed.signature hrest (hΓ.bind formal.meaning_ne_type)⟩

end

theorem Parameter.Typed.proper {parameter : Parameter} {Γ Δ : Context} {formal : Formal}
    (h : parameter.Typed A Γ formal Δ) (hΓ : Γ.Proper) : Δ.Proper := by
  obtain ⟨hproper, id, rfl⟩ := h.signature hΓ.types
  exact hΓ.bind hproper.meaning

theorem Parameters.Typed.proper : {parameters : Parameters} → ∀ {Γ Δ formals},
    parameters.Typed A Γ formals Δ → Γ.Proper → Δ.Proper
  | .empty _ => by
    rintro ⟨-, rfl⟩ hΓ
    exact hΓ
  | .single _ _ => by
    rintro ⟨formal, hformal, -⟩ hΓ
    exact hformal.proper hΓ
  | .multiple _ _ _ => by
    rintro ⟨formal, others, Θ, hfirst, hrest, -⟩ hΓ
    exact Parameters.Typed.proper hrest (hfirst.proper hΓ)

/-! ## Expressions and declarations -/

mutual

theorem Expression.Typed.proper : {e : Expression} → ∀ {Γ τ}, e.Typed A Γ τ → Γ.Proper → τ.Proper
  | .array _ _ => by
    rintro ⟨-, σ, length, helements, rfl⟩ hΓ
    exact (ArrayAggregate.Typed.proper helements hΓ).symm
  | .binary _ _ _ _ => by
    rintro ⟨-, σ, ρ, s, -, -, -, hs | ⟨hs, -⟩⟩ _
    · exact (Standard.binary_cases hs).1
    · exact (Standard.binary_cases hs).1
  | .call _ _ _ => by
    rintro ⟨-, formals, hname, -⟩ hΓ
    have hproper := hname.proper hΓ
    simp only [Meaning.Proper, reduceCtorEq, exists_false, or_false] at hproper
    exact hproper.2
  | .character _ _ | .integer _ _ => by
    rintro ⟨-, rfl⟩ _
    trivial
  | .empty _ => False.elim
  | .ifElse _ _ _ _ => fun h hΓ => Expression.Typed.proper h.2.2.1 hΓ
  | .letIn _ _ _ => by
    rintro ⟨-, Δ, hdeclaration, hbody⟩ hΓ
    exact Expression.Typed.proper hbody (Declaration.Typed.proper hdeclaration hΓ)
  | .record _ _ => by
    rintro ⟨-, fs, hfs, rfl⟩ hΓ
    exact RecordAggregate.Typed.proper hfs hΓ
  | .unary _ _ _ => by
    rintro ⟨-, σ, s, -, -, hs⟩ _
    exact (Standard.unary_proper hs).2
  | .vname _ _ => by
    rintro ⟨-, assignable, hvname⟩ hΓ
    exact Vname.Typed.proper hvname hΓ

/-- A declaration introduces proper types only. -/
theorem Declaration.Typed.proper : {d : Declaration} → ∀ {Γ Δ}, d.Typed A Γ Δ → Γ.Proper → Δ.Proper
  | .binaryOperator _ _ _ _ _ | .unaryOperator _ _ _ _ => False.elim
  | .const _ _ _ => by
    rintro ⟨τ, hvalue, -, -, rfl⟩ hΓ
    have hproper := Expression.Typed.proper hvalue hΓ
    exact hΓ.bind hproper
  | .func _ _ _ _ _ => by
    rintro ⟨τ, formals, Θ, hτ, -, -, rfl, hformals, -⟩ hΓ
    have hproper := hformals.signature (hΓ.types.bind fun _ => Meaning.noConfusion)
    exact hΓ.bind ⟨hproper, hτ.proper hΓ.types⟩
  | .proc _ _ _ _ => by
    rintro ⟨formals, Θ, -, rfl, hformals, -⟩ hΓ
    exact hΓ.bind (hformals.signature (hΓ.types.bind fun _ => Meaning.noConfusion))
  | .sequential _ _ _ => by
    rintro ⟨Θ, hfirst, hsecond⟩ hΓ
    exact Declaration.Typed.proper hsecond (Declaration.Typed.proper hfirst hΓ)
  | .type _ _ _ | .var _ _ _ => by
    rintro ⟨τ, hτ, -, -, rfl⟩ hΓ
    exact hΓ.bind (hτ.proper hΓ.types)

theorem Vname.Typed.proper : {v : Vname} → ∀ {Γ τ assignable}, v.Typed A Γ τ assignable → Γ.Proper →
    τ.Proper
  | .dot _ _ _ => by
    rintro ⟨-, fs, offset, hrecord, hfield⟩ hΓ
    exact (Vname.Typed.proper hrecord hΓ).2.of_find hfield
  | .simple _ _ => by
    rintro ⟨-, h⟩ hΓ
    have hmeaning := h.proper hΓ
    split at hmeaning <;> simpa [Meaning.Proper] using hmeaning
  | .subscript _ _ _ => by
    rintro ⟨-, length, harray, -⟩ hΓ
    exact (Vname.Typed.proper harray hΓ).2

theorem ArrayAggregate.Typed.proper : {elements : ArrayAggregate} → ∀ {Γ τ length},
    elements.Typed A Γ τ length → Γ.Proper → τ.Proper ∧ 0 < length
  | .single _ _ => by
    rintro ⟨helement, rfl⟩ hΓ
    exact ⟨Expression.Typed.proper helement hΓ, by decide⟩
  | .multiple _ _ _ => by
    rintro ⟨others, hfirst, hrest, rfl⟩ hΓ
    have hothers := (ArrayAggregate.Typed.proper hrest hΓ).2
    exact ⟨Expression.Typed.proper hfirst hΓ, by omega⟩

theorem RecordAggregate.Typed.proper : {fields : RecordAggregate} → ∀ {Γ fs}, fields.Typed A Γ fs →
    Γ.Proper → fs ≠ .nil ∧ fs.Proper
  | .single _ _ _ => by
    rintro ⟨τ, hvalue, rfl⟩ hΓ
    exact ⟨Fields.noConfusion, rfl, Expression.Typed.proper hvalue hΓ, trivial⟩
  | .multiple _ _ _ _ => by
    rintro ⟨τ, others, hvalue, hothers, hfresh, rfl⟩ hΓ
    exact ⟨Fields.noConfusion, hfresh, Expression.Typed.proper hvalue hΓ,
      (RecordAggregate.Typed.proper hothers hΓ).2⟩

end

end Triangle
