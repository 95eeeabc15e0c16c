import Triangle.Proofs.Syntax.Sites
import Triangle.Proofs.Typing.Regularity

/-!
# A well-typed tree has its types on file

The rules of typing ask for an annotation at every site of a phrase that has a type.  Going through
them once shows that each such site has a proper one.
-/

namespace Triangle

variable {A : Annotations}

/-- The sites that have a type have a proper one on file. -/
def Covers (A : Annotations) (sites : List Site) : Prop :=
  ∀ site ∈ sites, ∀ id, site.typed? = some id → ∃ τ, A.typeOf? id = some τ ∧ τ.Proper

namespace Covers

variable {sites sites' : List Site} {site : Site} {id : NodeId} {τ : Ty}

theorem nil : Covers A [] := fun _ h => nomatch h

theorem append (h : Covers A sites) (h' : Covers A sites') : Covers A (sites ++ sites') :=
  List.forall_mem_append.2 ⟨h, h'⟩

/-- A site that has a type, after others. -/
theorem typed (h : Covers A sites) (hid : site.typed? = some id) (hτ : A.typeOf? id = some τ)
    (hproper : τ.Proper) : Covers A (sites ++ [site]) := by
  refine h.append (List.forall_mem_singleton.2 fun other hother => ?_)
  cases hid.symm.trans hother
  exact ⟨τ, hτ, hproper⟩

/-- A site that has none. -/
theorem untyped (hid : site.typed? = none) : Covers A [site] :=
  List.forall_mem_singleton.2 fun _ hother => nomatch hid.symm.trans hother

end Covers

open Covers (nil)

/-! ## Types and parameters -/

mutual

theorem TypeDenoter.Denotes.covers :
    {of : TypeDenoter} → ∀ {Γ τ}, of.Denotes A Γ τ → Γ.ProperTypes → Covers A of.sites
  | .any _ | .error _ => fun h => h.elim
  | .array _ _ _ => by
    intro h hΓ
    obtain ⟨htype, length, σ, -, -, hσ, -⟩ := id h
    exact (TypeDenoter.Denotes.covers hσ hΓ).typed rfl htype (TypeDenoter.Denotes.proper h hΓ)
  | .bool _ | .char _ | .int _ => fun h hΓ =>
    nil.typed rfl h.1 (TypeDenoter.Denotes.proper h hΓ)
  | .record _ _ => by
    intro h hΓ
    obtain ⟨htype, fs, hfs, -⟩ := id h
    exact (FieldDenoters.Denotes.covers hfs hΓ).typed rfl htype (TypeDenoter.Denotes.proper h hΓ)
  | .simple _ _ => fun h hΓ =>
    (Covers.untyped rfl).typed rfl h.1 (TypeDenoter.Denotes.proper h hΓ)

theorem FieldDenoters.Denotes.covers : {fields : FieldDenoters} → ∀ {Γ fs}, fields.Denotes A Γ fs →
    Γ.ProperTypes → Covers A fields.sites
  | .single _ _ _ => by
    rintro ⟨τ, hτ, -⟩ hΓ
    exact TypeDenoter.Denotes.covers hτ hΓ
  | .multiple _ _ _ _ => by
    rintro ⟨τ, others, hτ, hothers, -⟩ hΓ
    exact (TypeDenoter.Denotes.covers hτ hΓ).append (FieldDenoters.Denotes.covers hothers hΓ)

end

mutual

theorem Parameter.Typed.covers : {parameter : Parameter} → ∀ {Γ Δ formal},
    parameter.Typed A Γ formal Δ → Γ.ProperTypes → Covers A parameter.sites
  | .const _ _ _ | .var _ _ _ => by
    rintro ⟨τ, hτ, htype, -⟩ hΓ
    exact (hτ.covers hΓ).typed rfl htype (hτ.proper hΓ)
  | .proc _ _ _ => by
    rintro ⟨formals, Θ, hformals, -⟩ hΓ
    exact (hformals.covers hΓ).append (.untyped rfl)
  | .func _ _ _ _ => by
    rintro ⟨formals, Θ, τ, hformals, hτ, htype, -⟩ hΓ
    exact ((hformals.covers hΓ).append (hτ.covers hΓ)).typed rfl htype (hτ.proper hΓ)

theorem Parameters.Typed.covers : {parameters : Parameters} → ∀ {Γ Δ formals},
    parameters.Typed A Γ formals Δ → Γ.ProperTypes → Covers A parameters.sites
  | .empty _ => fun _ _ => nil
  | .single _ _ => by
    rintro ⟨formal, hformal, -⟩ hΓ
    exact hformal.covers hΓ
  | .multiple _ _ _ => by
    rintro ⟨formal, others, Θ, hfirst, hrest, -⟩ hΓ
    have hΘ : Θ.ProperTypes := by
      obtain ⟨-, id, rfl⟩ := hfirst.signature hΓ
      exact hΓ.bind formal.meaning_ne_type
    exact (hfirst.covers hΓ).append (hrest.covers hΘ)

end

/-! ## Commands, expressions and declarations -/

mutual

theorem Command.Typed.covers : {c : Command} → ∀ {Γ}, c.Typed A Γ → Γ.Proper → Covers A c.sites
  | .assign _ _ _ => by
    rintro ⟨τ, htarget, hvalue⟩ hΓ
    exact (htarget.covers hΓ).append (hvalue.covers hΓ)
  | .doubleAssign _ _ _ _ _ => by
    rintro ⟨τ, σ, hfirst, hfirstValue, hsecond, hsecondValue⟩ hΓ
    exact (((hfirst.covers hΓ).append (hsecond.covers hΓ)).append (hfirstValue.covers hΓ)).append
      (hsecondValue.covers hΓ)
  | .call _ _ _ => by
    rintro ⟨formals, -, harguments⟩ hΓ
    exact (Covers.untyped rfl).append (harguments.covers hΓ)
  | .empty _ => fun _ _ => nil
  | .ifElse _ _ _ _ => fun h hΓ =>
    ((h.1.covers hΓ).append (h.2.1.covers hΓ)).append (h.2.2.covers hΓ)
  | .letIn _ _ _ => by
    rintro ⟨Δ, hdeclaration, hbody⟩ hΓ
    exact (hdeclaration.covers hΓ).append (hbody.covers (hdeclaration.proper hΓ))
  | .sequential _ _ _ | .whileDo _ _ _ => fun h hΓ => (h.1.covers hΓ).append (h.2.covers hΓ)
  | .loopWhile _ _ _ _ => fun h hΓ =>
    ((h.1.covers hΓ).append (h.2.1.covers hΓ)).append (h.2.2.covers hΓ)

theorem Expression.Typed.covers : {e : Expression} → ∀ {Γ τ}, e.Typed A Γ τ → Γ.Proper →
    Covers A e.sites
  | .array _ _ => by
    intro h hΓ
    obtain ⟨htype, σ, length, helements, -⟩ := id h
    exact (helements.covers hΓ).typed rfl htype (h.proper hΓ)
  | .binary _ _ _ _ => by
    intro h hΓ
    obtain ⟨htype, σ, ρ, s, hleft, hright, -⟩ := id h
    exact (((hleft.covers hΓ).append (.untyped rfl)).append (hright.covers hΓ)).typed rfl htype
      (h.proper hΓ)
  | .call _ _ _ => by
    intro h hΓ
    obtain ⟨htype, formals, -, harguments⟩ := id h
    exact ((Covers.untyped rfl).append (harguments.covers hΓ)).typed rfl htype (h.proper hΓ)
  | .character _ _ | .integer _ _ => fun h hΓ => nil.typed rfl h.1 (h.proper hΓ)
  | .empty _ => fun h => h.elim
  | .ifElse _ _ _ _ => by
    intro h hΓ
    obtain ⟨htype, hcondition, hfirst, hsecond⟩ := id h
    exact (((hcondition.covers hΓ).append (hfirst.covers hΓ)).append (hsecond.covers hΓ)).typed rfl
      htype (h.proper hΓ)
  | .letIn _ _ _ => by
    intro h hΓ
    obtain ⟨htype, Δ, hdeclaration, hbody⟩ := id h
    exact ((hdeclaration.covers hΓ).append (hbody.covers (hdeclaration.proper hΓ))).typed rfl htype
      (h.proper hΓ)
  | .record _ _ => by
    intro h hΓ
    obtain ⟨htype, fs, hfields, -⟩ := id h
    exact (hfields.covers hΓ).typed rfl htype (h.proper hΓ)
  | .unary _ _ _ => by
    intro h hΓ
    obtain ⟨htype, σ, s, hoperand, -⟩ := id h
    exact ((Covers.untyped rfl).append (hoperand.covers hΓ)).typed rfl htype (h.proper hΓ)
  | .vname _ _ => by
    intro h hΓ
    obtain ⟨htype, assignable, hvname⟩ := id h
    exact (hvname.covers hΓ).typed rfl htype (h.proper hΓ)

theorem Declaration.Typed.covers : {d : Declaration} → ∀ {Γ Δ}, d.Typed A Γ Δ → Γ.Proper →
    Covers A d.sites
  | .binaryOperator _ _ _ _ _ | .unaryOperator _ _ _ _ => fun h => h.elim
  | .const _ _ _ => by
    rintro ⟨τ, hvalue, htype, -⟩ hΓ
    exact (hvalue.covers hΓ).typed rfl htype (hvalue.proper hΓ)
  | .func _ _ _ _ _ => by
    intro h hΓ
    have hΔ := Declaration.Typed.proper h hΓ
    obtain ⟨τ, formals, Θ, hτ, htype, -, rfl, hformals, hbody⟩ := h
    exact (((hformals.covers hΔ.types).append (hτ.covers hΓ.types)).append
      (hbody.covers (hformals.proper hΔ))).typed rfl htype (hτ.proper hΓ.types)
  | .proc _ _ _ _ => by
    intro h hΓ
    have hΔ := Declaration.Typed.proper h hΓ
    obtain ⟨formals, Θ, -, rfl, hformals, hbody⟩ := h
    exact ((hformals.covers hΔ.types).append (hbody.covers (hformals.proper hΔ))).append
      (.untyped rfl)
  | .sequential _ _ _ => by
    rintro ⟨Θ, hfirst, hsecond⟩ hΓ
    exact (hfirst.covers hΓ).append (hsecond.covers (hfirst.proper hΓ))
  | .type _ _ _ | .var _ _ _ => by
    rintro ⟨τ, hτ, htype, -⟩ hΓ
    exact (hτ.covers hΓ.types).typed rfl htype (hτ.proper hΓ.types)

theorem Vname.Typed.covers : {v : Vname} → ∀ {Γ τ assignable}, v.Typed A Γ τ assignable → Γ.Proper →
    Covers A v.sites
  | .dot _ _ _ => by
    intro h hΓ
    obtain ⟨htype, fs, offset, hrecord, -⟩ := id h
    exact (hrecord.covers hΓ).typed rfl htype (h.proper hΓ)
  | .simple _ _ => fun h hΓ => (Covers.untyped rfl).typed rfl h.1 (h.proper hΓ)
  | .subscript _ _ _ => by
    intro h hΓ
    obtain ⟨htype, length, harray, hindex⟩ := id h
    exact ((harray.covers hΓ).append (hindex.covers hΓ)).typed rfl htype (h.proper hΓ)

theorem Argument.Typed.covers : {a : Argument} → ∀ {Γ formal}, a.Typed A Γ formal → Γ.Proper →
    Covers A a.sites
  | .const _ _ => by
    rintro ⟨τ, hvalue, -⟩ hΓ
    exact hvalue.covers hΓ
  | .func _ _ | .proc _ _ => fun _ _ => .untyped rfl
  | .var _ _ => by
    rintro ⟨τ, hvname, -⟩ hΓ
    exact hvname.covers hΓ

theorem Arguments.Typed.covers : {a : Arguments} → ∀ {Γ formals}, a.Typed A Γ formals → Γ.Proper →
    Covers A a.sites
  | .empty _ => fun _ _ => nil
  | .single _ _ => by
    rintro ⟨formal, hargument, -⟩ hΓ
    exact hargument.covers hΓ
  | .multiple _ _ _ => by
    rintro ⟨formal, others, hfirst, hrest, -⟩ hΓ
    exact (hfirst.covers hΓ).append (hrest.covers hΓ)

theorem ArrayAggregate.Typed.covers : {a : ArrayAggregate} → ∀ {Γ τ length}, a.Typed A Γ τ length →
    Γ.Proper → Covers A a.sites
  | .single _ _ => fun h hΓ => h.1.covers hΓ
  | .multiple _ _ _ => by
    rintro ⟨others, hfirst, hrest, -⟩ hΓ
    exact (hfirst.covers hΓ).append (hrest.covers hΓ)

theorem RecordAggregate.Typed.covers : {r : RecordAggregate} → ∀ {Γ fs}, r.Typed A Γ fs →
    Γ.Proper → Covers A r.sites
  | .single _ _ _ => by
    rintro ⟨τ, hvalue, -⟩ hΓ
    exact hvalue.covers hΓ
  | .multiple _ _ _ _ => by
    rintro ⟨τ, others, hvalue, hothers, -⟩ hΓ
    exact (hvalue.covers hΓ).append (hothers.covers hΓ)

end

end Triangle
