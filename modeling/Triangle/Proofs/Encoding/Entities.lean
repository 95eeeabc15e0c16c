import Triangle.Proofs.Encoding.Growth
import Triangle.Proofs.Encoding.Sizes

/-!
# What declarations stand for

While the code of a well-typed phrase is generated, every declaration and parameter in the context
is filed, under an entity that its meaning calls for: a constant is a value, a variable has an
address, a routine can be called.  From that it follows what the entity of a name can be wherever
the name is used.

Nothing here looks into the code of a routine.  What has to be known about a routine of the program
(its entry, the words it takes and the words it gives) is a parameter, which is established by the
draft in which the routine is complete.
-/

namespace Triangle

variable {id : NodeId} {Γ Δ : Context} {p q : Draft}

/-- A type whose values are single words. -/
def Ty.Simple (τ : Ty) : Prop := τ = .bool ∨ τ = .char ∨ τ = .int

/-- What is known of the routine of a declaration: its entry, the words of its arguments and those
of its result. -/
abbrev Facts := NodeId → Int → Int → Int → Prop

/-- An entity is one that a declaration with some meaning may stand for. -/
inductive Entity.Fits (R : Facts) (id : NodeId) : Entity → Meaning → Prop
  | literal (value : Int) {τ : Ty} (h : τ.Simple) : Fits R id (.knownValue value) (.const τ)
  | value (address : Address) (τ : Ty) : Fits R id (.unknownValue address) (.const τ)
  | variable (address : Address) (τ : Ty) : Fits R id (.knownAddress address) (.var τ)
  | reference (address : Address) (τ : Ty) : Fits R id (.unknownAddress address) (.var τ)
  | procedure {address : Address} {formals : Formals}
      (h : R id address.displacement formals.words 0) :
    Fits R id (.knownRoutine address) (.proc formals)
  | function {address : Address} {formals : Formals} {τ : Ty}
    (h : R id address.displacement formals.words τ.words) :
    Fits R id (.knownRoutine address) (.func formals τ)
  | procedureClosure (address : Address) (formals : Formals) :
    Fits R id (.unknownRoutine address) (.proc formals)
  | functionClosure (address : Address) (formals : Formals) (τ : Ty) :
    Fits R id (.unknownRoutine address) (.func formals τ)
  | type (entity : Entity) (τ : Ty) : Fits R id entity (.type τ)

/-- What is filed under a node. -/
def NodeMap.entity (entities : NodeMap Entity) (id : NodeId) : Entity :=
  (entities.get? id).getD .unrepresented

@[simp] theorem NodeMap.entity_insert_self (entities : NodeMap Entity) (id : NodeId)
    (entity : Entity) : (entities.insert id entity).entity id = entity := by
  simp [NodeMap.entity, NodeMap.get?_insert]

/-- All that the context knows is filed under a fitting entity. -/
def Context.Filed (R : Facts) (Γ : Context) (entities : NodeMap Entity) : Prop :=
  ∀ ⦃id meaning⦄, Γ id = some meaning → (entities.entity id).Fits R id meaning

/-- A draft has the routines that facts are about. -/
def Draft.Certifies (R : Facts) (q : Draft) : Prop :=
  ∀ ⦃id entry last arguments result⦄, Event.routine id entry last ∈ q.trace →
    q.code[last]? = some ⟨.return_, .cb, result, arguments⟩ → R id entry arguments result

theorem Context.Filed.empty (R : Facts) (entities : NodeMap Entity) :
    Context.empty.Filed R entities := fun _ _ h => nomatch h

section

variable {R : Facts} {Γ Δ : Context} {p q : Draft}

theorem Draft.Grows.filed (h : p.Grows Γ q) (hfiled : Γ.Filed R p.entities) :
    Γ.Filed R q.entities := by
  intro id meaning hid
  have hsome : Γ id ≠ none := by
    rw [hid]
    exact Option.some_ne_none _
  have hsame := h.entities hsome
  rw [NodeMap.entity, hsame]
  exact hfiled hid

/-- One more declaration is filed. -/
theorem Context.Filed.represent {entities : NodeMap Entity} {meaning : Meaning} {entity : Entity}
    (h : Γ.Filed R entities) (hfits : entity.Fits R id meaning) :
    (Γ.bind id meaning).Filed R (entities.insert id entity) := by
  intro other m hother
  rw [NodeMap.entity, NodeMap.get?_insert]
  obtain ⟨rfl, rfl⟩ | ⟨hne, hΓ⟩ := Context.bind_eq_some hother
  · rw [if_pos rfl]
    exact hfits
  · rw [if_neg hne]
    exact h hΓ

theorem Draft.Grows.certifies (h : p.Grows Γ q) (hq : q.Certifies R) : p.Certifies R := by
  intro id entry last arguments result hevent hcode
  refine hq (h.trace.subset hevent) ?_
  obtain ⟨rest, hrest⟩ := h.code
  rw [← hrest, List.getElem?_append_left (List.getElem?_eq_some_iff.1 hcode).1]
  exact hcode

end

/-! ## Parameters -/

variable {frame : Frame} {formals : Formals}

section

variable {A : Annotations} {R : Facts}

/-- A parameter is filed under what its formal calls for. -/
theorem Parameter.Placed.fits {parameter : Parameter} {formal : Formal} {size : Int}
    (ht : parameter.Typed A Γ formal Δ) (he : parameter.Placed A frame p size q) :
    ∃ entity, Γ parameter.mark.id = none ∧ Δ = Γ.bind parameter.mark.id formal.meaning ∧
      q = p.represent parameter.mark.id entity ∧
      entity.Fits R parameter.mark.id formal.meaning := by
  cases parameter with
  | const m name of =>
    obtain ⟨_, -, -, rfl, hfresh, rfl⟩ := ht
    obtain ⟨-, _, -, rfl⟩ := he
    exact ⟨_, hfresh, rfl, rfl, .value _ _⟩
  | var m name of =>
    obtain ⟨_, -, -, rfl, hfresh, rfl⟩ := ht
    obtain ⟨-, _, -, rfl⟩ := he
    exact ⟨_, hfresh, rfl, rfl, .reference _ _⟩
  | proc m name parameters =>
    obtain ⟨_, _, -, rfl, hfresh, rfl⟩ := ht
    obtain ⟨-, _, -, rfl⟩ := he
    exact ⟨_, hfresh, rfl, rfl, .procedureClosure _ _⟩
  | func m name parameters result =>
    obtain ⟨_, _, _, -, -, -, rfl, hfresh, rfl⟩ := ht
    obtain ⟨-, _, -, rfl⟩ := he
    exact ⟨_, hfresh, rfl, rfl, .functionClosure _ _ _⟩

/-- Parameters are placed from the last to the first but are in scope from the first to the last;
so what a parameter adds to the context is told apart from what was there. -/
theorem Parameters.Placed.fits {parameters : Parameters} {Γ Δ formals frame p q size} :
    parameters.Typed A Γ formals Δ → parameters.Placed A frame p size q → ∀ {id meaning},
    Δ id = some meaning →
    Γ id = some meaning ∨ (Γ id = none ∧ (q.entities.entity id).Fits R id meaning) := by
  cases parameters with
  | empty _ =>
    rintro ⟨-, rfl⟩ _ _ _ hid
    exact .inl hid
  | single _ parameter =>
    rintro ⟨_, ht, -⟩ he id _ hid
    obtain ⟨entity, hfresh, rfl, rfl, hfits⟩ := Parameter.Placed.fits ht he
    obtain ⟨rfl, rfl⟩ | ⟨-, hΓ⟩ := Context.bind_eq_some hid
    · exact .inr ⟨hfresh, by simpa using hfits⟩
    · exact .inl hΓ
  | multiple _ first rest =>
    rintro ⟨_, _, Θ, hfirst, hrest, -⟩ ⟨_, r, _, _, hr, -, hq, -⟩ id _ hid
    obtain ⟨entity, hfresh, rfl, rfl, hfits⟩ := Parameter.Placed.fits hfirst hq
    obtain hΘ | ⟨hΘ, hid'⟩ := Parameters.Placed.fits hrest hr hid
    · obtain ⟨rfl, rfl⟩ | ⟨-, hΓ⟩ := Context.bind_eq_some hΘ
      · exact .inr ⟨hfresh, by simpa using hfits⟩
      · exact .inl hΓ
    · have hne : first.mark.id ≠ id := by
        rintro rfl
        simp at hΘ
      rw [Context.bind_of_ne hne] at hΘ
      refine .inr ⟨hΘ, ?_⟩
      simpa [NodeMap.entity, NodeMap.get?_insert, if_neg hne] using hid'

theorem Parameters.Placed.filed {parameters : Parameters} {Γ Δ : Context} {p q : Draft} {size : Int}
    (ht : parameters.Typed A Γ formals Δ) (he : parameters.Placed A frame p size q)
    (hfiled : Γ.Filed R p.entities) : Δ.Filed R q.entities := by
  intro id meaning hid
  obtain hΓ | ⟨-, hfits⟩ := he.fits ht hid
  · exact (he.grows ht).filed hfiled hΓ
  · exact hfits

/-! ## Declarations -/

/-- The routine is in the draft in which it is complete. -/
theorem Emission.Routine.certified {m : Mark} {parameters : Parameters}
    {body : Frame → Draft → Int → Draft → Prop} {result : Int}
    (ht : parameters.Typed A Γ formals Δ)
    (hresult : ∀ inner p words q, body inner p words q → words = result)
    (he : Emission.Routine A m parameters frame body p q) (hq : q.Certifies R) :
    R m.id (p.address + 1 : Nat) formals.words result := by
  obtain ⟨inner, outer, arguments, result, r₁, r₂, -, -, -, hr₁, hr₂, -, rfl⟩ := he
  obtain rfl := hresult _ _ _ _ hr₂
  obtain rfl := hr₁.size_eq ht
  have hevent : Event.routine m.id (p.address + 1) r₂.address ∈
      ((r₂.emit [⟨.return_, .cb, result, formals.words⟩]).record
        (.routine m.id (p.address + 1) r₂.address)).trace := by
    simp [Draft.record]
  exact hq hevent (by simp [Draft.address])

/-- A literal has a simple type. -/
theorem Expression.Typed.simple {value : Expression} {τ : Ty} {known : Int}
    (ht : value.Typed A Γ τ) (h : value.literal? = some known) : τ.Simple := by
  cases value with
  | integer m literal => exact .inr (.inr ht.2)
  | character m literal => exact .inr (.inl ht.2)
  | _ => cases h

/-- A declaration files what it introduces. -/
theorem Declaration.Emits.filed {declaration : Declaration} {Γ Δ F frame p q size} :
    declaration.Typed A Γ Δ → declaration.Emits A F frame p size q → q.Certifies R →
    Γ.Filed R p.entities → Δ.Filed R q.entities := by
  cases declaration with
  | binaryOperator _ _ _ _ _ | unaryOperator _ _ _ _ => exact fun ht _ _ _ => ht.elim
  | const _ _ value =>
    rintro ⟨_, hvalue, -, -, rfl⟩ ⟨r, hr, rfl⟩ _ hfiled
    split at hr
    · rename_i known hknown
      obtain ⟨-, rfl⟩ := hr
      exact hfiled.represent (.literal known (hvalue.simple hknown))
    · obtain ⟨_, hr, rfl⟩ := hr
      exact ((hr.grows hvalue).filed hfiled).represent (.value _ _)
  | func m _ _ _ _ =>
    rintro ⟨τ, formals, _, -, -, -, rfl, hparameters, hbody⟩ ⟨r, hr, -, rfl⟩ hq hfiled
    have hq : r.Certifies R := ((Draft.Grows.refl .empty r).record _).certifies hq
    have hcertified := hr.certified hparameters (fun _ _ _ _ h => h.size_eq hbody) hq
    obtain ⟨_, hgrows⟩ := hr.grows_bind hparameters fun _ _ _ _ h => h.grows hbody
    exact hgrows.filed (hfiled.represent (.function hcertified))
  | proc _ _ _ _ =>
    rintro ⟨formals, _, -, rfl, hparameters, hbody⟩ ⟨r, hr, -, rfl⟩ hq hfiled
    have hq : r.Certifies R := ((Draft.Grows.refl .empty r).record _).certifies hq
    have hcertified := hr.certified hparameters (fun _ _ _ _ h => h.2) hq
    obtain ⟨_, hgrows⟩ := hr.grows_bind hparameters fun _ _ _ _ h => h.1.grows hbody
    exact hgrows.filed (hfiled.represent (.procedure hcertified))
  | sequential _ _ _ =>
    rintro ⟨_, hfirst, hsecond⟩ ⟨_, _, _, r₁, r₂, hr₁, -, hr₂, -, rfl⟩ hq hfiled
    have hq₂ : r₂.Certifies R := ((Draft.Grows.refl .empty r₂).record _).certifies hq
    have hq₁ : r₁.Certifies R := (hr₂.grows hsecond).certifies hq₂
    have hfiled₁ := Declaration.Emits.filed hfirst hr₁ hq₁ hfiled
    have hfiled₂ := Declaration.Emits.filed hsecond hr₂ hq₂ hfiled₁
    exact hfiled₂
  | type m _ _ =>
    rintro ⟨_, -, -, -, rfl⟩ ⟨-, rfl⟩ _ hfiled
    intro id meaning hid
    obtain ⟨-, rfl⟩ | ⟨-, hΓ⟩ := Context.bind_eq_some hid
    · exact .type _ _
    · exact hfiled hΓ
  | var _ _ _ =>
    rintro ⟨_, -, -, -, rfl⟩ ⟨-, rfl⟩ _ hfiled
    exact hfiled.represent (.variable _ _)

end

/-! ## Names -/

section

variable {A : Annotations} {R : Facts} {Γ : Context} {entities : NodeMap Entity} {name : Terminal}
  {τ : Ty}

theorem Annotations.entityOf_node (h : A.referentOf? name.mark.id = some (.node id)) :
    A.entityOf entities name = entities.entity id := by
  rw [Annotations.entityOf, h]
  rfl

theorem Annotations.entityOf_standard {s : Standard}
    (h : A.referentOf? name.mark.id = some (.standard s)) :
    A.entityOf entities name = .ofStandard s := by
  rw [Annotations.entityOf, h]

/-- A constant is a value, and only one of a simple type is part of the code. -/
theorem Annotations.Means.const (h : A.Means Γ name (.const τ)) (hfiled : Γ.Filed R entities) :
    (∃ value, A.entityOf entities name = .knownValue value ∧ τ.Simple) ∨
      ∃ address, A.entityOf entities name = .unknownValue address := by
  obtain ⟨referent, hreferent, hmeaning⟩ := h
  cases referent with
  | node id =>
    have hfits := hfiled hmeaning
    rw [entityOf_node hreferent]
    generalize entities.entity id = entity at hfits
    cases hfits with
    | literal value hsimple => exact .inl ⟨value, rfl, hsimple⟩
    | value address => exact .inr ⟨address, rfl⟩
  | standard s =>
    rw [entityOf_standard hreferent]
    cases s <;> cases hmeaning
    · exact .inl ⟨_, rfl, .inl rfl⟩
    · exact .inl ⟨_, rfl, .inl rfl⟩
    · exact .inl ⟨_, rfl, .inr (.inr rfl)⟩

/-- A variable has an address. -/
theorem Annotations.Means.var (h : A.Means Γ name (.var τ)) (hfiled : Γ.Filed R entities) :
    (∃ address, A.entityOf entities name = .knownAddress address) ∨
      ∃ address, A.entityOf entities name = .unknownAddress address := by
  obtain ⟨referent, hreferent, hmeaning⟩ := h
  cases referent with
  | node id =>
    have hfits := hfiled hmeaning
    rw [entityOf_node hreferent]
    generalize entities.entity id = entity at hfits
    cases hfits with
    | «variable» address => exact .inl ⟨address, rfl⟩
    | reference address => exact .inr ⟨address, rfl⟩
  | standard s => cases s <;> cases hmeaning

/-- A routine is one of the program, one whose closure was passed, or one of the machine. -/
theorem Annotations.Means.routine {meaning : Meaning} {words : Int} (h : A.Means Γ name meaning)
    (hroutine : meaning.Routine formals words) (hfiled : Γ.Filed R entities) :
    (∃ id address, A.entityOf entities name = .knownRoutine address ∧
        R id address.displacement formals.words words) ∨
      (∃ id address, A.referentOf? name.mark.id = some (.node id) ∧ Γ id = some meaning ∧
        A.entityOf entities name = .unknownRoutine address) ∨
      ∃ (s : Standard) (routine : Primitive), s.meaning = meaning ∧ s.primitive? = some routine ∧
        A.entityOf entities name = .primitive routine := by
  obtain ⟨referent, hreferent, hmeaning⟩ := h
  cases referent with
  | node id =>
    have hfits := hfiled hmeaning
    rw [entityOf_node hreferent]
    generalize entities.entity id = entity at hfits
    obtain ⟨rfl, rfl⟩ | ⟨τ, rfl, rfl⟩ := hroutine
    · cases hfits with
      | procedure hR => exact .inl ⟨id, _, rfl, hR⟩
      | procedureClosure address => exact .inr (.inl ⟨id, address, hreferent, hmeaning, rfl⟩)
    · cases hfits with
      | function hR => exact .inl ⟨id, _, rfl, hR⟩
      | functionClosure address => exact .inr (.inl ⟨id, address, hreferent, hmeaning, rfl⟩)
  | standard s =>
    rw [entityOf_standard hreferent]
    have hmeaning : s.meaning = meaning := Option.some.inj hmeaning
    refine .inr (.inr ⟨s, ?_⟩)
    obtain ⟨rfl, -⟩ | ⟨τ, rfl, -⟩ := hroutine
    · cases s <;> cases hmeaning <;> exact ⟨_, rfl, rfl, rfl⟩
    · cases s <;> cases hmeaning <;> exact ⟨_, rfl, rfl, rfl⟩

end

end Triangle
