import Triangle.Proofs.Encoding.Entities
import Triangle.Proofs.Encoding.Heights

/-!
# Routines that are passed as arguments

Code that calls a formal routine knows no more of it than its parameter says.  While the code of a
well-typed phrase is generated, every routine that is filed as a closure is one of the parameters of
the routines around the phrase, and what such a parameter takes and gives follows from its meaning.
-/

namespace Triangle

variable {id : NodeId} {Γ Δ : Context} {formal : Formal} {meaning : Meaning}

variable {A : Annotations}

/-! ## What a parameter takes and gives -/

theorem Annotations.wordsOf_eq {τ : Ty} (h : A.typeOf? id = some τ) : A.wordsOf id = τ.words := by
  rw [Annotations.wordsOf, h]

theorem Parameter.Typed.words_eq {p : Parameter} (h : p.Typed A Γ formal Δ) :
    p.words A = formal.words := by
  cases p with
  | const m name of =>
    obtain ⟨_, -, htype, rfl, -⟩ := h
    exact Annotations.wordsOf_eq htype
  | var m name of =>
    obtain ⟨_, -, -, rfl, -⟩ := h
    rfl
  | proc m name parameters =>
    obtain ⟨_, _, -, rfl, -⟩ := h
    rfl
  | func m name parameters result =>
    obtain ⟨_, _, _, -, -, -, rfl, -⟩ := h
    rfl

theorem Parameters.Typed.words_eq {ps : Parameters} {Γ Δ formals} :
    ps.Typed A Γ formals Δ →
    ps.words A = formals.words := by
  cases ps with
  | empty _ =>
    rintro ⟨rfl, -⟩
    rfl
  | single _ _ =>
    rintro ⟨_, hp, rfl⟩
    rw [Parameters.words, hp.words_eq, Formals.words, Formals.words, Int.add_zero]
  | multiple _ _ _ =>
    rintro ⟨_, _, _, hp, hrest, rfl⟩
    rw [Parameters.words, hp.words_eq, Parameters.Typed.words_eq hrest, Formals.words]

/-- A parameter takes and gives what the meaning of its name says. -/
def Parameter.Matches (A : Annotations) (p : Parameter) (meaning : Meaning) : Prop :=
  ∀ formals words, meaning.Routine formals words → p.taken A = formals.words ∧ p.given A = words

theorem Parameter.Typed.matches {p : Parameter} (h : p.Typed A Γ formal Δ) :
    p.Matches A formal.meaning := by
  intro formals words hroutine
  cases p with
  | const m name of | var m name of =>
    obtain ⟨_, -, -, rfl, -⟩ := h
    obtain ⟨hmeaning, -⟩ | ⟨_, hmeaning, -⟩ := hroutine <;> cases hmeaning
  | proc m name parameters =>
    obtain ⟨_, _, hparameters, rfl, -⟩ := h
    obtain ⟨hmeaning, rfl⟩ | ⟨_, hmeaning, -⟩ := hroutine <;> cases hmeaning
    exact ⟨hparameters.words_eq, rfl⟩
  | func m name parameters result =>
    obtain ⟨_, _, _, hparameters, -, htype, rfl, -⟩ := h
    obtain ⟨hmeaning, -⟩ | ⟨_, hmeaning, rfl⟩ := hroutine <;> cases hmeaning
    exact ⟨hparameters.words_eq, Annotations.wordsOf_eq htype⟩

/-- The parameters are known to the context that they introduce. -/
theorem Parameters.Typed.known {ps : Parameters} {Γ Δ formals} :
    ps.Typed A Γ formals Δ →
    ∀ p ∈ ps.toList, ∃ meaning, Δ p.mark.id = some meaning ∧ p.Matches A meaning := by
  cases ps with
  | empty _ => rintro _ _ ⟨⟩
  | single _ _ =>
    rintro ⟨formal, h, -⟩ p hp
    obtain rfl := List.mem_singleton.1 hp
    exact ⟨formal.meaning, by rw [h.binds.2, Context.bind_self], h.matches⟩
  | multiple _ _ _ =>
    rintro ⟨formal, _, _, h, hrest, -⟩ p hp
    obtain rfl | hp := List.mem_cons.1 hp
    · exact ⟨formal.meaning, hrest.le (by rw [h.binds.2, Context.bind_self]), h.matches⟩
    · exact Parameters.Typed.known hrest p hp

/-- A context knows no more than before, but for the parameters. -/
theorem Parameters.Typed.listed {ps : Parameters} {Γ Δ formals} :
    ps.Typed A Γ formals Δ →
    ∀ {id meaning}, Δ id = some meaning → Γ id = some meaning ∨
      ∃ p ∈ ps.toList, p.mark.id = id := by
  cases ps with
  | empty _ =>
    rintro ⟨-, rfl⟩ _ _ hid
    exact .inl hid
  | single _ p =>
    rintro ⟨_, h, -⟩ _ _ hid
    rw [h.binds.2] at hid
    obtain ⟨rfl, -⟩ | ⟨-, hΓ⟩ := Context.bind_eq_some hid
    · exact .inr ⟨p, List.mem_singleton_self p, rfl⟩
    · exact .inl hΓ
  | multiple _ p _ =>
    rintro ⟨_, _, _, h, hrest, -⟩ _ _ hid
    obtain hid | ⟨p', hp', rfl⟩ := Parameters.Typed.listed hrest hid
    · rw [h.binds.2] at hid
      obtain ⟨rfl, -⟩ | ⟨-, hΓ⟩ := Context.bind_eq_some hid
      · exact .inr ⟨p, List.mem_cons_self, rfl⟩
      · exact .inl hΓ
    · exact .inr ⟨p', List.mem_cons_of_mem _ hp', rfl⟩

/-! ## Closures in a context -/

/-- The routines whose closures were passed are parameters of the routines around. -/
structure Context.Lists (A : Annotations) (formals : List Parameter) (Γ : Context)
    (entities : NodeMap Entity) : Prop where
  known : ∀ p ∈ formals, ∃ meaning, Γ p.mark.id = some meaning ∧ p.Matches A meaning
  listed : ∀ {id meaning signature words address}, Γ id = some meaning →
    meaning.Routine signature words → entities.entity id = .unknownRoutine address →
    ∃ p ∈ formals, p.mark.id = id

section

variable {F : List Parameter} {Γ Δ : Context} {p q : Draft}

theorem Draft.Grows.entity_eq (h : p.Grows Γ q) (hid : Γ id = some meaning) :
    q.entities.entity id = p.entities.entity id := by
  have hne : Γ id ≠ none := by
    rw [hid]
    exact Option.some_ne_none _
  rw [NodeMap.entity, h.entities hne]
  rfl

theorem Context.Lists.grows (h : Γ.Lists A F p.entities) (hgrows : p.Grows Γ q) :
    Γ.Lists A F q.entities := by
  refine ⟨h.known, fun hid hroutine hentity => ?_⟩
  rw [hgrows.entity_eq hid] at hentity
  exact h.listed hid hroutine hentity

/-- A declaration that is no closure. -/
theorem Context.Lists.represent {entities : NodeMap Entity} {entity : Entity}
    (h : Γ.Lists A F entities) (hfresh : Γ id = none)
    (hentity : ∀ address, entity ≠ .unknownRoutine address) :
    (Γ.bind id meaning).Lists A F (entities.insert id entity) := by
  refine ⟨fun p hp => ?_, fun {other _ _ _ address} hother hroutine hunknown => ?_⟩
  · obtain ⟨m, hm, hmatches⟩ := h.known p hp
    exact ⟨m, Context.le_bind meaning hfresh hm, hmatches⟩
  · rw [NodeMap.entity, NodeMap.get?_insert] at hunknown
    obtain ⟨rfl, -⟩ | ⟨hne, hΓ⟩ := Context.bind_eq_some hother
    · rw [if_pos rfl] at hunknown
      exact absurd hunknown (hentity address)
    · rw [if_neg hne] at hunknown
      exact h.listed hΓ hroutine hunknown

/-- The parameters of one more routine. -/
theorem Context.Lists.parameters {ps : Parameters} {formals : Formals} {frame : Frame} {size : Int}
    (h : Γ.Lists A F p.entities) (ht : ps.Typed A Γ formals Δ) (he : ps.Placed A frame p size q) :
    Δ.Lists A (F ++ ps.toList) q.entities := by
  refine ⟨fun p hp => ?_, fun hid hroutine hentity => ?_⟩
  · obtain hp | hp := List.mem_append.1 hp
    · obtain ⟨m, hm, hmatches⟩ := h.known p hp
      exact ⟨m, ht.le hm, hmatches⟩
    · exact ht.known p hp
  · obtain hΓ | ⟨p', hp', rfl⟩ := ht.listed hid
    · rw [(he.grows ht).entity_eq hΓ] at hentity
      obtain ⟨p', hp', rfl⟩ := h.listed hΓ hroutine hentity
      exact ⟨p', List.mem_append_left _ hp', rfl⟩
    · exact ⟨p', List.mem_append_right _ hp', rfl⟩

/-- A declaration adds no closures. -/
theorem Context.Lists.declaration {d : Declaration} {Γ Δ frame p q size} :
    d.Typed A Γ Δ →
    d.Emits A F frame p size q → Γ.Lists A F p.entities → Δ.Lists A F q.entities := by
  cases d with
  | binaryOperator _ _ _ _ _ | unaryOperator _ _ _ _ => exact fun ht _ _ => ht.elim
  | const _ _ _ =>
    rintro ⟨_, hvalue, -, hfresh, rfl⟩ ⟨r, hr, rfl⟩ h
    split at hr
    · obtain ⟨-, rfl⟩ := hr
      exact h.represent hfresh fun _ => Entity.noConfusion
    · obtain ⟨_, hr, rfl⟩ := hr
      exact (h.grows (hr.grows hvalue)).represent hfresh fun _ => Entity.noConfusion
  | func _ _ _ _ _ =>
    rintro ⟨_, _, _, -, -, hfresh, rfl, hparameters, hbody⟩ ⟨_, hr, -, rfl⟩ h
    obtain ⟨_, hgrows⟩ := hr.grows_bind hparameters fun _ _ _ _ h => h.grows hbody
    have hlists := (h.represent hfresh fun _ => Entity.noConfusion).grows hgrows
    exact hlists
  | proc _ _ _ _ =>
    rintro ⟨_, _, hfresh, rfl, hparameters, hbody⟩ ⟨_, hr, -, rfl⟩ h
    obtain ⟨_, hgrows⟩ := hr.grows_bind hparameters fun _ _ _ _ h => h.1.grows hbody
    have hlists := (h.represent hfresh fun _ => Entity.noConfusion).grows hgrows
    exact hlists
  | sequential _ _ _ =>
    rintro ⟨_, hfirst, hsecond⟩ ⟨_, _, _, r₁, r₂, hr₁, -, hr₂, -, rfl⟩ h
    have h₁ := Context.Lists.declaration hfirst hr₁ h
    have h₂ := Context.Lists.declaration hsecond hr₂ h₁
    exact h₂
  | type _ _ _ =>
    rintro ⟨_, -, -, hfresh, rfl⟩ ⟨-, rfl⟩ h
    refine ⟨fun p hp => ?_, fun hid hroutine hentity => ?_⟩
    · obtain ⟨m, hm, hmatches⟩ := h.known p hp
      exact ⟨m, Context.le_bind _ hfresh hm, hmatches⟩
    · obtain ⟨-, rfl⟩ | ⟨-, hΓ⟩ := Context.bind_eq_some hid
      · obtain ⟨hmeaning, -⟩ | ⟨_, hmeaning, -⟩ := hroutine <;> cases hmeaning
      · exact h.listed hΓ hroutine hentity
  | var _ _ _ =>
    rintro ⟨_, -, -, hfresh, rfl⟩ ⟨-, rfl⟩ h
    exact h.represent hfresh fun _ => Entity.noConfusion

end

end Triangle
