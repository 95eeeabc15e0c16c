import Triangle.Proofs.Syntax.Spots
import Triangle.Proofs.Typing.Scoping

/-!
# Checking resolves names by the rules of scope

Whatever the outcome, checking files types and referents only where the tree has a site for them,
and the declaration that it files for a use of a name is the one that the name refers to at its
spot.  And if checking ends without a complaint, every use has its declaration, and every
declaration of the tree adds a name that its scope did not have.

`Observes` carries this through the check of a phrase, along with what names refer to before and
after it.  A part of a phrase that is passed over, such as the arguments of something that is no
routine, is passed over after a complaint only.  Since the names after a phrase are known, so is its
effect on the scopes: commands and expressions leave them as they were.
-/

namespace Triangle

open Check

variable {binding : Binding} {p : Spot} {s s' : CheckState} {parameters : Parameters} {u : Unit}
  {referent : Referent}

/-! ## What the names in scopes refer to -/

variable {scopes : Scopes} {id declaration : NodeId} {name : Terminal} {body : Check Unit}
  {meaning : Formals → Meaning}

namespace Scopes

/-- What the names in nested scopes refer to. -/
def referents (scopes : Scopes) : Referents := scopes.view Binding.referent

theorem referents_initial : initial.referents = .standard := by
  simp [referents, view, initial, Scope.view, standardScope, Referents.standard]

theorem find?_referents (scopes : Scopes) (name : String) :
    scopes.referents.find? name = (scopes.find? name).map Binding.referent :=
  scopes.findSome?_view Binding.referent name

theorem headD_referents (scopes : Scopes) :
    scopes.referents.headD [] = scopes.innermost.view Binding.referent :=
  scopes.headD_view Binding.referent

/-- A name is fresh if it can be entered. -/
theorem fresh_referents_iff {name : String} :
    scopes.referents.Fresh name ↔ ∃ scopes', scopes.enter? name binding = some scopes' :=
  lookup_headD_view_eq_none_iff Binding.referent

/-- A name that can be entered is declared. -/
theorem referents_of_enter? {scopes' : Scopes} {name : String} {meaning : Meaning}
    (h : scopes.enter? name ⟨.node id, meaning⟩ = some scopes') :
    scopes'.referents = scopes.referents.declare name id := by
  rw [Referents.declare, if_pos (fresh_referents_iff.2 ⟨scopes', h⟩), eq_extended_of_enter? h]
  exact scopes.view_extended Binding.referent name _

/-- A name that cannot be entered leaves the scopes as they are. -/
theorem declare_of_enter?_eq_none {name : String} (h : scopes.enter? name binding = none) :
    scopes.referents.declare name id = scopes.referents := by
  have hfull : ¬scopes.referents.Fresh name := by
    intro hfresh
    have hsome : ∃ scopes', scopes.enter? name binding = some scopes' :=
      fresh_referents_iff.1 hfresh
    simp [h] at hsome
  rw [Referents.declare, if_neg hfull]

/-- Scopes that have gained no name are as before. -/
theorem extended_eq_of_referents {new : Scope}
    (h : (scopes.extended new).referents = scopes.referents) : scopes.extended new = scopes := by
  have hnil : new = [] := by
    obtain ⟨outermost, _ | ⟨scope, rest⟩⟩ := scopes <;>
      simpa [referents, view, extended, Scope.view] using h
  rw [hnil, extended_nil]

end Scopes

/-- What the names known in a state refer to. -/
def CheckState.referents (s : CheckState) : Referents := s.scopes.referents

/-! ## Observing spots -/

/-- At its spot, the use of a name filed under `id` refers to a declaration. -/
def Spot.Resolves (p : Spot) (id : NodeId) (referent : Referent) : Prop :=
  ∃ name, p.site = .use name ∧ name.mark.id = id ∧ p.names.find? name.spelling = some referent

/-- What is used at a spot has a declaration on file, and what is declared there is a new name of
its scope. -/
def Spot.Settled (A : Annotations) (p : Spot) : Prop :=
  match p.site with
  | .phrase _ => True
  | .use name => (A.referentOf? name.mark.id).isSome = true
  | .binder _ name _ => p.names.Fresh name

/-- What was filed between two states comes from the spots, and if there is no complaint, the spots
are settled. -/
structure Observed (spots : List Spot) (s s' : CheckState) : Prop extends Declares s s' where
  types : ∀ id τ, s'.annotations.typeOf? id = some τ →
    s.annotations.typeOf? id = some τ ∨ ∃ p ∈ spots, p.site.typed? = some id
  referents : ∀ id referent, s'.annotations.referentOf? id = some referent →
    s.annotations.referentOf? id = some referent ∨ ∃ p ∈ spots, p.Resolves id referent
  kept : ∀ id, (s.annotations.referentOf? id).isSome = true →
    (s'.annotations.referentOf? id).isSome = true
  settled : s'.Clean → ∀ p ∈ spots, p.Settled s'.annotations

/-- Every run of a step observes the spots, and takes the names from `ρ` to `ρ'`. -/
def Observes (ρ : Referents) (spots : List Spot) (ρ' : Referents) {α : Type} (x : Check α) : Prop :=
  ∀ s a s', Yields x s a s' → s.referents = ρ → Observed spots s s' ∧ s'.referents = ρ'

/-- Scopes and referents are as before, and types were filed under some nodes at most; no error was
taken back. -/
structure Ignores (ids : List NodeId) (s s' : CheckState) : Prop extends Passes s s' where
  types : ∀ id τ, s'.annotations.typeOf? id = some τ →
    s.annotations.typeOf? id = some τ ∨ id ∈ ids
  referents : s'.annotations.referents = s.annotations.referents

/-- Every run of a step leaves scopes and referents alone. -/
abbrev Ignoring (ids : List NodeId) {α : Type} (x : Check α) : Prop := Along (Ignores ids) x

section

variable {α β : Type} {ρ ρ₁ ρ₂ : Referents} {S S' : List Spot} {I : List NodeId}

theorem Spot.Settled.mono {A B : Annotations} (h : p.Settled A)
    (hAB : ∀ id, (A.referentOf? id).isSome = true → (B.referentOf? id).isSome = true) :
    p.Settled B := by
  rw [Spot.Settled] at h ⊢
  split at h
  · trivial
  · exact hAB _ h
  · exact h

/-- What two runs settle stays settled: no referent is taken back. -/
theorem Observed.trans {s t u : CheckState} (h₁ : Observed S s t) (h₂ : Observed S' t u) :
    Observed (S ++ S') s u where
  toDeclares := h₁.toDeclares.trans h₂.toDeclares
  types id τ h := by
    rcases h₂.types id τ h with h | ⟨p, hp, hid⟩
    · rcases h₁.types id τ h with h | ⟨p, hp, hid⟩
      · exact .inl h
      · exact .inr ⟨p, List.mem_append_left _ hp, hid⟩
    · exact .inr ⟨p, List.mem_append_right _ hp, hid⟩
  referents id referent h := by
    rcases h₂.referents id referent h with h | ⟨p, hp, hr⟩
    · rcases h₁.referents id referent h with h | ⟨p, hp, hr⟩
      · exact .inl h
      · exact .inr ⟨p, List.mem_append_left _ hp, hr⟩
    · exact .inr ⟨p, List.mem_append_right _ hp, hr⟩
  kept id h := h₂.kept id (h₁.kept id h)
  settled h := List.forall_mem_append.2
    ⟨fun p hp => (h₁.settled (h₂.clean h) p hp).mono h₂.kept, h₂.settled h⟩

theorem Ignores.observed (h : Ignores I s s') (hI : ∀ id ∈ I, ∃ p ∈ S, p.site.typed? = some id)
    (hS : s'.Clean → ∀ p ∈ S, p.Settled s'.annotations) : Observed S s s' where
  toDeclares := h.toPasses.declares
  types id τ hid := (h.types id τ hid).imp_right (hI id)
  referents id referent hid := by
    rw [Annotations.referentOf?, h.referents] at hid
    exact .inl hid
  kept id hid := by rwa [Annotations.referentOf?, h.referents]
  settled := hS

theorem Observes.bind {x : Check α} {f : α → Check β} (hx : Observes ρ S ρ₁ x)
    (hf : ∀ a, Observes ρ₁ S' ρ₂ (f a)) : Observes ρ (S ++ S') ρ₂ (x >>= f) := by
  intro s b s' h hs
  obtain ⟨a, t, h₁, h₂⟩ := yields_bind.1 h
  obtain ⟨hS, ht⟩ := hx s a t h₁ hs
  obtain ⟨hS', hs'⟩ := hf a t b s' h₂ ht
  exact ⟨hS.trans hS', hs'⟩

/-- The spots can be listed in any order. -/
theorem Observes.of_mem {x : Check α} (hx : Observes ρ S ρ₁ x) (hmem : ∀ p, p ∈ S' ↔ p ∈ S) :
    Observes ρ S' ρ₁ x := by
  intro s a s' h hs
  obtain ⟨⟨hdeclares, htypes, hreferents, hkept, hsettled⟩, hs'⟩ := hx s a s' h hs
  simp only [← hmem] at htypes hreferents hsettled
  exact ⟨⟨hdeclares, htypes, hreferents, hkept, hsettled⟩, hs'⟩

theorem Ignoring.observes {x : Check α} (hx : Ignoring I x)
    (hI : ∀ id ∈ I, ∃ p ∈ S, p.site.typed? = some id)
    (hS : ∀ s a s', Yields x s a s' → s'.Clean → ∀ p ∈ S, p.Settled s'.annotations) :
    Observes ρ S ρ x := by
  intro s a s' h hs
  have hignores := hx s a s' h
  refine ⟨hignores.observed hI (hS s a s' h), ?_⟩
  rw [CheckState.referents, hignores.scopes]
  exact hs

theorem Ignoring.nothing {x : Check α} (hx : Ignoring [] x) : Observes ρ [] ρ x :=
  hx.observes (List.forall_mem_nil _) fun _ _ _ _ _ => List.forall_mem_nil _

/-- A step that files nothing, after the spots. -/
theorem Observes.silent {x : Check α} {f : α → Check β} (hx : Observes ρ S ρ₁ x)
    (hf : ∀ a, Ignoring [] (f a)) : Observes ρ S ρ₁ (x >>= f) :=
  (hx.bind fun a => (hf a).nothing).of_mem fun p => by rw [List.append_nil]

/-- What is left out after a failed step was observed by complaining. -/
theorem Observes.orElse {γ : Type} {x : Check (Option γ)} {f : Option γ → Check β}
    (hx : Observes ρ S ρ x) (hnone : ∀ s s', Yields x s none s' → ¬s'.Clean)
    (hf : ∀ c, Observes ρ S' ρ (f (some c))) (hnothing : Ignoring I (f none))
    (hI : ∀ id ∈ I, ∃ p ∈ S', p.site.typed? = some id) :
    Observes ρ (S ++ S') ρ (x >>= f) := by
  intro s b s' h hs
  obtain ⟨found, t, h₁, h₂⟩ := yields_bind.1 h
  obtain ⟨hS, ht⟩ := hx s found t h₁ hs
  cases found with
  | some c =>
    obtain ⟨hS', hs'⟩ := hf c t b s' h₂ ht
    exact ⟨hS.trans hS', hs'⟩
  | none =>
    have hignores := hnothing t b s' h₂
    refine ⟨hS.trans (hignores.observed hI fun hclean => ?_), ?_⟩
    · exact absurd (hignores.clean hclean) (hnone s t h₁)
    · rw [CheckState.referents, hignores.scopes]
      exact ht

/-- If the names after a step are always those before it, the scopes are as well. -/
theorem Observes.passing {x : Check α} {S : Referents → List Spot}
    (hx : ∀ ρ, Observes ρ (S ρ) ρ x) : Passing x := by
  intro s a s' h
  obtain ⟨hobserved, hreferents⟩ := hx s.referents s a s' h rfl
  refine ⟨?_, hobserved.clean⟩
  obtain ⟨new, hnew⟩ := hobserved.scopes
  rw [CheckState.referents, hnew] at hreferents
  rw [hnew]
  exact Scopes.extended_eq_of_referents hreferents

theorem Observes.declaring {x : Check α} {S : Referents → List Spot} {after : Referents → Referents}
    (hx : ∀ ρ, Observes ρ (S ρ) (after ρ) x) : Declaring x :=
  fun s a s' h => (hx s.referents s a s' h rfl).1.toDeclares

theorem Ignores.refl (s : CheckState) : Ignores I s s := ⟨.refl s, fun _ _ => .inl, rfl⟩

theorem Ignoring.pure (a : α) : Ignoring I (pure a) := Along.pure Ignores.refl a

theorem Ignores.trans {s t u : CheckState} (h₁ : Ignores I s t) (h₂ : Ignores I t u) :
    Ignores I s u where
  toPasses := h₁.toPasses.trans h₂.toPasses
  types id τ h := by
    rcases h₂.types id τ h with h | hid
    · exact h₁.types id τ h
    · exact .inr hid
  referents := h₂.referents.trans h₁.referents

theorem Ignoring.bind {x : Check α} {f : α → Check β} (hx : Ignoring I x)
    (hf : ∀ a, Ignoring I (f a)) : Ignoring I (x >>= f) :=
  Along.bind (fun _ _ _ h₁ h₂ => h₁.trans h₂) hx hf

/-! ## The steps of checking

Most steps file a type or complain.  A referent is filed by `resolve` only, and a name added by
`declare` only. -/

namespace Check

theorem ignoring_report (span : Span) (fault : ContextFault) : Ignoring I (report span fault) := by
  intro s a s' h
  refine ⟨passing_report span fault s a s' h, ?_, ?_⟩
  · obtain rfl := yields_modify.1 h
    exact fun _ _ => .inl
  · obtain rfl := yields_modify.1 h
    rfl

theorem ignoring_typed (id : NodeId) (ty : Ty) : Ignoring [id] (typed id ty) := by
  refine Ignoring.bind (Along.modify fun s => ?_) fun _ => .pure _
  refine ⟨⟨rfl, fun h => h⟩, fun other τ hother => ?_, rfl⟩
  simp only [Annotations.typeOf?, Annotations.withType, NodeMap.get?_insert] at hother
  split at hother
  · rename_i heq
    exact .inr (heq ▸ List.mem_singleton_self _)
  · exact .inl hother

theorem ignoring_require (expected found : Ty) (span : Span) :
    Ignoring I (require expected found span) := by
  rw [require]
  split
  · exact .pure _
  · exact ignoring_report _ _

theorem ignoring_requireVariable (ty : Ty) (assignable : Bool) (span : Span)
    (fault : ContextFault) : Ignoring I (requireVariable ty assignable span fault) := by
  rw [requireVariable]
  split
  · exact .pure _
  · exact ignoring_report _ _

theorem ignoring_modeMismatch (span : Span) (formal : Formal) (found : Mode) :
    Ignoring I (modeMismatch span formal found) :=
  ignoring_report _ _

theorem ignoring_prependField (name : Terminal) (of : Ty) (rest : Fields) :
    Ignoring I (prependField name of rest) := by
  rw [prependField]
  split
  · exact (ignoring_report _ _).bind fun _ => .pure _
  · exact .pure _

theorem ignoring_named (id : NodeId) (ty : Ty) (assignable : Bool) :
    Ignoring [id] (named id ty assignable) := by
  refine (ignoring_typed id ty).bind fun _ => ?_
  split
  · refine Ignoring.bind (Along.modify fun s => ?_) fun _ => .pure _
    exact ⟨⟨rfl, fun h => h⟩, fun _ _ => .inl, rfl⟩
  · exact .pure _

end Check

/-- The site of a phrase declares nothing. -/
theorem Ignoring.phrase {x : Check α} (level : Nat) (id : NodeId) (hx : Ignoring [id] x) :
    Observes ρ (Spot.all level ρ [.phrase id]) ρ x := by
  refine hx.observes (List.forall_mem_singleton.2 ⟨_, List.mem_singleton_self _, rfl⟩)
    fun _ _ _ _ _ => List.forall_mem_singleton.2 ?_
  trivial

/-- The type of a declaration is filed before the name is introduced. -/
theorem Observes.filing {ty : Ty} {f : Ty → Check β} (hp : p ∈ S) (hid : p.site.typed? = some id)
    (hf : ∀ τ, Observes ρ S ρ₁ (f τ)) : Observes ρ S ρ₁ (typed id ty >>= f) := by
  intro s b s' h hs
  obtain ⟨τ, t, h₁, h₂⟩ := yields_bind.1 h
  have htyped := ignoring_typed id ty s τ t h₁
  obtain ⟨hS, hs'⟩ := hf τ t b s' h₂ (by rw [CheckState.referents, htyped.scopes]; exact hs)
  refine ⟨⟨htyped.toPasses.declares.trans hS.toDeclares, fun other σ hother => ?_,
    fun other referent hother => ?_, fun other hother => hS.kept other ?_, hS.settled⟩, hs'⟩
  · rcases hS.types other σ hother with hother | hspot
    · rcases htyped.types other σ hother with hother | hmem
      · exact .inl hother
      · exact .inr ⟨p, hp, hid.trans (congrArg some (List.mem_singleton.1 hmem).symm)⟩
    · exact .inr hspot
  · refine (hS.referents other referent hother).imp_left fun hold => ?_
    rwa [Annotations.referentOf?, htyped.referents] at hold
  · rwa [Annotations.referentOf?, htyped.referents]

/-- After a complaint nothing is claimed of the spots. -/
theorem observes_report (span : Span) (fault : ContextFault) (S : List Spot) :
    Observes ρ S ρ (report span fault) := by
  refine (ignoring_report (I := []) span fault).observes (List.forall_mem_nil _)
    fun s a s' h hclean => ?_
  obtain rfl := yields_modify.1 h
  exact absurd hclean (Log.errors_report_ne_zero _ _ _)

/-- A use is filed under what its name refers to, or complained about. -/
theorem observes_resolve (level : Nat) (name : Terminal) :
    Observes ρ (Spot.all level ρ [.use name]) ρ (resolve name) := by
  intro s found s' h hs
  have hpasses := passing_resolve name s found s' h
  have hafter : s'.referents = ρ := by
    rw [CheckState.referents, hpasses.scopes]
    exact hs
  refine ⟨?_, hafter⟩
  cases hfind : s.scopes.find? name.spelling with
  | none =>
    obtain ⟨-, rfl⟩ := h.unique (yields_resolve_none hfind)
    exact ⟨hpasses.declares, fun _ _ => .inl, fun _ _ => .inl, fun _ hid => hid,
      fun hclean => absurd hclean (Log.errors_report_ne_zero _ _ _)⟩
  | some binding =>
    obtain ⟨-, rfl⟩ := h.unique (yields_resolve_some hfind)
    refine ⟨hpasses.declares, fun _ _ => .inl, fun id referent hid => ?_, fun id hid => ?_,
      fun _ => List.forall_mem_singleton.2 ?_⟩
    · simp only [Annotations.referentOf?, Annotations.withReferent, NodeMap.get?_insert] at hid
      split at hid
      · rename_i heq
        obtain rfl := Option.some.inj hid
        refine .inr ⟨_, List.mem_singleton_self _, name, rfl, heq, ?_⟩
        rw [← hs, CheckState.referents, Scopes.find?_referents, hfind]
        rfl
      · exact .inl hid
    · simp only [Annotations.referentOf?, Annotations.withReferent, NodeMap.get?_insert]
      split
      · rfl
      · exact hid
    · simp [Spot.Settled, Annotations.referentOf?, Annotations.withReferent, NodeMap.get?_insert]

/-- A name without a declaration is complained about. -/
theorem not_clean_of_resolve_none (h : Yields (resolve name) s none s') : ¬s'.Clean := by
  cases hfind : s.scopes.find? name.spelling with
  | none =>
    obtain ⟨-, rfl⟩ := h.unique (yields_resolve_none hfind)
    exact Log.errors_report_ne_zero _ _ _
  | some binding =>
    exact absurd (h.unique (yields_resolve_some hfind)).1 (Option.some_ne_none _).symm

/-- A name that stands for something else is complained about. -/
theorem not_clean_of_wrongRole {expected : Role} (h : Yields (wrongRole name expected) s () s') :
    ¬s'.Clean := by
  obtain rfl := yields_modify.1 h
  exact Log.errors_report_ne_zero _ _ _

theorem observes_procedure (level : Nat) (name : Terminal) :
    Observes ρ (Spot.all level ρ [.use name]) ρ (procedure name) := by
  refine (observes_resolve level name).silent fun found => ?_
  split
  · exact .pure _
  · exact (ignoring_report _ _).bind fun _ => .pure _
  · exact .pure _

theorem not_clean_of_procedure_none (s s' : CheckState) (h : Yields (procedure name) s none s') :
    ¬s'.Clean := by
  simp only [procedure, yields_bind] at h
  obtain ⟨found, t, hresolve, h⟩ := h
  split at h
  · simp at h
  · simp only [yields_bind, yields_pure] at h
    obtain ⟨_, _, hrole, -, rfl⟩ := h
    exact not_clean_of_wrongRole hrole
  · obtain ⟨-, rfl⟩ := yields_pure.1 h
    exact not_clean_of_resolve_none hresolve

theorem observes_function (level : Nat) (name : Terminal) :
    Observes ρ (Spot.all level ρ [.use name]) ρ (function name) := by
  refine (observes_resolve level name).silent fun found => ?_
  split
  · exact .pure _
  · exact (ignoring_report _ _).bind fun _ => .pure _
  · exact .pure _

theorem not_clean_of_function_none (s s' : CheckState) (h : Yields (function name) s none s') :
    ¬s'.Clean := by
  simp only [function, yields_bind] at h
  obtain ⟨found, t, hresolve, h⟩ := h
  split at h
  · simp at h
  · simp only [yields_bind, yields_pure] at h
    obtain ⟨_, _, hrole, -, rfl⟩ := h
    exact not_clean_of_wrongRole hrole
  · obtain ⟨-, rfl⟩ := yields_pure.1 h
    exact not_clean_of_resolve_none hresolve

/-- A binder declares its name, or is complained about if the name is taken. -/
theorem observes_declare (level : Nat) (name : Terminal) (id : NodeId) (typed : Bool)
    (meaning : Meaning) :
    Observes ρ (Spot.all level ρ [.binder id name.spelling typed]) (ρ.declare name.spelling id)
      (declare name id meaning) := by
  intro s u s' h hs
  simp only [declare, yields_bind, yields_get] at h
  obtain ⟨_, _, ⟨rfl, rfl⟩, h⟩ := h
  split at h
  · rename_i scopes henter
    obtain rfl := yields_modify.1 h
    refine ⟨⟨⟨⟨_, Scopes.eq_extended_of_enter? henter⟩, fun h => h⟩, fun _ _ => .inl,
      fun _ _ => .inl, fun _ h => h, fun _ => List.forall_mem_singleton.2 ?_⟩, ?_⟩
    · rw [← hs]
      exact Scopes.fresh_referents_iff.2 ⟨scopes, henter⟩
    · rw [← hs]
      exact Scopes.referents_of_enter? henter
  · rename_i henter
    have hpasses := passing_report _ _ _ _ _ h
    obtain rfl := yields_modify.1 h
    refine ⟨⟨hpasses.declares, fun _ _ => .inl, fun _ _ => .inl, fun _ h => h,
      fun hclean => ?_⟩, ?_⟩
    · exact absurd hclean (Log.errors_report_ne_zero _ _ _)
    · rw [← hs]
      exact (Scopes.declare_of_enter?_eq_none henter).symm

end

/-! ## Scopes of their own -/

section

variable {α β : Type} {ρ ρ₁ ρ₂ : Referents} {S S' T : List Spot}

/-- What is done inside a scope of its own leaves the names around it as they were. -/
theorem Observes.scoped {x : Check α} {f : α → Scope → Check β} (hx : Observes ([] :: ρ) S ρ₁ x)
    (hf : ∀ a scope, scope.view Binding.referent = ρ₁.headD [] → Observes ρ T ρ₂ (f a scope)) :
    Observes ρ (S ++ T) ρ₂ (do openScope; let a ← x; let scope ← closeScope; f a scope) := by
  intro s b s' h hs
  simp only [openScope, closeScope, yields_bind, yields_modify, yields_modifyGet] at h
  obtain ⟨_, _, rfl, a, t, h₁, scope, _, ⟨rfl, rfl⟩, h₂⟩ := h
  obtain ⟨hS, ht⟩ := hx _ _ _ h₁ (by rw [← hs]; rfl)
  have hpass := hS.toDeclares.closed
  have hclosed : CheckState.referents { t with scopes := t.scopes.closed } = ρ := by
    rw [← hs, CheckState.referents, hpass.scopes]
    rfl
  have hscope : t.scopes.innermost.view Binding.referent = ρ₁.headD [] := by
    rw [← Scopes.headD_referents]
    exact congrArg (·.headD []) ht
  obtain ⟨hT, hs'⟩ := hf a _ hscope _ _ _ h₂ hclosed
  -- what is filed and what is complained about does not depend on the scopes
  have hinside : Observed S s { t with scopes := t.scopes.closed } :=
    ⟨hpass.declares, hS.types, hS.referents, hS.kept, hS.settled⟩
  exact ⟨hinside.trans hT, hs'⟩

/-- A block: declarations in a scope of their own, and something that sees them. -/
theorem Observes.block {d : Check Unit} {x : Check α} {f : α → Check β}
    (hd : Observes ([] :: ρ) S ρ₁ d) (hx : Observes ρ₁ S' ρ₁ x) (hf : ∀ a, Observes ρ T ρ (f a)) :
    Observes ρ (S ++ S' ++ T) ρ (do openScope; d; let a ← x; let _ ← closeScope; f a) := by
  have h := (hd.bind fun _ => hx).scoped (f := fun a _ => f a) fun a _ _ => hf a
  simpa only [bind_assoc] using h

/-- What is done inside a scope that was put back. -/
theorem Observes.inside {scope : Scope} {x : Check Unit}
    (hx : Observes (scope.view Binding.referent :: ρ) S (scope.view Binding.referent :: ρ) x) :
    Observes ρ S ρ (do restoreScope scope; x; let _ ← closeScope) := by
  intro s u s' h hs
  simp only [restoreScope, closeScope, yields_bind, yields_modify, yields_modifyGet,
    yields_pure] at h
  obtain ⟨_, _, rfl, _, t, h₁, _, _, ⟨-, rfl⟩, -, rfl⟩ := h
  have hstart : CheckState.referents { s with scopes := s.scopes.restored scope } =
      scope.view Binding.referent :: ρ := by
    rw [← hs]
    rfl
  obtain ⟨hS, ht⟩ := hx _ _ _ h₁ hstart
  obtain ⟨new, hnew⟩ := hS.scopes
  have hclosed : t.scopes.closed = s.scopes := by
    rw [CheckState.referents, hnew, ← hstart] at ht
    rw [hnew, Scopes.extended_eq_of_referents ht]
    rfl
  refine ⟨⟨Passes.declares ⟨hclosed, hS.clean⟩, hS.types, hS.referents, hS.kept, hS.settled⟩, ?_⟩
  rw [← hs, CheckState.referents, CheckState.referents]
  exact congrArg Scopes.referents hclosed

end

/-! ## Types and parameters -/

theorem Spot.all_append (level : Nat) (ρ : Referents) (sites sites' : List Site) :
    Spot.all level ρ (sites ++ sites') = Spot.all level ρ sites ++ Spot.all level ρ sites' :=
  List.map_append

mutual

theorem TypeDenoter.observes_check (level : Nat) (ρ : Referents) :
    (of : TypeDenoter) → Observes ρ (Spot.all level ρ of.sites) ρ of.check
  | .any _ | .bool _ | .char _ | .error _ | .int _ => (ignoring_typed _ _).phrase level _
  | .array _ size element => by
    rw [TypeDenoter.check, TypeDenoter.sites, Spot.all_append]
    refine (element.observes_check level ρ).bind fun _ => Ignoring.phrase level _ ?_
    split
    · split
      · exact ignoring_typed _ _
      · exact (ignoring_report _ _).bind fun _ => ignoring_typed _ _
    · exact ignoring_typed _ _
  | .record _ fields => by
    rw [TypeDenoter.check, TypeDenoter.sites, Spot.all_append]
    exact (fields.observes_check level ρ).bind fun _ => (ignoring_typed _ _).phrase level _
  | .simple _ name => by
    rw [TypeDenoter.check, TypeDenoter.sites, Spot.all_append]
    refine (observes_resolve level name).bind fun _ => Ignoring.phrase level _ ?_
    split
    · exact ignoring_typed _ _
    · exact (ignoring_report _ _).bind fun _ => ignoring_typed _ _
    · exact ignoring_typed _ _

theorem FieldDenoters.observes_check (level : Nat) (ρ : Referents) :
    (fields : FieldDenoters) → Observes ρ (Spot.all level ρ fields.sites) ρ fields.check
  | .single _ _ of => by
    rw [FieldDenoters.check, FieldDenoters.sites]
    exact (of.observes_check level ρ).silent fun _ => ignoring_prependField _ _ _
  | .multiple _ _ of rest => by
    rw [FieldDenoters.check, FieldDenoters.sites, Spot.all_append]
    exact (of.observes_check level ρ).bind fun _ =>
      (rest.observes_check level ρ).silent fun _ => ignoring_prependField _ _ _

end

mutual

theorem Parameter.observes_check (level : Nat) (ρ : Referents) : (parameter : Parameter) →
    Observes ρ (parameter.spots level ρ) (parameter.inScope ρ) parameter.check
  | .const _ name of | .var _ name of => by
    rw [Parameter.check, Parameter.spots, Parameter.inScope]
    exact (of.observes_check level ρ).bind fun _ =>
      .filing (List.mem_singleton_self _) rfl fun _ =>
      (observes_declare level name _ true _).silent fun _ => .pure _
  | .func _ name parameters result => by
    rw [Parameter.check, Parameter.spots, Parameter.inScope, List.append_assoc]
    exact (parameters.observes_check level _).scoped fun _ _ _ =>
      (result.observes_check level ρ).bind fun _ =>
      .filing (List.mem_singleton_self _) rfl fun _ =>
      (observes_declare level name _ true _).silent fun _ => .pure _
  | .proc _ name parameters => by
    rw [Parameter.check, Parameter.spots, Parameter.inScope]
    exact (parameters.observes_check level _).scoped fun _ _ _ =>
      (observes_declare level name _ false _).silent fun _ => .pure _

theorem Parameters.observes_check (level : Nat) (ρ : Referents) : (parameters : Parameters) →
    Observes ρ (parameters.spots level ρ) (parameters.inScope ρ) parameters.check
  | .empty _ => (Ignoring.pure _).nothing
  | .single _ parameter => by
    rw [Parameters.check, Parameters.spots, Parameters.inScope]
    exact (parameter.observes_check level ρ).silent fun _ => .pure _
  | .multiple _ first rest => by
    rw [Parameters.check, Parameters.spots, Parameters.inScope]
    exact (first.observes_check level ρ).bind fun _ =>
      (rest.observes_check level _).silent fun _ => .pure _

end

/-- A routine: its parameters in a scope of their own, its name, and its body inside both. -/
theorem observes_routine (level : Nat) {ρ : Referents} {S : List Spot} (typed : Bool)
    (hbody : Observes (ρ.routine name.spelling id parameters) S
      (ρ.routine name.spelling id parameters) body) :
    Observes ρ (parameters.spots (level + 1) ([] :: ρ) ++
        (Spot.all level ρ [.binder id name.spelling typed] ++ S)) (ρ.declare name.spelling id)
      (routine name id parameters meaning body) := by
  rw [Referents.routine] at hbody
  refine (parameters.observes_check (level + 1) _).scoped fun formals scope hscope =>
    (observes_declare level name id typed _).bind fun _ => ?_
  rw [← hscope] at hbody
  exact hbody.inside

/-! ## Commands, expressions and declarations -/

mutual

theorem Command.observes_check (level : Nat) (ρ : Referents) :
    (command : Command) → Observes ρ (command.spots level ρ) ρ command.check
  | .assign _ target value => by
    rw [Command.check, Command.spots]
    exact (target.observes_check level ρ).bind fun ⟨_, _⟩ =>
      (ignoring_requireVariable _ _ _ _).nothing.bind fun _ =>
      (value.observes_check level ρ).silent fun _ => ignoring_require _ _ _
  | .doubleAssign _ first second firstValue secondValue => by
    rw [Command.check]
    refine ((first.observes_check level ρ).bind fun ⟨_, _⟩ =>
      (ignoring_requireVariable _ _ _ _).nothing.bind fun _ =>
      (firstValue.observes_check level ρ).bind fun _ =>
      (ignoring_require _ _ _).nothing.bind fun _ =>
      (second.observes_check level ρ).bind fun ⟨_, _⟩ =>
      (ignoring_requireVariable _ _ _ _).nothing.bind fun _ =>
      (secondValue.observes_check level ρ).silent fun _ =>
      ignoring_require _ _ _).of_mem fun p => ?_
    simp only [Command.spots, List.mem_append, List.nil_append]
    tauto
  | .call _ name arguments => by
    rw [Command.check, Command.spots]
    exact (observes_procedure level name).orElse not_clean_of_procedure_none
      (fun formals => arguments.observes_check level ρ formals) (.pure _)
      (List.forall_mem_nil _)
  | .empty _ => (Ignoring.pure _).nothing
  | .ifElse _ condition first second => by
    rw [Command.check, Command.spots, List.append_assoc]
    exact (condition.observes_check level ρ).bind fun _ =>
      (ignoring_require _ _ _).nothing.bind fun _ =>
      (first.observes_check level ρ).bind fun _ => second.observes_check level ρ
  | .letIn _ declaration body => by
    rw [Command.check, Command.spots, ← List.append_nil (_ ++ _)]
    exact (declaration.observes_check level _).block
      (body.observes_check level _) fun _ => (Ignoring.pure _).nothing
  | .sequential _ first second => by
    rw [Command.check, Command.spots]
    exact (first.observes_check level ρ).bind fun _ => second.observes_check level ρ
  | .whileDo _ condition body => by
    rw [Command.check, Command.spots]
    exact (condition.observes_check level ρ).bind fun _ =>
      (ignoring_require _ _ _).nothing.bind fun _ => body.observes_check level ρ
  | .loopWhile _ prelude condition body => by
    rw [Command.check, Command.spots, List.append_assoc]
    exact (prelude.observes_check level ρ).bind fun _ =>
      (condition.observes_check level ρ).bind fun _ =>
      (ignoring_require _ _ _).nothing.bind fun _ => body.observes_check level ρ

theorem Expression.observes_check (level : Nat) (ρ : Referents) :
    (expression : Expression) → Observes ρ (expression.spots level ρ) ρ expression.check
  | .array _ elements => by
    rw [Expression.check, Expression.spots]
    exact (elements.observes_check level ρ).bind fun ⟨_, _⟩ =>
      (ignoring_typed _ _).phrase level _
  | .binary m left operator right => by
    rw [Expression.check]
    refine ((left.observes_check level ρ).bind fun _ =>
      (right.observes_check level ρ).bind fun _ =>
      (observes_resolve level operator).bind fun found =>
      Ignoring.phrase level m.id ?_).of_mem fun p => ?_
    -- the operator comes last in the check but not in the tree, so the spots are reordered
    · split
      · split
        · split
          · exact ignoring_typed _ _
          · exact (ignoring_report _ _).bind fun _ => ignoring_typed _ _
        · exact (ignoring_require _ _ _).bind fun _ =>
            (ignoring_require _ _ _).bind fun _ => ignoring_typed _ _
      · exact (ignoring_report _ _).bind fun _ => ignoring_typed _ _
      · exact ignoring_typed _ _
    · simp only [Expression.spots, List.mem_append]
      tauto
  | .call _ name arguments => by
    rw [Expression.check, Expression.spots, List.append_assoc]
    refine (observes_function level name).orElse not_clean_of_function_none
      (fun ⟨formals, result⟩ => ?_) (ignoring_typed _ _)
      (List.forall_mem_singleton.2 ⟨_, List.mem_append_right _ List.mem_cons_self, rfl⟩)
    exact (arguments.observes_check level ρ formals).bind fun _ =>
      (ignoring_typed _ _).phrase level _
  | .character _ _ | .empty _ | .integer _ _ => (ignoring_typed _ _).phrase level _
  | .ifElse m condition first second => by
    rw [Expression.check, Expression.spots, List.append_assoc, List.append_assoc]
    refine (condition.observes_check level ρ).bind fun _ =>
      (ignoring_require _ _ _).nothing.bind fun _ =>
      (first.observes_check level ρ).bind fun _ =>
      (second.observes_check level ρ).bind fun _ => Ignoring.phrase level _ ?_
    split
    · exact ignoring_typed _ _
    · exact (ignoring_report _ _).bind fun _ => ignoring_typed _ _
  | .letIn _ declaration body => by
    rw [Expression.check, Expression.spots]
    exact (declaration.observes_check level _).block
      (body.observes_check level _) fun _ =>
      (ignoring_typed _ _).phrase level _
  | .record _ fields => by
    rw [Expression.check, Expression.spots]
    exact (fields.observes_check level ρ).bind fun _ =>
      (ignoring_typed _ _).phrase level _
  | .unary m operator operand => by
    rw [Expression.check]
    refine ((operand.observes_check level ρ).bind fun _ =>
      (observes_resolve level operator).bind fun found =>
      Ignoring.phrase level m.id ?_).of_mem fun p => ?_
    · split
      · exact (ignoring_require _ _ _).bind fun _ => ignoring_typed _ _
      · exact (ignoring_report _ _).bind fun _ => ignoring_typed _ _
      · exact ignoring_typed _ _
    · simp only [Expression.spots, List.mem_append]
      tauto
  | .vname _ vname => by
    rw [Expression.check, Expression.spots]
    exact (vname.observes_check level ρ).bind fun ⟨_, _⟩ => (ignoring_typed _ _).phrase level _

theorem Declaration.observes_check (level : Nat) (ρ : Referents) : (declaration : Declaration) →
    Observes ρ (declaration.spots level ρ) (declaration.inScope ρ) declaration.check
  | .binaryOperator _ operator left right result => by
    rw [Declaration.check, Declaration.spots, Declaration.inScope, Spot.all_append,
      Spot.all_append, List.append_assoc, List.append_assoc]
    exact (left.observes_check level ρ).bind fun _ =>
      (right.observes_check level ρ).bind fun _ =>
      (result.observes_check level ρ).bind fun _ => observes_declare level operator _ false _
  | .const _ name value => by
    rw [Declaration.check, Declaration.spots, Declaration.inScope]
    exact (value.observes_check level ρ).bind fun _ =>
      .filing (List.mem_singleton_self _) rfl fun _ => observes_declare level name _ true _
  | .func m name parameters result body => by
    rw [Declaration.check, Declaration.inScope]
    have hbody := Expression.observes_check (level + 1) (ρ.routine name.spelling m.id parameters)
      body
    refine ((result.observes_check level ρ).bind fun _ =>
      .filing (List.mem_append_right _ (List.mem_append_left _ (List.mem_singleton_self _))) rfl
      fun τ => observes_routine level true
        (hbody.silent fun _ => ignoring_require _ _ _)).of_mem fun p => ?_
    simp only [Declaration.spots, List.mem_append]
    tauto
  | .proc m name parameters body => by
    rw [Declaration.check, Declaration.inScope]
    refine (observes_routine level false
      (Command.observes_check (level + 1) _ body)).of_mem fun p => ?_
    simp only [Declaration.spots, List.mem_append]
    tauto
  | .sequential _ first second => by
    rw [Declaration.check, Declaration.spots, Declaration.inScope]
    exact (first.observes_check level ρ).bind fun _ =>
      second.observes_check level _
  | .type _ name of | .var _ name of => by
    rw [Declaration.check, Declaration.spots, Declaration.inScope]
    exact (of.observes_check level ρ).bind fun _ =>
      .filing (List.mem_singleton_self _) rfl fun _ => observes_declare level name _ true _
  | .unaryOperator _ operator operand result => by
    rw [Declaration.check, Declaration.spots, Declaration.inScope, Spot.all_append,
      List.append_assoc]
    exact (operand.observes_check level ρ).bind fun _ =>
      (result.observes_check level ρ).bind fun _ => observes_declare level operator _ false _

theorem Vname.observes_check (level : Nat) (ρ : Referents) :
    (vname : Vname) → Observes ρ (vname.spots level ρ) ρ vname.check
  | .dot _ record field => by
    refine (record.observes_check level ρ).bind fun ⟨recordType, assignable⟩ =>
      Ignoring.phrase level _ ?_
    cases recordType with
    | error => exact ignoring_named _ _ _
    | record fields =>
      refine Ignoring.bind (Along.lift Ignores.refl _) fun found => ?_
      split
      · exact ignoring_named _ _ _
      · exact (ignoring_report _ _).bind fun _ => ignoring_named _ _ _
    | _ => exact (ignoring_report _ _).bind fun _ => ignoring_named _ _ _
  | .simple _ name => by
    refine (observes_resolve level name).bind fun found => Ignoring.phrase level _ ?_
    split
    · exact ignoring_named _ _ _
    · exact ignoring_named _ _ _
    · exact (ignoring_report _ _).bind fun _ => ignoring_named _ _ _
    · exact ignoring_named _ _ _
  | .subscript _ array index => by
    rw [Vname.check, Vname.spots, List.append_assoc]
    refine (array.observes_check level ρ).bind fun ⟨arrayType, assignable⟩ =>
      (index.observes_check level ρ).bind fun _ => Ignoring.phrase level _ ?_
    refine (ignoring_require _ _ _).bind fun _ => ?_
    cases arrayType with
    | error => exact ignoring_named _ _ _
    | array length element => exact ignoring_named _ _ _
    | _ => exact (ignoring_report _ _).bind fun _ => ignoring_named _ _ _

theorem Argument.observes_check (level : Nat) (ρ : Referents) : (argument : Argument) →
    (formal : Formal) → Observes ρ (argument.spots level ρ) ρ (argument.check formal)
  | .const _ value, formal => by
    refine (value.observes_check level ρ).silent fun _ => ?_
    cases formal with
    | const expected => exact ignoring_require _ _ _
    | _ => exact ignoring_modeMismatch _ _ _
  | .func _ name, formal => by
    refine (observes_function level name).silent fun found => ?_
    split
    · cases formal with
      | func formals result =>
        dsimp only
        split
        · exact .pure _
        · exact ignoring_report _ _
      | _ => exact ignoring_modeMismatch _ _ _
    · exact .pure _
  | .proc _ name, formal => by
    refine (observes_procedure level name).silent fun found => ?_
    split
    · cases formal with
      | proc formals =>
        dsimp only
        split
        · exact .pure _
        · exact ignoring_report _ _
      | _ => exact ignoring_modeMismatch _ _ _
    · exact .pure _
  | .var _ vname, formal => by
    refine (vname.observes_check level ρ).silent fun ⟨_, _⟩ =>
      (ignoring_requireVariable _ _ _ _).bind fun _ => ?_
    cases formal with
    | var expected => exact ignoring_require _ _ _
    | _ => exact ignoring_modeMismatch _ _ _

theorem Arguments.observes_check (level : Nat) (ρ : Referents) : (arguments : Arguments) →
    (formals : Formals) → Observes ρ (arguments.spots level ρ) ρ (arguments.check formals)
  | .empty _, formals => by
    cases formals with
    | nil => exact (Ignoring.pure _).nothing
    | cons formal others => exact observes_report _ _ _
  | .single _ argument, formals => by
    rcases formals with _ | ⟨formal, _ | ⟨other, others⟩⟩
    · exact observes_report _ _ _
    · exact argument.observes_check level ρ formal
    · exact (argument.observes_check level ρ formal).silent fun _ => ignoring_report _ _
  | .multiple _ first rest, formals => by
    cases formals with
    | nil => exact observes_report _ _ _
    | cons formal others =>
      exact (first.observes_check level ρ formal).bind fun _ =>
        rest.observes_check level ρ others

theorem ArrayAggregate.observes_check (level : Nat) (ρ : Referents) :
    (elements : ArrayAggregate) → Observes ρ (elements.spots level ρ) ρ elements.check
  | .single _ element => by
    rw [ArrayAggregate.check, ArrayAggregate.spots]
    exact (element.observes_check level ρ).silent fun _ => .pure _
  | .multiple _ first rest => by
    rw [ArrayAggregate.check, ArrayAggregate.spots]
    exact (first.observes_check level ρ).bind fun _ =>
      (rest.observes_check level ρ).silent fun ⟨_, _⟩ =>
      (ignoring_require _ _ _).bind fun _ => .pure _

theorem RecordAggregate.observes_check (level : Nat) (ρ : Referents) :
    (fields : RecordAggregate) → Observes ρ (fields.spots level ρ) ρ fields.check
  | .single _ _ value => by
    rw [RecordAggregate.check, RecordAggregate.spots]
    exact (value.observes_check level ρ).silent fun _ => ignoring_prependField _ _ _
  | .multiple _ _ value rest => by
    rw [RecordAggregate.check, RecordAggregate.spots]
    exact (value.observes_check level ρ).bind fun _ =>
      (rest.observes_check level ρ).silent fun _ => ignoring_prependField _ _ _

end

/-! ## What phrases do to the scopes -/

theorem Parameters.declaring_check (parameters : Parameters) : Declaring parameters.check :=
  Observes.declaring (parameters.observes_check 0)

/-- A command leaves the scopes as they were. -/
theorem Command.passing_check (command : Command) : Passing command.check :=
  Observes.passing (command.observes_check 0)

theorem Expression.passing_check (expression : Expression) : Passing expression.check :=
  Observes.passing (expression.observes_check 0)

/-- A declaration adds to the innermost scope only. -/
theorem Declaration.declaring_check (declaration : Declaration) : Declaring declaration.check :=
  Observes.declaring (declaration.observes_check 0)

/-- A run of a routine's check, taken apart: the parameters in a scope of their own, the name of
the routine in the scope around it, and the body inside both. -/
theorem yields_routine (h : Yields (routine name declaration parameters meaning body) s u s') :
    ∃ formals t₁ t₂ t₃,
      Yields parameters.check { s with scopes := s.scopes.opened } formals t₁ ∧
      Yields (declare name declaration (meaning formals))
        { t₁ with scopes := t₁.scopes.closed } () t₂ ∧
      Yields body { t₂ with scopes := t₂.scopes.restored t₁.scopes.innermost } () t₃ ∧
      s' = { t₃ with scopes := t₃.scopes.closed } := by
  simp only [routine, openScope, closeScope, restoreScope, yields_bind, yields_modify,
    yields_modifyGet, yields_pure] at h
  obtain ⟨_, _, rfl, formals, t₁, h₁, _, _, ⟨rfl, rfl⟩, _, t₂, h₂, _, _, rfl, _, t₃, h₃, _, _,
    ⟨-, rfl⟩, -, rfl⟩ := h
  exact ⟨formals, t₁, t₂, t₃, h₁, h₂, h₃, rfl⟩

/-- A run of a routine's check: the scopes are put back as they were, with the name added. -/
theorem yields_routine_iff (hbody : Passing body) :
    Yields (routine name declaration parameters meaning body) s u s' ↔
      ∃ formals t₁ new t₂ t₃,
        Yields parameters.check { s with scopes := s.scopes.opened } formals t₁ ∧
        t₁.scopes = s.scopes.opened.extended new ∧
        Yields (declare name declaration (meaning formals)) { t₁ with scopes := s.scopes } () t₂ ∧
        Yields body { t₂ with scopes := t₂.scopes.restored new } () t₃ ∧
        s' = { t₃ with scopes := t₂.scopes } := by
  constructor
  · intro h
    obtain ⟨formals, t₁, t₂, t₃, h₁, h₂, h₃, rfl⟩ := yields_routine h
    obtain ⟨new, hnew⟩ := (parameters.declaring_check _ _ _ h₁).scopes
    have hclosed : t₁.scopes.closed = s.scopes := by
      rw [hnew]
      exact Scopes.closed_extended_opened _ _
    have hinner : t₁.scopes.innermost = new := by
      rw [hnew]
      exact Scopes.innermost_extended_opened _ _
    rw [hclosed] at h₂
    rw [hinner] at h₃
    refine ⟨formals, t₁, new, t₂, t₃, h₁, hnew, h₂, h₃, ?_⟩
    rw [(hbody _ _ _ h₃).scopes]
    rfl
  · rintro ⟨formals, t₁, new, t₂, t₃, h₁, hnew, h₂, h₃, rfl⟩
    have hclosed : t₁.scopes.closed = s.scopes := by
      rw [hnew]
      exact Scopes.closed_extended_opened _ _
    have hinner : t₁.scopes.innermost = new := by
      rw [hnew]
      exact Scopes.innermost_extended_opened _ _
    have hscopes : t₃.scopes.closed = t₂.scopes := by
      rw [(hbody _ _ _ h₃).scopes]
      rfl
    simp only [routine, openScope, closeScope, restoreScope, yields_bind, yields_modify,
      yields_modifyGet, yields_pure]
    exact ⟨(), _, rfl, formals, t₁, h₁, _, _, ⟨rfl, rfl⟩, (), t₂, by rwa [hclosed], (), _, rfl,
      (), t₃, by rwa [hinner], _, _, ⟨rfl, rfl⟩, trivial, by rw [hscopes]⟩

theorem declaring_routine (hbody : Passing body) :
    Declaring (routine name declaration parameters meaning body) := by
  intro s u s' h
  obtain ⟨formals, t₁, t₂, t₃, h₁, h₂, h₃, rfl⟩ := yields_routine h
  have hparameters := (parameters.declaring_check _ _ _ h₁).closed
  have hname := hparameters.declares.trans (declaring_declare _ _ _ _ _ _ h₂)
  have hpass := hbody _ _ _ h₃
  refine ⟨?_, fun hclean => hname.clean (hpass.clean hclean)⟩
  rw [hpass.scopes]
  exact hname.scopes

/-! ## Programs -/

section

variable {program : Program} {A : Annotations} {log log' : Log Problem}

/-- Whatever the outcome of checking, a name that a declaration was filed for refers to it. -/
theorem Program.resolves_of_check (h : program.check log = .ok (A, log'))
    (hid : A.referentOf? id = some referent) : ∃ p ∈ program.spots, p.Resolves id referent := by
  obtain ⟨⟨_, s⟩, hrun, heq⟩ := bind_eq_ok_iff.1 h
  cases heq
  have hobserves := program.command.observes_check 0 .standard _ _ _ hrun Scopes.referents_initial
  obtain hold | hspot := hobserves.1.referents id referent hid
  · simp [Annotations.referentOf?, Annotations.empty] at hold
  · exact hspot

/-- Whatever the outcome of checking, a type is filed where the tree has a site for it. -/
theorem Program.typed_of_check {τ : Ty} (h : program.check log = .ok (A, log'))
    (hid : A.typeOf? id = some τ) : ∃ site ∈ program.command.sites, site.typed? = some id := by
  obtain ⟨⟨_, s⟩, hrun, heq⟩ := bind_eq_ok_iff.1 h
  cases heq
  have hobserves := program.command.observes_check 0 .standard _ _ _ hrun Scopes.referents_initial
  obtain hold | ⟨p, hp, hsite⟩ := hobserves.1.types id τ hid
  · simp [Annotations.typeOf?, Annotations.empty] at hold
  · exact ⟨_, Program.site_mem hp, hsite⟩

/-- Where identities are not used twice, what is filed for a use is what the name refers to at its
spot. -/
theorem Program.find?_of_check (h : program.check log = .ok (A, log')) (hids : program.ids.Nodup)
    (hp : p ∈ program.spots) (hsite : p.site = .use name)
    (hreferent : A.referentOf? name.mark.id = some referent) :
    p.names.find? name.spelling = some referent := by
  obtain ⟨q, hq, other, hother, hid, hfind⟩ := Program.resolves_of_check h hreferent
  obtain rfl := Program.spot_eq_of_id_eq hids hq hp (by rw [hother, hsite]; exact hid)
  obtain rfl := Site.use.inj (hsite.symm.trans hother)
  exact hfind

/-- After checking without a complaint, every use has a declaration on file and no scope declares a
name twice. -/
theorem Program.settled_of_check (h : program.check log = .ok (A, log'))
    (hclean : log'.errors = 0) :
    ∀ p ∈ program.spots, p.Settled A := by
  obtain ⟨⟨_, s⟩, hrun, heq⟩ := bind_eq_ok_iff.1 h
  cases heq
  have hobserves := program.command.observes_check 0 .standard _ _ _ hrun Scopes.referents_initial
  exact hobserves.1.settled hclean

end

end Triangle
