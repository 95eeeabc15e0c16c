import Triangle.Proofs.Typing.Soundness

/-!
# A well-typed tree is accepted

The rules of typing take annotations for granted; the checker makes its own.  If the annotations let
every name refer to what it refers to by the rules of scope, and no scope declares a name twice,
then a well-typed tree is checked without a complaint, and the types that the checker files are
those that the annotations say.

A run of the checker is followed along the rules.  `Accepts` goes with the steps of a phrase one
after the other: there is a run, with the result that the rules name, that reports nothing.
-/

namespace Triangle

open Check

variable {level : Nat} {name : Terminal} {meaning : Meaning} {Γ : Context} {ρ : Referents}
  {program : Program}

/-- The annotations go by the rules of scope at a spot. -/
def Spot.Resolved (A : Annotations) (p : Spot) : Prop :=
  match p.site with
  | .phrase _ => True
  | .use name => A.referentOf? name.mark.id = p.names.find? name.spelling
  | .binder _ name _ => p.names.Fresh name

instance (A : Annotations) : (p : Spot) → Decidable (p.Resolved A)
  | ⟨.phrase _, _, _⟩ => inferInstanceAs (Decidable True)
  | ⟨.use name, _, ρ⟩ =>
    inferInstanceAs (Decidable (A.referentOf? name.mark.id = ρ.find? name.spelling))
  | ⟨.binder _ name _, _, ρ⟩ => inferInstanceAs (Decidable (ρ.Fresh name))

/-- What names refer to in a state, and that the context knows what they mean. -/
structure CheckState.Fits (Γ : Context) (ρ : Referents) (s : CheckState) : Prop where
  referents : s.referents = ρ
  covers : Γ.Covers s.scopes

/-- Between two states nothing was reported, and the types filed are those that the annotations say;
the phrases at the spots have types. -/
structure CheckState.Files (A : Annotations) (S : List Spot) (s t : CheckState) : Prop where
  log : t.log = s.log
  types : ∀ id τ, t.annotations.typeOf? id = some τ →
    s.annotations.typeOf? id = some τ ∨ A.typeOf? id = some τ
  kept : ∀ id, (s.annotations.typeOf? id).isSome = true → (t.annotations.typeOf? id).isSome = true
  filed : ∀ p ∈ S, ∀ id, p.site = .phrase id → (t.annotations.typeOf? id).isSome = true

/-- If the spots go by the rules of scope, there is a run from every state that fits, with the given
result and to a state that fits. -/
def Accepts (A : Annotations) (Γ : Context) (ρ : Referents) (S : List Spot) {α : Type}
    (x : Check α) (a : α) (Γ' : Context) (ρ' : Referents) : Prop :=
  (∀ p ∈ S, p.Resolved A) → ∀ s : CheckState, s.Fits Γ ρ →
    ∃ s', Yields x s a s' ∧ s'.Fits Γ' ρ' ∧ s.Files A S s'

variable {id : NodeId} {τ : Ty} {formals : Formals} {Θ : Context}

section

variable {α β : Type} {A : Annotations} {Γ Γ₁ Γ₂ : Context} {ρ ρ₁ ρ₂ : Referents}
  {S S' : List Spot}

theorem CheckState.Files.trans {s t u : CheckState} (h₁ : s.Files A S t) (h₂ : t.Files A S' u) :
    s.Files A (S ++ S') u where
  log := h₂.log.trans h₁.log
  types id τ hid := by
    rcases h₂.types id τ hid with hid | hid
    · exact h₁.types id τ hid
    · exact .inr hid
  kept id hid := h₂.kept id (h₁.kept id hid)
  filed p hp id hid := by
    rcases List.mem_append.1 hp with hp | hp
    · exact h₂.kept id (h₁.filed p hp id hid)
    · exact h₂.filed p hp id hid

/-- Nothing is filed about types. -/
theorem CheckState.Files.nothing {s t : CheckState} (hlog : t.log = s.log)
    (htypes : t.annotations.types = s.annotations.types) (hS : ∀ p ∈ S, ∀ id, p.site ≠ .phrase id) :
    s.Files A S t where
  log := hlog
  types id τ hid := .inl (by rwa [Annotations.typeOf?, htypes] at hid)
  kept id hid := by rwa [Annotations.typeOf?, htypes]
  filed p hp id hid := absurd hid (hS p hp id)

theorem Accepts.pure (a : α) : Accepts A Γ ρ [] (pure a) a Γ ρ :=
  fun _ s hs => ⟨s, yields_pure.2 ⟨rfl, rfl⟩, hs, .nothing rfl rfl fun _ h => nomatch h⟩

theorem Accepts.bind {x : Check α} {f : α → Check β} {a : α} {b : β}
    (hx : Accepts A Γ ρ S x a Γ₁ ρ₁) (hf : Accepts A Γ₁ ρ₁ S' (f a) b Γ₂ ρ₂) :
    Accepts A Γ ρ (S ++ S') (x >>= f) b Γ₂ ρ₂ := by
  intro hspots s hs
  rw [List.forall_mem_append] at hspots
  obtain ⟨t, hrun, ht, hfiles⟩ := hx hspots.1 s hs
  obtain ⟨u, hrun', hu, hfiles'⟩ := hf hspots.2 t ht
  exact ⟨u, yields_bind.2 ⟨a, t, hrun, hrun'⟩, hu, hfiles.trans hfiles'⟩

/-- The spots can be listed in any order. -/
theorem Accepts.of_mem {x : Check α} {a : α} (hx : Accepts A Γ ρ S x a Γ₁ ρ₁)
    (hmem : ∀ p, p ∈ S' ↔ p ∈ S) : Accepts A Γ ρ S' x a Γ₁ ρ₁ := by
  intro hspots s hs
  obtain ⟨t, hrun, ht, hlog, htypes, hkept, hfiled⟩ :=
    hx (fun p hp => hspots p ((hmem p).2 hp)) s hs
  exact ⟨t, hrun, ht, hlog, htypes, hkept, fun p hp => hfiled p ((hmem p).1 hp)⟩

/-- A step without a spot comes last. -/
theorem Accepts.after {x : Check α} {f : α → Check β} {a : α} {b : β}
    (hx : Accepts A Γ ρ S x a Γ₁ ρ₁) (hf : Accepts A Γ₁ ρ₁ [] (f a) b Γ₂ ρ₂) :
    Accepts A Γ ρ S (x >>= f) b Γ₂ ρ₂ :=
  (hx.bind hf).of_mem fun p => by rw [List.append_nil]

/-- A context that knows more will do. -/
theorem Accepts.weaken {x : Check α} {a : α} (hx : Accepts A Γ₁ ρ S x a Γ₂ ρ₂) (hle : Γ.Le Γ₁) :
    Accepts A Γ ρ S x a Γ₂ ρ₂ :=
  fun hspots s hs => hx hspots s ⟨hs.referents, hs.covers.mono hle⟩

/-! ## The steps of checking -/

theorem accepts_typed (h : A.typeOf? id = some τ) (hS : ∀ p ∈ S, p.site = .phrase id) :
    Accepts A Γ ρ S (typed id τ) τ Γ ρ := by
  intro _ s hs
  have hget : ∀ other, (s.annotations.withType id τ).typeOf? other =
      if id = other then some τ else s.annotations.typeOf? other :=
    fun other => NodeMap.get?_insert _ _ _ _
  refine ⟨{ s with annotations := s.annotations.withType id τ }, rfl, ⟨hs.referents, hs.covers⟩,
    rfl, fun other σ hother => ?_, fun other hother => ?_, fun p hp other hother => ?_⟩
  · rw [hget] at hother
    split at hother
    · rename_i heq
      exact .inr (heq ▸ h.trans hother)
    · exact .inl hother
  · rw [hget]
    split
    · rfl
    · exact hother
  · cases (hS p hp).symm.trans hother
    rw [hget, if_pos rfl]
    rfl

theorem accepts_phrase (h : A.typeOf? id = some τ) :
    Accepts A Γ ρ (Spot.all level ρ [.phrase id]) (typed id τ) τ Γ ρ :=
  accepts_typed h (List.forall_mem_singleton.2 rfl)

theorem accepts_named (h : A.typeOf? id = some τ) (assignable : Bool) :
    Accepts A Γ ρ (Spot.all level ρ [.phrase id]) (named id τ assignable) (τ, assignable) Γ ρ := by
  refine (accepts_phrase h).after ?_
  cases assignable with
  | false => exact .pure _
  | true =>
    intro _ s hs
    exact ⟨{ s with annotations := s.annotations.withVariable id }, rfl,
      ⟨hs.referents, hs.covers⟩, .nothing rfl rfl fun _ h => nomatch h⟩

theorem accepts_require (h : τ.Proper) (span : Span) :
    Accepts A Γ ρ [] (require τ τ span) () Γ ρ := by
  rw [require, if_pos ((Ty.equivalent_iff h.plain h.plain).2 rfl)]
  exact .pure _

theorem accepts_requireVariable (τ : Ty) (span : Span) (fault : ContextFault) :
    Accepts A Γ ρ [] (requireVariable τ true span fault) () Γ ρ :=
  .pure _

theorem accepts_prependField {rest : Fields} (h : rest.declares name.spelling = false) :
    Accepts A Γ ρ [] (prependField name τ rest) (.cons name.spelling τ rest) Γ ρ := by
  rw [prependField, h]
  exact .pure _

section

variable {level : Nat} {name : Terminal}

theorem accepts_resolve (h : A.Means Γ name meaning) :
    Accepts A Γ ρ (Spot.all level ρ [.use name]) (resolve name) (some meaning) Γ ρ := by
  intro hspots s hs
  obtain ⟨referent, hreferent, hmeaning⟩ := h
  have hresolved : A.referentOf? name.mark.id = ρ.find? name.spelling :=
    hspots _ List.mem_cons_self
  rw [hresolved, ← hs.referents, CheckState.referents, Scopes.find?_referents] at hreferent
  obtain ⟨binding, hfind, rfl⟩ := Option.map_eq_some_iff.1 hreferent
  -- what the scopes say a name means is what the context knows of its referent
  have hcovers := hs.covers binding (Scopes.mem_bindings_of_find? hfind)
  obtain rfl := Option.some.inj (hcovers.symm.trans hmeaning)
  exact ⟨_, yields_resolve_some hfind, ⟨hs.referents, hs.covers⟩,
    .nothing rfl rfl (List.forall_mem_singleton.2 fun _ h => Site.noConfusion h)⟩

theorem accepts_procedure (h : A.Means Γ name (.proc formals)) :
    Accepts A Γ ρ (Spot.all level ρ [.use name]) (procedure name) (some formals) Γ ρ :=
  (accepts_resolve h).after (.pure _)

theorem accepts_function {result : Ty} (h : A.Means Γ name (.func formals result)) :
    Accepts A Γ ρ (Spot.all level ρ [.use name]) (function name) (some (formals, result)) Γ ρ :=
  (accepts_resolve h).after (.pure _)

theorem accepts_declare {typed : Bool} (hid : Γ id = none) :
    Accepts A Γ ρ (Spot.all level ρ [.binder id name.spelling typed]) (declare name id meaning) ()
      (Γ.bind id meaning) (ρ.declare name.spelling id) := by
  intro hspots s hs
  have hfresh : ρ.Fresh name.spelling := hspots _ List.mem_cons_self
  rw [← hs.referents] at hfresh ⊢
  obtain ⟨scopes, henter⟩ : ∃ scopes,
      s.scopes.enter? name.spelling ⟨.node id, meaning⟩ = some scopes :=
    Scopes.fresh_referents_iff.1 hfresh
  refine ⟨{ s with scopes }, yields_bind.2 ⟨s, s, yields_get.2 ⟨rfl, rfl⟩, ?_⟩, ⟨?_, ?_⟩,
    .nothing rfl rfl (List.forall_mem_singleton.2 nofun)⟩
  · rw [henter]
    rfl
  · exact Scopes.referents_of_enter? henter
  · rw [Scopes.eq_extended_of_enter? henter]
    exact hs.covers.declared hid name.spelling meaning

end

/-! ## Scopes of their own -/

/-- What is done inside a scope of its own leaves the surroundings as they were.  The scope is
passed on, and the context at its end knows its names. -/
theorem Accepts.scoped {x : Check α} {f : α → Scope → Check β} {a : α} {b : β}
    (hx : Accepts A Γ ([] :: ρ) S x a Θ ρ₁) (hdeclaring : Declaring x)
    (hf : ∀ scope : Scope, scope.view Binding.referent = ρ₁.headD [] →
      (∀ binding ∈ scope.map (·.2), Θ.meaningOf binding.referent = some binding.meaning) →
      Accepts A Γ ρ S' (f a scope) b Γ₂ ρ₂) :
    Accepts A Γ ρ (S ++ S') (do openScope; let a ← x; let scope ← closeScope; f a scope) b
      Γ₂ ρ₂ := by
  intro hspots s hs
  rw [List.forall_mem_append] at hspots
  have hopened : CheckState.Fits Γ ([] :: ρ) { s with scopes := s.scopes.opened } :=
    ⟨by rw [← hs.referents]; rfl, hs.covers.opened⟩
  obtain ⟨t, hrun, ht, hfiles⟩ := hx hspots.1 _ hopened
  have hscope : t.scopes.innermost.view Binding.referent = ρ₁.headD [] := by
    rw [← Scopes.headD_referents]
    exact congrArg (·.headD []) ht.referents
  have hpass := (hdeclaring _ _ _ hrun).closed
  have hclosed : CheckState.Fits Γ ρ { t with scopes := t.scopes.closed } := by
    refine ⟨?_, ?_⟩
    · rw [← hs.referents, CheckState.referents, hpass.scopes]
      rfl
    · rw [hpass.scopes]
      exact hs.covers
  obtain ⟨u, hrun', hu, hfiles'⟩ := hf t.scopes.innermost hscope
    (fun binding hb => ht.covers binding (Scopes.mem_bindings_of_mem_innermost hb))
    hspots.2 _ hclosed
  refine ⟨u, ?_, hu, ?_⟩
  · simp only [openScope, closeScope, yields_bind, yields_modify, yields_modifyGet]
    exact ⟨(), _, rfl, a, t, hrun, _, _, ⟨rfl, rfl⟩, hrun'⟩
  · exact CheckState.Files.trans (t := { t with scopes := t.scopes.closed })
      ⟨hfiles.log, hfiles.types, hfiles.kept, hfiles.filed⟩ hfiles'

/-- A block: declarations in a scope of their own, and something that sees them. -/
theorem Accepts.block {d : Check Unit} {x : Check α} {f : α → Check β} {a : α} {b : β}
    {S'' : List Spot} (hd : Accepts A Γ ([] :: ρ) S d () Θ ρ₁) (hdeclaring : Declaring d)
    (hx : Accepts A Θ ρ₁ S' x a Θ ρ₁) (hpassing : Passing x)
    (hf : Accepts A Γ ρ S'' (f a) b Γ₂ ρ₂) :
    Accepts A Γ ρ (S ++ S' ++ S'')
      (do openScope; d; let a ← x; let _ ← closeScope; f a) b Γ₂ ρ₂ := by
  have h := (hd.bind hx).scoped (hdeclaring.bind fun _ => hpassing.declaring)
    (f := fun a _ => f a) fun _ _ _ => hf
  simpa only [bind_assoc] using h

/-- What is done inside a scope that was put back. -/
theorem Accepts.inside {scope : Scope} {x : Check Unit} (hle : Γ.Le Θ)
    (hscope : ∀ binding ∈ scope.map (·.2), Θ.meaningOf binding.referent = some binding.meaning)
    (hx : Accepts A Θ (scope.view Binding.referent :: ρ) S x () Θ
      (scope.view Binding.referent :: ρ)) (hpassing : Passing x) :
    Accepts A Γ ρ S (do restoreScope scope; x; let _ ← closeScope) () Γ ρ := by
  intro hspots s hs
  have hrestored : CheckState.Fits Θ (scope.view Binding.referent :: ρ)
      { s with scopes := s.scopes.restored scope } := by
    refine ⟨by rw [← hs.referents]; rfl, fun binding hb => ?_⟩
    rcases Scopes.mem_bindings_restored.1 hb with hb | hb
    · exact hscope binding hb
    · exact hle.meaningOf (hs.covers binding hb)
  obtain ⟨t, hrun, -, hlog, htypes, hkept, hfiled⟩ := hx hspots _ hrestored
  have hclosed : t.scopes.closed = s.scopes := by
    rw [(hpassing _ _ _ hrun).scopes]
    rfl
  refine ⟨{ t with scopes := t.scopes.closed }, ?_, ⟨?_, ?_⟩, hlog, htypes, hkept, hfiled⟩
  · simp only [restoreScope, closeScope, yields_bind, yields_modify, yields_modifyGet, yields_pure]
    exact ⟨(), _, rfl, (), t, hrun, _, _, ⟨rfl, rfl⟩, trivial, rfl⟩
  · rw [CheckState.referents, hclosed]
    exact hs.referents
  · rw [hclosed]
    exact hs.covers

end

/-! ## Types and parameters -/

section

variable {A : Annotations} {level : Nat}

mutual

theorem TypeDenoter.Denotes.accepts {ρ : Referents} : {of : TypeDenoter} → ∀ {Γ τ},
    of.Denotes A Γ τ → Accepts A Γ ρ (Spot.all level ρ of.sites) of.check τ Γ ρ
  | .any _ | .error _ => fun h => h.elim
  | .bool _ | .char _ | .int _ => by
    rintro ⟨hτ, rfl⟩
    exact accepts_phrase hτ
  | .array _ _ _ => by
    rintro ⟨hτ, length, σ, hlength, hpositive, helement, rfl⟩
    rw [TypeDenoter.check, hlength, TypeDenoter.sites, Spot.all_append]
    refine (TypeDenoter.Denotes.accepts helement).bind ?_
    show Accepts A _ ρ _ (if 0 < length then _ else _) _ _ ρ
    rw [if_pos hpositive]
    exact accepts_phrase hτ
  | .record _ _ => by
    rintro ⟨hτ, fs, hfields, rfl⟩
    rw [TypeDenoter.check, TypeDenoter.sites, Spot.all_append]
    exact (FieldDenoters.Denotes.accepts hfields).bind (accepts_phrase hτ)
  | .simple _ _ => by
    intro h
    exact (accepts_resolve h.2).bind (accepts_phrase h.1)

theorem FieldDenoters.Denotes.accepts {ρ : Referents} : {fields : FieldDenoters} → ∀ {Γ fs},
    fields.Denotes A Γ fs → Accepts A Γ ρ (Spot.all level ρ fields.sites) fields.check fs Γ ρ
  | .single _ _ _ => by
    rintro ⟨τ, hτ, rfl⟩
    exact (TypeDenoter.Denotes.accepts hτ).after (accepts_prependField rfl)
  | .multiple _ _ _ _ => by
    rintro ⟨τ, others, hτ, hothers, hdeclares, rfl⟩
    rw [FieldDenoters.check, FieldDenoters.sites, Spot.all_append]
    exact (TypeDenoter.Denotes.accepts hτ).bind
      ((FieldDenoters.Denotes.accepts hothers).after (accepts_prependField hdeclares))

end

/-- Files the type of a declaration. -/
theorem accepts_binder (h : A.typeOf? id = some τ) : Accepts A Γ ρ [] (typed id τ) τ Γ ρ :=
  accepts_typed h fun _ hp => nomatch hp

mutual

theorem Parameter.Typed.accepts {ρ : Referents} : {parameter : Parameter} → ∀ {Γ Δ formal},
    parameter.Typed A Γ formal Δ → Accepts A Γ ρ (parameter.spots level ρ) parameter.check formal Δ
    (parameter.inScope ρ)
  | .const _ _ _ | .var _ _ _ => by
    rintro ⟨τ, hτ, htype, rfl, hfresh, rfl⟩
    exact hτ.accepts.bind ((accepts_binder htype).bind ((accepts_declare hfresh).after (.pure _)))
  | .func _ _ parameters _ => by
    rintro ⟨formals, Θ, τ, hparameters, hτ, htype, rfl, hfresh, rfl⟩
    rw [Parameter.check, Parameter.spots, List.append_assoc]
    exact hparameters.accepts.scoped parameters.declaring_check fun _ _ _ =>
      hτ.accepts.bind ((accepts_binder htype).bind ((accepts_declare hfresh).after (.pure _)))
  | .proc _ _ parameters => by
    rintro ⟨formals, Θ, hparameters, rfl, hfresh, rfl⟩
    exact hparameters.accepts.scoped parameters.declaring_check fun _ _ _ =>
      (accepts_declare hfresh).after (.pure _)

theorem Parameters.Typed.accepts {ρ : Referents} : {parameters : Parameters} → ∀ {Γ Δ formals},
    parameters.Typed A Γ formals Δ → Accepts A Γ ρ (parameters.spots level ρ) parameters.check
    formals Δ (parameters.inScope ρ)
  | .empty _ => by
    rintro ⟨rfl, rfl⟩
    exact .pure _
  | .single _ _ => by
    rintro ⟨formal, hparameter, rfl⟩
    exact hparameter.accepts.after (.pure _)
  | .multiple _ _ _ => by
    rintro ⟨formal, others, Θ, hfirst, hrest, rfl⟩
    exact hfirst.accepts.bind (hrest.accepts.after (.pure _))

end

/-- A routine: its parameters in a scope of their own, its name, and its body inside both. -/
theorem accepts_routine {typed : Bool} {parameters : Parameters} (meaning : Formals → Meaning)
    {body : Check Unit} {S : List Spot} (hid : Γ id = none)
    (hparameters : parameters.Typed A (Γ.bind id (meaning formals)) formals Θ)
    (hpassing : Passing body)
    (hbody : Accepts A Θ (ρ.routine name.spelling id parameters) S body () Θ
      (ρ.routine name.spelling id parameters)) :
    Accepts A Γ ρ (parameters.spots (level + 1) ([] :: ρ) ++ S ++
        Spot.all level ρ [.binder id name.spelling typed])
      (routine name id parameters meaning body) () (Γ.bind id (meaning formals))
      (ρ.declare name.spelling id) := by
  rw [Referents.routine] at hbody
  refine Accepts.of_mem (S := parameters.spots (level + 1) ([] :: ρ) ++
      (Spot.all level ρ [.binder id name.spelling typed] ++ S))
    ((hparameters.accepts.weaken (Context.le_bind (meaning formals) hid)).scoped
      parameters.declaring_check fun scope hscope hcovered => ?_) fun p => ?_
  · rw [← hscope] at hbody
    exact (accepts_declare hid).bind (Accepts.inside hparameters.le hcovered hbody hpassing)
  · simp only [List.mem_append]
    tauto

/-! ## Commands, expressions and declarations

Checker and rules go through a phrase in the same order, so each case is a run along the premises of
one rule. -/

mutual

theorem Command.Typed.accepts {level : Nat} {ρ : Referents} : {c : Command} → ∀ {Γ}, c.Typed A Γ →
    Γ.Proper → Accepts A Γ ρ (c.spots level ρ) c.check () Γ ρ
  | .assign _ _ _ => by
    rintro ⟨τ, htarget, hvalue⟩ hΓ
    exact (htarget.accepts hΓ).bind ((accepts_requireVariable _ _ _).bind
      ((hvalue.accepts hΓ).after (accepts_require (hvalue.proper hΓ) _)))
  | .doubleAssign _ first second firstValue secondValue => by
    rintro ⟨τ, σ, hfirst, hfirstValue, hsecond, hsecondValue⟩ hΓ
    rw [Command.check, Command.spots]
    refine Accepts.of_mem (S := first.spots level ρ ++ (firstValue.spots level ρ ++
        (second.spots level ρ ++ secondValue.spots level ρ)))
      ((hfirst.accepts hΓ).bind ((accepts_requireVariable _ _ _).bind
      ((hfirstValue.accepts hΓ).bind
      ((accepts_require (hfirstValue.proper hΓ) _).bind
      ((hsecond.accepts hΓ).bind ((accepts_requireVariable _ _ _).bind
      ((hsecondValue.accepts hΓ).after
      (accepts_require (hsecondValue.proper hΓ) _)))))))) fun p => ?_
    simp only [List.mem_append]
    tauto
  | .call _ _ _ => by
    rintro ⟨formals, hmeans, harguments⟩ hΓ
    exact (accepts_procedure hmeans).bind (harguments.accepts hΓ)
  | .empty _ => fun _ _ => .pure _
  | .ifElse _ _ _ _ => by
    intro h hΓ
    rw [Command.check, Command.spots, List.append_assoc]
    exact (h.1.accepts hΓ).bind ((accepts_require (h.1.proper hΓ) _).bind
      ((h.2.1.accepts hΓ).bind (h.2.2.accepts hΓ)))
  | .letIn _ declaration body => by
    rintro ⟨Δ, hdeclaration, hbody⟩ hΓ
    rw [Command.check, Command.spots, ← List.append_nil (_ ++ _)]
    exact (hdeclaration.accepts hΓ).block declaration.declaring_check
      (hbody.accepts (hdeclaration.proper hΓ)) body.passing_check (.pure _)
  | .sequential _ _ _ => by
    intro h hΓ
    exact (h.1.accepts hΓ).bind (h.2.accepts hΓ)
  | .whileDo _ _ _ => by
    intro h hΓ
    exact (h.1.accepts hΓ).bind ((accepts_require (h.1.proper hΓ) _).bind (h.2.accepts hΓ))
  | .loopWhile _ _ _ _ => by
    intro h hΓ
    rw [Command.check, Command.spots, List.append_assoc]
    exact (h.1.accepts hΓ).bind ((h.2.1.accepts hΓ).bind
      ((accepts_require (h.2.1.proper hΓ) _).bind (h.2.2.accepts hΓ)))

theorem Expression.Typed.accepts {level : Nat} {ρ : Referents} : {e : Expression} → {Γ : Context} →
    {τ : Ty} → e.Typed A Γ τ → Γ.Proper → Accepts A Γ ρ (e.spots level ρ) e.check τ Γ ρ
  | .array _ _, _, _, h, hΓ => by
    obtain ⟨hτ, σ, length, helements, rfl⟩ := h
    exact (helements.accepts hΓ).bind (accepts_phrase hτ)
  | .binary m left operator right, Γ, _, h, hΓ => by
    obtain ⟨hτ, σ, σ', s, hleft, hright, hreferent, hoperates⟩ := h
    have hproper := hleft.proper hΓ
    have hmeans : ∀ {meaning}, s.meaning = meaning → A.Means Γ operator meaning :=
      fun heq => ⟨.standard s, hreferent, congrArg some heq⟩
    rw [Expression.check, Expression.spots]
    refine Accepts.of_mem (S := left.spots level ρ ++ (right.spots level ρ ++
      (Spot.all level ρ [.use operator] ++ Spot.all level ρ [.phrase m.id])))
      ((hleft.accepts hΓ).bind ((hright.accepts hΓ).bind ?_)) fun p => ?_
    -- an operator has proper operand types, or compares two values of any one type
    · rcases hoperates with hmeaning | ⟨hmeaning, rfl⟩
      · refine (accepts_resolve (hmeans hmeaning)).bind ?_
        have hne : (σ == Ty.any) = false := by
          cases σ with
          | any => exact hproper.elim
          | _ => rfl
        simp only [hne, Bool.false_eq_true, if_false]
        exact (accepts_require hproper _).bind ((accepts_require (hright.proper hΓ) _).bind
          (accepts_phrase hτ))
      · refine (accepts_resolve (hmeans hmeaning)).bind ?_
        have hself : σ.equivalent σ = true := (Ty.equivalent_iff hproper.plain hproper.plain).2 rfl
        simp only [beq_self_eq_true, if_true, hself]
        exact accepts_phrase hτ
    · simp only [List.mem_append]
      tauto
  | .call _ _ _, _, _, h, hΓ => by
    obtain ⟨hτ, formals, hmeans, harguments⟩ := h
    rw [Expression.check, Expression.spots, List.append_assoc]
    exact (accepts_function hmeans).bind ((harguments.accepts hΓ).bind (accepts_phrase hτ))
  | .character _ _, _, _, h, _ | .integer _ _, _, _, h, _ => by
    obtain ⟨hτ, rfl⟩ := h
    exact accepts_phrase hτ
  | .ifElse _ _ _ _, _, _, h, hΓ => by
    obtain ⟨hτ, hcondition, hfirst, hsecond⟩ := h
    have hplain := (hfirst.proper hΓ).plain
    rw [Expression.check, Expression.spots, List.append_assoc, List.append_assoc]
    refine (hcondition.accepts hΓ).bind ((accepts_require (hcondition.proper hΓ) _).bind
      ((hfirst.accepts hΓ).bind ((hsecond.accepts hΓ).bind ?_)))
    simp only [(Ty.equivalent_iff hplain hplain).2 rfl, if_true]
    exact accepts_phrase hτ
  | .letIn _ declaration body, _, _, h, hΓ => by
    obtain ⟨hτ, Δ, hdeclaration, hbody⟩ := h
    exact (hdeclaration.accepts hΓ).block declaration.declaring_check (hbody.accepts
      (hdeclaration.proper hΓ)) body.passing_check (accepts_phrase hτ)
  | .record _ _, _, _, h, hΓ => by
    obtain ⟨hτ, fs, hfields, rfl⟩ := h
    exact (hfields.accepts hΓ).bind (accepts_phrase hτ)
  | .unary m operator operand, _, _, h, hΓ => by
    obtain ⟨hτ, σ, s, hoperand, hreferent, hmeaning⟩ := h
    rw [Expression.check, Expression.spots]
    refine Accepts.of_mem (S := operand.spots level ρ ++ (Spot.all level ρ [.use operator] ++
      Spot.all level ρ [.phrase m.id])) ((hoperand.accepts hΓ).bind
      ((accepts_resolve ⟨.standard s, hreferent, congrArg some hmeaning⟩).bind
      ((accepts_require (hoperand.proper hΓ) _).bind (accepts_phrase hτ)))) fun p => ?_
    simp only [List.mem_append]
    tauto
  | .vname _ _, _, _, h, hΓ => by
    obtain ⟨hτ, assignable, hvname⟩ := h
    exact (hvname.accepts hΓ).bind (accepts_phrase hτ)

theorem Declaration.Typed.accepts {level : Nat} {ρ : Referents} : {d : Declaration} → ∀ {Γ Δ},
    d.Typed A Γ Δ → Γ.Proper → Accepts A Γ ρ (d.spots level ρ) d.check () Δ (d.inScope ρ)
  | .binaryOperator _ _ _ _ _ | .unaryOperator _ _ _ _ => fun h => h.elim
  | .const _ _ _ => by
    rintro ⟨τ, hvalue, htype, hfresh, rfl⟩ hΓ
    exact (hvalue.accepts hΓ).bind ((accepts_binder htype).bind (accepts_declare hfresh))
  | .func m name parameters result body => by
    intro h hΓ
    have hΔ := Declaration.Typed.proper h hΓ
    obtain ⟨τ, formals, Θ, hτ, htype, hfresh, rfl, hparameters, hbody⟩ := h
    have hΘ := hparameters.proper hΔ
    rw [Declaration.check, Declaration.spots]
    refine Accepts.of_mem (S := Spot.all level ρ result.sites ++
      (parameters.spots (level + 1) ([] :: ρ) ++
        body.spots (level + 1) (ρ.routine name.spelling m.id parameters) ++
        Spot.all level ρ [.binder m.id name.spelling true])) (hτ.accepts.bind
      ((accepts_binder htype).bind (accepts_routine (.func · τ) hfresh hparameters
      (body.passing_check.bind fun _ => passing_require _ _ _)
      ((hbody.accepts hΘ).after
      (accepts_require (hbody.proper hΘ) _))))) fun p => ?_
    simp only [List.mem_append]
    tauto
  | .proc _ _ parameters body => by
    intro h hΓ
    have hΔ := Declaration.Typed.proper h hΓ
    obtain ⟨formals, Θ, hfresh, rfl, hparameters, hbody⟩ := h
    exact accepts_routine .proc hfresh hparameters body.passing_check
      (hbody.accepts (hparameters.proper hΔ))
  | .sequential _ _ _ => by
    rintro ⟨Θ, hfirst, hsecond⟩ hΓ
    exact (hfirst.accepts hΓ).bind (hsecond.accepts (hfirst.proper hΓ))
  | .type _ _ _ | .var _ _ _ => by
    rintro ⟨τ, hτ, htype, hfresh, rfl⟩ _
    exact hτ.accepts.bind ((accepts_binder htype).bind (accepts_declare hfresh))

theorem Vname.Typed.accepts {level : Nat} {ρ : Referents} : {v : Vname} → {Γ : Context} → {τ : Ty} →
    {assignable : Bool} → v.Typed A Γ τ assignable → Γ.Proper →
    Accepts A Γ ρ (v.spots level ρ) v.check (τ, assignable) Γ ρ
  | .dot _ _ _, _, _, _, h, hΓ => by
    obtain ⟨hτ, fs, offset, hrecord, hfield⟩ := h
    refine (hrecord.accepts hΓ).bind ?_
    simp only [hfield]
    exact accepts_named hτ _
  | .simple _ _, _, _, assignable, h, _ => by
    refine (accepts_resolve h.2).bind ?_
    cases assignable with
    | true => exact accepts_named h.1 true
    | false => exact accepts_named h.1 false
  | .subscript _ _ _, _, _, _, h, hΓ => by
    obtain ⟨hτ, length, harray, hindex⟩ := h
    rw [Vname.check, Vname.spots, List.append_assoc]
    exact (harray.accepts hΓ).bind ((hindex.accepts hΓ).bind
      ((accepts_require (hindex.proper hΓ) _).bind (accepts_named hτ _)))

theorem Argument.Typed.accepts {level : Nat} {ρ : Referents} : {a : Argument} → ∀ {Γ formal},
    a.Typed A Γ formal → Γ.Proper → Accepts A Γ ρ (a.spots level ρ) (a.check formal) () Γ ρ
  | .const _ _ => by
    rintro ⟨τ, hvalue, rfl⟩ hΓ
    exact (hvalue.accepts hΓ).after (accepts_require (hvalue.proper hΓ) _)
  | .func _ _ => by
    rintro ⟨formals, τ, hmeans, rfl⟩ hΓ
    have hproper : (Formal.func formals τ).Proper := by
      simpa [Meaning.Proper, Formal.Proper] using hmeans.proper hΓ
    refine (accepts_function hmeans).after ?_
    simp only [(Formal.matches_iff hproper.plain hproper.plain).2 rfl, if_true]
    exact .pure _
  | .proc _ _ => by
    rintro ⟨formals, hmeans, rfl⟩ hΓ
    have hproper : formals.Proper := by simpa [Meaning.Proper] using hmeans.proper hΓ
    refine (accepts_procedure hmeans).after ?_
    simp only [(Formals.matches_iff hproper.plain hproper.plain).2 rfl, if_true]
    exact .pure _
  | .var _ _ => by
    rintro ⟨τ, hvname, rfl⟩ hΓ
    exact (hvname.accepts hΓ).after ((accepts_requireVariable _ _ _).bind
      (accepts_require (hvname.proper hΓ) _))

theorem Arguments.Typed.accepts {level : Nat} {ρ : Referents} : {a : Arguments} → ∀ {Γ formals},
    a.Typed A Γ formals → Γ.Proper → Accepts A Γ ρ (a.spots level ρ) (a.check formals) () Γ ρ
  | .empty _ => by
    intro rfl _
    exact .pure _
  | .single _ _ => by
    rintro ⟨formal, hargument, rfl⟩ hΓ
    exact hargument.accepts hΓ
  | .multiple _ _ _ => by
    rintro ⟨formal, others, hfirst, hrest, rfl⟩ hΓ
    exact (hfirst.accepts hΓ).bind (hrest.accepts hΓ)

theorem ArrayAggregate.Typed.accepts {level : Nat} {ρ : Referents} : {a : ArrayAggregate} → ∀ {Γ τ
    length}, a.Typed A Γ τ length → Γ.Proper → Accepts A Γ ρ (a.spots level ρ) a.check (τ, length) Γ
    ρ
  | .single _ _ => by
    rintro ⟨helement, rfl⟩ hΓ
    exact (helement.accepts hΓ).after (.pure _)
  | .multiple _ _ _ => by
    rintro ⟨others, hfirst, hrest, rfl⟩ hΓ
    exact (hfirst.accepts hΓ).bind ((hrest.accepts hΓ).after
      ((accepts_require (hfirst.proper hΓ) _).bind (.pure _)))

theorem RecordAggregate.Typed.accepts {level : Nat} {ρ : Referents} : {r : RecordAggregate} → ∀ {Γ
    fs}, r.Typed A Γ fs → Γ.Proper → Accepts A Γ ρ (r.spots level ρ) r.check fs Γ ρ
  | .single _ _ _ => by
    rintro ⟨τ, hvalue, rfl⟩ hΓ
    exact (hvalue.accepts hΓ).after (accepts_prependField rfl)
  | .multiple _ _ _ _ => by
    rintro ⟨τ, others, hvalue, hrest, hdeclares, rfl⟩ hΓ
    exact (hvalue.accepts hΓ).bind ((hrest.accepts hΓ).after (accepts_prependField hdeclares))

end

/-- **A well-typed tree is accepted.**  Checking it leaves the log as it was, and finds the types
that the annotations have for its phrases. -/
theorem Program.check_of_typed (htyped : program.command.Typed A .empty)
    (hspots : ∀ p ∈ program.spots, p.Resolved A) (log : Log Problem) :
    ∃ A', program.check log = .ok (A', log) ∧ ∀ id, .phrase id ∈ program.command.sites →
      ∃ τ, A'.typeOf? id = some τ ∧ A.typeOf? id = some τ := by
  have hinitial : CheckState.Fits .empty .standard ⟨.initial, .empty, log⟩ :=
    ⟨Scopes.referents_initial, Context.Covers.initial⟩
  obtain ⟨s, hrun, -, hfiles⟩ := htyped.accepts (fun _ _ h => nomatch h) hspots _ hinitial
  refine ⟨s.annotations, bind_eq_ok_iff.2 ⟨_, hrun, ?_⟩, fun id hid => ?_⟩
  · exact congrArg (fun log => Except.ok (s.annotations, log)) hfiles.log
  · rw [← program.map_site_spots] at hid
    obtain ⟨p, hp, hsite⟩ := List.mem_map.1 hid
    obtain ⟨τ, hτ⟩ := Option.isSome_iff_exists.1 (hfiles.filed p hp id hsite)
    refine ⟨τ, hτ, (hfiles.types id τ hτ).resolve_left fun hnew => ?_⟩
    simp [Annotations.typeOf?, Annotations.empty] at hnew

end

/-- After checking without a complaint, names refer to what is filed for them, and no scope has a
name twice. -/
theorem Program.resolved_of_check {A : Annotations} {log log' : Log Problem}
    (h : program.check log = .ok (A, log')) (hids : program.ids.Nodup) (hclean : log'.errors = 0)
    {p : Spot} (hp : p ∈ program.spots) : p.Resolved A := by
  have hsettled := Program.settled_of_check h hclean p hp
  obtain ⟨site, level, ρ⟩ := p
  cases site with
  | phrase id => trivial
  | binder id name typed => exact hsettled
  | use name =>
    obtain ⟨referent, hreferent⟩ := Option.isSome_iff_exists.1 hsettled
    exact hreferent.trans (Program.find?_of_check h hids hp rfl hreferent).symm

end Triangle
