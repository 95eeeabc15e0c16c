import Triangle.Proofs.Syntax.Misspelling
import Triangle.Proofs.Typing.Accepted
import Triangle.Proofs.Typing.Fading

/-!
# One misspelt name is reported once

A well-typed program in which one use of a name is misspelt is checked with one complaint, that the
name is not declared.  What the checker finds out after that has faded: it is what it would have
found, but for erroneous types.  `Recovers` says this of a step of checking; it is carried through
every phrase along the typing rules, where the faded types pass all tests that the types of the
rules pass.
-/

namespace Triangle

open Check

variable {ty τ : Ty} {assignable : Bool} {fault : ContextFault}

/-- The log after complaints that names are not declared. -/
def Log.missing (log : Log Problem) (x : String) (missed : List Terminal) : Log Problem :=
  missed.foldl (fun log name => log.report name.mark.span (.contextual (.undeclared x))) log

/-- Only fields that can be located may be selected. -/
def Selectable.Exact (F : Selectable) : Prop :=
  ∀ fields name, F fields name → Fields.Located fields name

variable {span : Span} {name : Terminal} {m : Meaning} {id : NodeId} {formals : Formals}

section

variable {α β : Type} {F : Selectable} {x : String}

/-- From names that have faded and lack a name, a step has a run, unless it selects a field that
cannot be located.  It complains about the given uses of the missing name and nothing else, and the
names after it have faded too. -/
def Recovers (F : Selectable) (x : String) (y : Check α) (Γ Δ : Names) (missed : List Terminal)
    (Q : α → Prop) : Prop :=
  ∀ s : CheckState, Γ.Fade s.names → s.names.Lacks x →
    (∃ a s', Yields y s a s' ∧ Q a ∧ Δ.Fade s'.names ∧ s'.names.Lacks x ∧
      s'.log = s.log.missing x missed) ∨ (¬ F.Exact ∧ ∀ a s', ¬ Yields y s a s')

namespace Recovers

variable {y : Check α} {Γ Θ Δ : Names} {missed more : List Terminal} {Q : α → Prop} {P : β → Prop}

theorem bind {f : α → Check β} (hy : Recovers F x y Γ Θ missed Q)
    (hf : ∀ a, Q a → Recovers F x (f a) Θ Δ more P) :
    Recovers F x (y >>= f) Γ Δ (missed ++ more) P := by
  intro s hΓ hx
  obtain ⟨a, t, h₁, ha, hΘ, hx, hlog⟩ | ⟨hF, hno⟩ := hy s hΓ hx
  · obtain ⟨b, s', h₂, hb, hΔ, hx, hlog'⟩ | ⟨hF, hno⟩ := hf a ha t hΘ hx
    · exact .inl ⟨b, s', yields_bind.2 ⟨a, t, h₁, h₂⟩, hb, hΔ, hx, by
        rw [hlog', hlog, Log.missing, Log.missing, Log.missing, List.foldl_append]⟩
    · refine .inr ⟨hF, fun b s' h => ?_⟩
      obtain ⟨_, _, h, h₂⟩ := yields_bind.1 h
      obtain ⟨rfl, rfl⟩ := h₁.unique h
      exact hno b s' h₂
  · refine .inr ⟨hF, fun b s' h => ?_⟩
    obtain ⟨a, t, h₁, -⟩ := yields_bind.1 h
    exact hno a t h₁

/-- A step without a complaint before another. -/
theorem before {f : α → Check β} (hy : Recovers F x y Γ Θ [] Q)
    (hf : ∀ a, Q a → Recovers F x (f a) Θ Δ more P) : Recovers F x (y >>= f) Γ Δ more P :=
  hy.bind hf

/-- A step without a complaint after another. -/
theorem after {f : α → Check β} (hy : Recovers F x y Γ Θ missed Q)
    (hf : ∀ a, Q a → Recovers F x (f a) Θ Δ [] P) : Recovers F x (y >>= f) Γ Δ missed P := by
  have h := hy.bind hf
  rwa [List.append_nil] at h

end Recovers

/-! ## The steps of checking -/

namespace Check

variable {Γ Θ Δ : Names} {missed more : List Terminal} {Q : α → Prop} {P : β → Prop}

theorem recovers_pure {a : α} (h : Q a) : Recovers F x (pure a) Γ Γ [] Q :=
  fun s hΓ hx => .inl ⟨a, s, yields_pure.2 ⟨rfl, rfl⟩, h, hΓ, hx, rfl⟩

theorem recovers_modify {f : CheckState → CheckState}
    (h : ∀ s, (f s).scopes = s.scopes ∧ (f s).log = s.log) :
    Recovers F x (modify f : Check Unit) Γ Γ [] fun _ => True := by
  intro s hΓ hx
  have hnames : (f s).names = s.names := congrArg Scopes.names (h s).1
  exact .inl ⟨(), f s, yields_modify.2 rfl, trivial, hnames ▸ hΓ, hnames ▸ hx, (h s).2⟩

theorem recovers_typed (id : NodeId) {Q : Ty → Prop} (h : Q ty) :
    Recovers F x (typed id ty) Γ Γ [] Q := by
  refine (recovers_modify fun s => ?_).before fun _ _ => recovers_pure h
  exact ⟨rfl, rfl⟩

theorem recovers_named (id : NodeId) {Q : Ty × Bool → Prop} (h : Q (ty, assignable)) :
    Recovers F x (named id ty assignable) Γ Γ [] Q := by
  refine (recovers_typed id (Q := fun found => found = ty) rfl).before fun _ hty => ?_
  subst hty
  cases assignable with
  | true =>
    refine (recovers_modify fun s => ?_).before fun _ _ => recovers_pure h
    exact ⟨rfl, rfl⟩
  | false => exact recovers_pure h

/-- Something that is counted without a state. -/
theorem recovers_lift {y : Checked α} (hok : ∀ a, y = .ok a → Q a)
    (hexact : F.Exact → ∃ a, y = .ok a) : Recovers F x (liftM y : Check α) Γ Γ [] Q := by
  intro s hΓ hx
  by_cases h : ∃ a, y = .ok a
  · obtain ⟨a, ha⟩ := h
    exact .inl ⟨a, s, yields_lift.2 ⟨ha, rfl⟩, hok a ha, hΓ, hx, rfl⟩
  · exact .inr ⟨fun hF => h (hexact hF), fun a s' hrun => h ⟨a, (yields_lift.1 hrun).1⟩⟩

/-- A test that is passed. -/
theorem recovers_test {test : Bool} (h : test = true) :
    Recovers F x (if test then pure () else report span fault) Γ Γ [] fun _ => True := by
  rw [if_pos h]
  exact recovers_pure trivial

theorem recovers_require {expected found : Ty} (h : found.equivalent expected = true) :
    Recovers F x (require expected found span) Γ Γ [] fun _ => True :=
  recovers_test h

theorem recovers_requireVariable (h : assignable = true ∨ ty = .error) :
    Recovers F x (requireVariable ty assignable span fault) Γ Γ [] fun _ => True := by
  refine recovers_test ?_
  obtain rfl | rfl := h
  · rfl
  · exact Bool.or_true _

theorem recovers_prependField {of : Ty} {rest : Fields} {Q : Fields → Prop}
    (hname : rest.declares name.spelling = false) (h : Q (.cons name.spelling of rest)) :
    Recovers F x (prependField name of rest) Γ Γ [] Q := by
  rw [prependField, hname]
  exact recovers_pure h

theorem recovers_declare (declaration : NodeId) {n : Meaning} (hfresh : Γ.Fresh name.spelling)
    (hne : name.spelling ≠ x) (hm : m.Fades n) :
    Recovers F x (declare name declaration n) Γ (Γ.bind name.spelling m) [] fun _ => True := by
  intro s hΓ hx
  obtain ⟨scopes, henter⟩ := (@Scopes.fresh_names_iff s.scopes name.spelling
    ⟨.node declaration, n⟩).1 (hΓ.fresh hfresh)
  have hnames : CheckState.names { s with scopes } = s.names.bind name.spelling n := by
    rw [CheckState.names, Scopes.eq_extended_of_enter? henter, Scopes.names_extended]
    rfl
  refine .inl ⟨(), { s with scopes }, ?_, trivial, ?_, ?_, rfl⟩
  · simp only [declare, yields_bind, yields_get]
    refine ⟨s, s, ⟨rfl, rfl⟩, ?_⟩
    rw [henter]
    exact yields_modify.2 rfl
  · rw [hnames]
    exact hΓ.bind name.spelling hm
  · rw [hnames]
    exact hx.bind hne

/-- A name that has a meaning is looked up; if it is misspelt, it is complained about, and what
follows has no meaning to go by. -/
theorem recovers_resolve_bind {k : Option Meaning → Check β}
    (hname : Γ.meaning? name.spelling = some m) (hone : (hits id [name] ++ more).length ≤ 1)
    (hsome : ∀ n, m.Fades n → Recovers F x (k (some n)) Γ Γ more P)
    (hnone : Recovers F x (k none) Γ Γ [] P) :
    Recovers F x (resolve (name.misspelt id x) >>= k) Γ Γ (hits id [name] ++ more) P := by
  by_cases hid : name.mark.id = id
  · have hhits : hits id [name] = [name] := by simp [hits, hid]
    rw [hhits] at hone ⊢
    obtain rfl : more = [] := by simpa using hone
    rw [Terminal.misspelt, if_pos hid]
    refine Recovers.after (Q := fun found => found = none) ?_ fun found hfound => hfound ▸ hnone
    intro s hΓ hx
    have hfind : s.scopes.find? x = none := by
      have hmeaning := hx.meaning?
      rw [CheckState.names, Scopes.meaning?_names] at hmeaning
      exact Option.map_eq_none_iff.1 hmeaning
    exact .inl ⟨none, _, @yields_resolve_none ⟨name.mark, x⟩ s hfind, rfl, hΓ, hx, rfl⟩
  · have hhits : hits id [name] = [] := by simp [hits, hid]
    rw [hhits, Terminal.misspelt, if_neg hid]
    refine Recovers.before (Θ := Γ) (Q := fun found => ∃ n, found = some n ∧ m.Fades n) ?_ ?_
    · intro s hΓ hx
      obtain ⟨n, hn, hm⟩ := hΓ.meaning? hname
      rw [CheckState.names, Scopes.meaning?_names] at hn
      obtain ⟨binding, hfind, rfl⟩ := Option.map_eq_some_iff.1 hn
      exact .inl ⟨_, _, yields_resolve_some hfind, ⟨_, rfl, hm⟩, hΓ, hx, rfl⟩
    · rintro _ ⟨n, rfl, hm⟩
      exact hsome n hm

/-- A name that is looked up last: after it nothing can be missed. -/
theorem recovers_resolve_last {k : Option Meaning → Check β}
    (hname : Γ.meaning? name.spelling = some m)
    (hsome : ∀ n, m.Fades n → Recovers F x (k (some n)) Γ Γ [] P)
    (hnone : Recovers F x (k none) Γ Γ [] P) :
    Recovers F x (resolve (name.misspelt id x) >>= k) Γ Γ (hits id [name]) P := by
  have hone : (hits id [name] ++ []).length ≤ 1 := by
    rw [List.append_nil]
    exact List.length_filter_le _ _
  rw [← List.append_nil (hits id [name])]
  exact recovers_resolve_bind hname hone hsome hnone

theorem recovers_procedure_bind {k : Option Formals → Check β}
    (hname : Γ.meaning? name.spelling = some (.proc formals))
    (hone : (hits id [name] ++ more).length ≤ 1)
    (hsome : ∀ g, formals.Fade g → Recovers F x (k (some g)) Γ Γ more P)
    (hnone : Recovers F x (k none) Γ Γ [] P) :
    Recovers F x (procedure (name.misspelt id x) >>= k) Γ Γ (hits id [name] ++ more) P := by
  rw [procedure, bind_assoc]
  refine recovers_resolve_bind hname hone (fun n hn => ?_) ?_
  · cases hn with
    | proc hformals =>
      rw [pure_bind]
      exact hsome _ hformals
  · rw [pure_bind]
    exact hnone

theorem recovers_function_bind {k : Option (Formals × Ty) → Check β}
    (hname : Γ.meaning? name.spelling = some (.func formals τ))
    (hone : (hits id [name] ++ more).length ≤ 1)
    (hsome : ∀ g τ', formals.Fade g → τ.Fades τ' → Recovers F x (k (some (g, τ'))) Γ Γ more P)
    (hnone : Recovers F x (k none) Γ Γ [] P) :
    Recovers F x (function (name.misspelt id x) >>= k) Γ Γ (hits id [name] ++ more) P := by
  rw [function, bind_assoc]
  refine recovers_resolve_bind hname hone (fun n hn => ?_) ?_
  · cases hn with
    | func hformals hτ =>
      rw [pure_bind]
      exact hsome _ _ hformals hτ
  · rw [pure_bind]
    exact hnone

/-- What is done in a scope of its own leaves nothing behind. -/
theorem recovers_scoped {y : Check α} {k : α → Check β}
    (hy : Recovers F x y ([] :: Γ) Θ missed Q) (hdeclaring : Declaring y)
    (hk : ∀ a, Q a → Recovers F x (k a) Γ Δ more P) :
    Recovers F x (openScope >>= fun _ => y >>= fun a => closeScope >>= fun _ => k a) Γ Δ
      (missed ++ more) P := by
  intro s hΓ hx
  obtain ⟨a, t, h₁, ha, -, -, hlog⟩ | ⟨hF, hno⟩ :=
    hy { s with scopes := s.scopes.opened } (.cons .nil hΓ) hx.opened
  · have hscopes : t.scopes.closed = s.scopes := (hdeclaring _ _ _ h₁).closed.scopes
    obtain ⟨b, s', h₂, hb, hΔ, hx', hlog'⟩ | ⟨hF, hno⟩ :=
      hk a ha { t with scopes := s.scopes } hΓ hx
    · refine .inl ⟨b, s', ?_, hb, hΔ, hx', ?_⟩
      · simp only [openScope, closeScope, yields_bind, yields_modify, yields_modifyGet]
        exact ⟨(), _, rfl, a, t, h₁, _, _, ⟨rfl, rfl⟩, by rwa [hscopes]⟩
      · rw [hlog']
        change t.log.missing x more = s.log.missing x (missed ++ more)
        rw [hlog, Log.missing, Log.missing, Log.missing, List.foldl_append]
    · refine .inr ⟨hF, fun b s' h => ?_⟩
      obtain ⟨_, _, h, h₂⟩ := yields_scoped hdeclaring h
      obtain ⟨rfl, rfl⟩ := h₁.unique h
      exact hno b s' h₂
  · refine .inr ⟨hF, fun b s' h => ?_⟩
    obtain ⟨a, t, h₁, -⟩ := yields_scoped hdeclaring h
    exact hno a t h₁

theorem recovers_routine {declaration : NodeId} {parameters : Parameters}
    {scope : List (String × Meaning)} {meaning : Formals → Meaning} {body : Check Unit}
    (hparameters : Recovers F x parameters.check ([] :: Γ) (scope :: Γ) missed (formals.Fade ·))
    (hfresh : Γ.Fresh name.spelling) (hne : name.spelling ≠ x)
    (hm : ∀ g, formals.Fade g → m.Fades (meaning g))
    (hbody : Recovers F x body (scope :: Γ.bind name.spelling m) (scope :: Γ.bind name.spelling m)
      more fun _ => True) (hpass : Passing body) :
    Recovers F x (routine name declaration parameters meaning body) Γ (Γ.bind name.spelling m)
      (missed ++ more) fun _ => True := by
  intro s hΓ hx
  have hrun : ∀ {u s'}, Yields (routine name declaration parameters meaning body) s u s' ↔ _ :=
    yields_routine_iff hpass
  obtain ⟨g, t₁, h₁, hg, hscope, hx₁, hlog₁⟩ | ⟨hF, hno⟩ :=
    hparameters { s with scopes := s.scopes.opened } (.cons .nil hΓ) hx.opened
  · obtain ⟨new, hnew⟩ := (parameters.declaring_check _ _ _ h₁).scopes
    obtain ⟨_, t₂, h₂, -, hΔ, hx₂, hlog₂⟩ | ⟨hF, hno⟩ := recovers_declare (F := F) declaration
      hfresh hne (hm g hg) { t₁ with scopes := s.scopes } hΓ hx
    · -- The names in the body are those of the parameters and, around them, those after it.
      have hnames : t₁.names = new.names :: s.names := by
        rw [CheckState.names, hnew]
        exact Scopes.names_extended_opened _ _
      rw [hnames] at hscope hx₁
      have hinner : Names.Fade (scope :: Γ.bind name.spelling m)
          (CheckState.names { t₂ with scopes := t₂.scopes.restored new }) := by
        cases hscope with
        | cons hscope _ => exact .cons hscope hΔ
      have hlacks : (CheckState.names { t₂ with scopes := t₂.scopes.restored new }).Lacks x := by
        intro inner hinner
        obtain rfl | hinner := List.mem_cons.1 hinner
        · exact hx₁ _ (by simp)
        · exact hx₂ _ hinner
      obtain ⟨_, t₃, h₃, -, -, -, hlog₃⟩ | ⟨hF, hno⟩ := hbody _ hinner hlacks
      · refine .inl ⟨(), _, hrun.2 ⟨g, t₁, new, t₂, t₃, h₁, hnew, h₂, h₃, rfl⟩, trivial,
          hΔ, hx₂, ?_⟩
        have hlog : t₂.log = s.log.missing x missed := hlog₂.trans hlog₁
        rw [Log.missing, List.foldl_append, ← Log.missing, ← Log.missing, ← hlog]
        exact hlog₃
      · refine .inr ⟨hF, fun u s' h => ?_⟩
        obtain ⟨_, _, new', _, t₃, h₁', hnew', h₂', h₃, -⟩ := hrun.1 h
        obtain ⟨rfl, rfl⟩ := h₁.unique h₁'
        obtain ⟨-, rfl⟩ := h₂.unique h₂'
        obtain rfl : new = new' := by
          simpa using congrArg Scopes.innermost (hnew.symm.trans hnew')
        exact hno () t₃ h₃
    · refine .inr ⟨hF, fun u s' h => ?_⟩
      obtain ⟨_, _, _, t₂, _, h₁', -, h₂, -⟩ := hrun.1 h
      obtain ⟨rfl, rfl⟩ := h₁.unique h₁'
      exact hno () t₂ h₂
  · refine .inr ⟨hF, fun u s' h => ?_⟩
    obtain ⟨g, t₁, _, _, _, h₁, -⟩ := hrun.1 h
    exact hno g t₁ h₁

end Check

end

/-! ## Types and parameters -/

variable {F : Selectable} {id : NodeId} {x : String}

mutual

theorem TypeDenoter.recovers_check : (of : TypeDenoter) → ∀ {Γ τ}, of.StandsFor Γ τ → Recovers F x
    (of.misspelt id x).check Γ Γ (hits id of.uses) fun found => τ.Fades found
  | .any _ | .error _ => fun h => by cases h
  | .bool m => by
    intro h
    cases h
    exact recovers_typed m.id .bool
  | .char m => by
    intro h
    cases h
    exact recovers_typed m.id .char
  | .int m => by
    intro h
    cases h
    exact recovers_typed m.id .int
  | .array m size element => by
    intro h
    cases h with
    | array hsize hlength helement =>
      refine (element.recovers_check helement).after fun found hfound => ?_
      simp only [hsize, if_pos hlength]
      exact recovers_typed m.id (.array hfound)
  | .record m fields => by
    intro h
    cases h with
    | record hfields =>
      exact (fields.recovers_check hfields).after fun found hfound =>
        recovers_typed m.id (.record hfound)
  | .simple m name => by
    intro h
    cases h with
    | simple hname =>
      rw [TypeDenoter.misspelt, TypeDenoter.check, TypeDenoter.uses]
      refine recovers_resolve_last hname (fun n hn => ?_) (recovers_typed m.id .error)
      cases hn with
      | type hτ => exact recovers_typed m.id hτ

theorem FieldDenoters.recovers_check : (fields : FieldDenoters) → ∀ {Γ types}, fields.StandFor Γ
    types → Recovers F x (fields.misspelt id x).check Γ Γ (hits id fields.uses) fun found =>
    types.Fade found
  | .single _ name of => by
    intro h
    cases h with
    | single hof =>
      exact (of.recovers_check hof).after fun found hfound =>
        recovers_prependField rfl (.cons hfound .nil)
  | .multiple _ name of rest => by
    intro h
    cases h with
    | multiple hof hrest hname =>
      rw [FieldDenoters.misspelt, FieldDenoters.check, FieldDenoters.uses, hits_append]
      exact (of.recovers_check hof).bind fun found hfound =>
        (rest.recovers_check hrest).after fun others hothers =>
        recovers_prependField (hothers.declares.trans hname) (.cons hfound hothers)

end

mutual

theorem Parameter.recovers_check : (parameter : Parameter) → ∀ {Γ Δ formal}, parameter.Introduces Γ
    formal Δ → x ∉ parameter.declared → Recovers F x (parameter.misspelt id x).check Γ Δ (hits id
    parameter.uses) fun found => formal.Fades found
  | .const m name of => by
    intro h hx
    cases h with
    | const hof hfresh =>
      rw [Parameter.declared, List.mem_singleton] at hx
      exact (of.recovers_check hof).after fun found hfound =>
        (recovers_typed m.id hfound).before fun found hfound =>
        (recovers_declare m.id hfresh (Ne.symm hx) (.const hfound)).before
        fun _ _ => recovers_pure (.const hfound)
  | .func m name parameters result => by
    intro h hx
    cases h with
    | func hparameters hresult hfresh =>
      rw [Parameter.declared, List.mem_append, not_or, List.mem_singleton] at hx
      rw [Parameter.misspelt, Parameter.check, Parameter.uses, hits_append]
      exact recovers_scoped (parameters.recovers_check hparameters hx.1)
        (Parameters.declaring_check _) fun formals hformals =>
        (result.recovers_check hresult).after fun found hfound =>
        (recovers_typed m.id hfound).before fun found hfound =>
        (recovers_declare m.id hfresh (Ne.symm hx.2) (.func hformals hfound)).before
        fun _ _ => recovers_pure (.func hformals hfound)
  | .proc m name parameters => by
    intro h hx
    cases h with
    | proc hparameters hfresh =>
      rw [Parameter.declared, List.mem_append, not_or, List.mem_singleton] at hx
      rw [Parameter.misspelt, Parameter.check, Parameter.uses,
        ← List.append_nil (hits id parameters.uses)]
      exact recovers_scoped (parameters.recovers_check hparameters hx.1)
        (Parameters.declaring_check _) fun formals hformals =>
        (recovers_declare m.id hfresh (Ne.symm hx.2) (.proc hformals)).before
        fun _ _ => recovers_pure (.proc hformals)
  | .var m name of => by
    intro h hx
    cases h with
    | var hof hfresh =>
      rw [Parameter.declared, List.mem_singleton] at hx
      exact (of.recovers_check hof).after fun found hfound =>
        (recovers_typed m.id hfound).before fun found hfound =>
        (recovers_declare m.id hfresh (Ne.symm hx) (.var hfound)).before
        fun _ _ => recovers_pure (.var hfound)

theorem Parameters.recovers_check : (parameters : Parameters) → ∀ {Γ Δ formals},
    parameters.Introduce Γ formals Δ → x ∉ parameters.declared → Recovers F x (parameters.misspelt
    id x).check Γ Δ (hits id parameters.uses) fun found => formals.Fade found
  | .empty _ => by
    intro h _
    cases h
    exact recovers_pure .nil
  | .single _ parameter => by
    intro h hx
    cases h with
    | single hparameter =>
      exact (parameter.recovers_check hparameter hx).after fun found hfound =>
        recovers_pure (.cons hfound .nil)
  | .multiple _ first rest => by
    intro h hx
    cases h with
    | multiple hfirst hrest =>
      rw [Parameters.declared, List.mem_append, not_or] at hx
      rw [Parameters.misspelt, Parameters.check, Parameters.uses, hits_append]
      exact (first.recovers_check hfirst hx.1).bind fun formal hformal =>
        (rest.recovers_check hrest hx.2).after fun formals hformals =>
        recovers_pure (.cons hformal hformals)

end

/-! ## Commands, expressions and declarations

One use is misspelt, so at most one part of a phrase misses it.  Which one does not matter: what the
parts miss is added up, and their types have faded either way. -/

/-- What a proper type has faded to still passes for it. -/
theorem Ty.Proper.equivalent_of_fades {σ ρ : Ty} (hτ : τ.Proper) (hσ : τ.Fades σ) (hρ : τ.Fades ρ) :
    σ.equivalent ρ = true :=
  hσ.equivalent hρ ((Ty.equivalent_iff hτ.plain hτ.plain).2 rfl)

/-- What is found for a V-name has faded, and it is assignable or erroneous if it was assignable. -/
def Ty.FadesAt (τ : Ty) (assignable : Bool) (found : Ty × Bool) : Prop :=
  τ.Fades found.1 ∧ (assignable = true → found.2 = true ∨ found.1 = .error)

/-- A misspelt expression recovers with a type that its type has faded to. -/
abbrev Expression.RecoversTo (F : Selectable) (x : String) (id : NodeId) (Γ : Names) (τ : Ty)
    (expression : Expression) : Prop :=
  Recovers F x (expression.misspelt id x).check Γ Γ (hits id expression.uses) τ.Fades

/-- A misspelt V-name recovers, and so it can be assigned to if it could be. -/
abbrev Vname.RecoversTo (F : Selectable) (x : String) (id : NodeId) (Γ : Names) (τ : Ty)
    (assignable : Bool) (vname : Vname) : Prop :=
  Recovers F x (vname.misspelt id x).check Γ Γ (hits id vname.uses) (τ.FadesAt assignable)

section

variable {β : Type} {Γ Θ Δ : Names} {missed more : List Terminal} {P : β → Prop} {σ ρ : Ty}
  {m : Mark} {operator : Terminal} {condition left right operand first second value : Expression}

/-- After a condition comes something else. -/
theorem Check.recovers_condition {y : Check Ty} {k : Check β}
    (hy : Recovers F x y Γ Θ missed Ty.bool.Fades) (hk : Recovers F x k Θ Δ more P) :
    Recovers F x (y >>= fun found => require .bool found span >>= fun _ => k) Γ Δ
      (missed ++ more) P :=
  hy.bind fun _ hfound =>
    (recovers_require (Ty.Proper.equivalent_of_fades (τ := .bool) trivial hfound .bool)).before
      fun _ _ => hk

/-- A body that follows declarations in a scope of their own. -/
theorem Check.recovers_block {α : Type} {Q : α → Prop} {declaration : Check Unit} {body : Check α}
    {k : α → Check β}
    (hdeclaration : Recovers F x declaration ([] :: Γ) Θ missed fun _ => True)
    (hbody : Recovers F x body Θ Δ more Q) (hdeclaring : Declaring declaration)
    (hpassing : Passing body) (hk : ∀ a, Q a → Recovers F x (k a) Γ Γ [] P) :
    Recovers F x (do openScope; declaration; let a ← body; let _ ← closeScope; k a) Γ Γ
      (missed ++ more) P := by
  have h := recovers_scoped (k := k) (hdeclaration.bind fun _ _ => hbody)
    (hdeclaring.bind fun _ => hpassing.declaring) hk
  simpa only [bind_assoc, List.append_nil] using h

theorem Command.recovers_assign {target : Vname} (hτ : τ.Proper)
    (htarget : target.RecoversTo F x id Γ τ true) (hvalue : value.RecoversTo F x id Γ τ) :
    Recovers F x ((Command.assign m target value).misspelt id x).check Γ Γ
      (hits id target.uses ++ hits id value.uses) fun _ => True :=
  htarget.bind fun _ hfound => (recovers_requireVariable (hfound.2 rfl)).before fun _ _ =>
    hvalue.after fun _ hof => recovers_require (hτ.equivalent_of_fades hof hfound.1)

/-- One assignment after the other. -/
theorem Command.recovers_doubleAssign {target target' : Vname} {value' : Expression}
    (hσ : σ.Proper) (hτ : τ.Proper) (htarget : target.RecoversTo F x id Γ σ true)
    (hvalue : value.RecoversTo F x id Γ σ) (htarget' : target'.RecoversTo F x id Γ τ true)
    (hvalue' : value'.RecoversTo F x id Γ τ) :
    Recovers F x ((Command.doubleAssign m target target' value value').misspelt id x).check Γ Γ
      (hits id target.uses ++ (hits id value.uses ++ (hits id target'.uses ++
        hits id value'.uses))) fun _ => True :=
  htarget.bind fun _ hfound => (recovers_requireVariable (hfound.2 rfl)).before fun _ _ =>
    hvalue.bind fun _ hof => (recovers_require (hσ.equivalent_of_fades hof hfound.1)).before
      fun _ _ => Command.recovers_assign (m := m) hτ htarget' hvalue'

/-- The operands are as the operator wants them, or erroneous. -/
theorem Expression.recovers_binary (hσ : σ.Proper) (hρ : ρ.Proper)
    (hoperator : Γ.meaning? operator.spelling = some (.binary σ ρ τ))
    (hleft : left.RecoversTo F x id Γ σ) (hright : right.RecoversTo F x id Γ ρ) :
    Recovers F x ((Expression.binary m left operator right).misspelt id x).check Γ Γ
      (hits id left.uses ++ (hits id right.uses ++ hits id [operator])) τ.Fades := by
  rw [Expression.misspelt, Expression.check]
  refine hleft.bind fun _ hfound => hright.bind fun _ hfound' => ?_
  refine recovers_resolve_last hoperator (fun n hn => ?_) (recovers_typed m.id .error)
  cases hn
  have hany := beq_false_of_ne (a := _) (b := Ty.any) fun h => (h ▸ hσ : Ty.Proper .any)
  simp only [hany, Bool.false_eq_true, if_false]
  exact (recovers_require (hσ.equivalent_of_fades hfound (.refl _))).before fun _ _ =>
    (recovers_require (hρ.equivalent_of_fades hfound' (.refl _))).before fun _ _ =>
    recovers_typed m.id (.refl τ)

/-- The operands have faded from one type, so they still go together. -/
theorem Expression.recovers_comparison (hσ : σ.Proper)
    (hoperator : Γ.meaning? operator.spelling = some (.binary .any .any τ))
    (hleft : left.RecoversTo F x id Γ σ) (hright : right.RecoversTo F x id Γ σ) :
    Recovers F x ((Expression.binary m left operator right).misspelt id x).check Γ Γ
      (hits id left.uses ++ (hits id right.uses ++ hits id [operator])) τ.Fades := by
  rw [Expression.misspelt, Expression.check]
  refine hleft.bind fun _ hfound => hright.bind fun _ hfound' => ?_
  refine recovers_resolve_last hoperator (fun n hn => ?_) (recovers_typed m.id .error)
  cases hn
  simp only [beq_self_eq_true, if_true, hσ.equivalent_of_fades hfound hfound']
  exact recovers_typed m.id (.refl τ)

theorem Expression.recovers_unary (hσ : σ.Proper)
    (hoperator : Γ.meaning? operator.spelling = some (.unary σ τ))
    (hoperand : operand.RecoversTo F x id Γ σ) :
    Recovers F x ((Expression.unary m operator operand).misspelt id x).check Γ Γ
      (hits id operand.uses ++ hits id [operator]) τ.Fades := by
  rw [Expression.misspelt, Expression.check]
  refine hoperand.bind fun _ hfound => ?_
  refine recovers_resolve_last hoperator (fun n hn => ?_) (recovers_typed m.id .error)
  cases hn
  exact (recovers_require (hσ.equivalent_of_fades hfound (.refl _))).before fun _ _ =>
    recovers_typed m.id (.refl τ)

/-- Both limbs have faded from one type, and the first decides. -/
theorem Expression.recovers_ifElse (hτ : τ.Proper)
    (hcondition : condition.RecoversTo F x id Γ .bool)
    (hfirst : first.RecoversTo F x id Γ τ) (hsecond : second.RecoversTo F x id Γ τ) :
    Recovers F x ((Expression.ifElse m condition first second).misspelt id x).check Γ Γ
      (hits id condition.uses ++ (hits id first.uses ++ hits id second.uses)) τ.Fades := by
  rw [Expression.misspelt, Expression.check]
  refine recovers_condition hcondition (hfirst.bind fun _ hσ => hsecond.after fun _ hρ => ?_)
  simp only [hτ.equivalent_of_fades hσ hρ, if_true]
  exact recovers_typed m.id hσ

end

mutual

theorem Command.recovers_check : (command : Command) → {Γ : Names} → Γ.Regular →
    command.WellTyped F Γ → (hits id command.uses).length ≤ 1 →
    x ∉ command.declared →
    Recovers F x (command.misspelt id x).check Γ Γ (hits id command.uses) fun _ => True
  | .assign _ target value, Γ, hΓ, h, hone, hx => by
    cases h with
    | assign htarget hvalue =>
      rw [Command.declared, List.mem_append, not_or] at hx
      rw [Command.uses, hits_append, List.length_append] at hone
      rw [Command.uses, hits_append]
      -- the misspelt use is in one of the parts, and the others are as they were
      exact Command.recovers_assign (htarget.proper hΓ)
        (target.recovers_check hΓ htarget (by omega) hx.1)
        (value.recovers_check hΓ hvalue (by omega) hx.2)
  | .doubleAssign _ first second firstValue secondValue, Γ, hΓ, h, hone, hx => by
    cases h with
    | doubleAssign hfirst hfirstValue hsecond hsecondValue =>
      simp only [Command.declared, List.mem_append, not_or] at hx
      simp only [Command.uses, hits_append, List.length_append] at hone
      rw [Command.uses, hits_append, hits_append, hits_append]
      exact Command.recovers_doubleAssign (hfirst.proper hΓ) (hsecond.proper hΓ)
        (first.recovers_check hΓ hfirst (by omega) hx.1)
        (firstValue.recovers_check hΓ hfirstValue (by omega) hx.2.1)
        (second.recovers_check hΓ hsecond (by omega) hx.2.2.1)
        (secondValue.recovers_check hΓ hsecondValue (by omega) hx.2.2.2)
  | .call _ name arguments, Γ, hΓ, h, hone, hx => by
    cases h with
    | call hname hfit =>
      have hformals := (hΓ.meaning hname).proper (by simp) (by simp)
      rw [Command.uses, hits_append] at hone
      rw [Command.misspelt, Command.check, Command.uses, hits_append]
      rw [List.length_append] at hone
      exact recovers_procedure_bind hname (by rwa [List.length_append]) (fun g hg =>
        arguments.recovers_check hΓ hfit hformals (by omega) hx g hg)
        (recovers_pure trivial)
  | .empty _, Γ, _, _, _, _ => recovers_pure trivial
  | .ifElse _ condition first second, Γ, hΓ, h, hone, hx => by
    cases h with
    | ifElse hcondition hfirst hsecond =>
      simp only [Command.declared, List.mem_append, not_or] at hx
      simp only [Command.uses, hits_append, List.length_append] at hone
      rw [Command.misspelt, Command.check, Command.uses, hits_append, hits_append]
      exact recovers_condition (condition.recovers_check hΓ hcondition (by omega) hx.1)
        ((first.recovers_check hΓ hfirst (by omega) hx.2.1).bind fun _ _ =>
          second.recovers_check hΓ hsecond (by omega) hx.2.2)
  | .letIn _ declaration body, Γ, hΓ, h, hone, hx => by
    cases h with
    | letIn hdeclaration hbody =>
      rw [Command.declared, List.mem_append, not_or] at hx
      rw [Command.uses, hits_append, List.length_append] at hone
      rw [Command.misspelt, Command.check, Command.uses, hits_append]
      exact recovers_block (declaration.recovers_check hΓ.opened hdeclaration (by omega) hx.1)
        (body.recovers_check (hdeclaration.regular hΓ.opened) hbody (by omega) hx.2)
        (Declaration.declaring_check _) (Command.passing_check _) fun _ _ => recovers_pure trivial
  | .sequential _ first second, Γ, hΓ, h, hone, hx => by
    cases h with
    | sequential hfirst hsecond =>
      rw [Command.declared, List.mem_append, not_or] at hx
      rw [Command.uses, hits_append, List.length_append] at hone
      rw [Command.misspelt, Command.check, Command.uses, hits_append]
      exact (first.recovers_check hΓ hfirst (by omega) hx.1).bind fun _ _ =>
        second.recovers_check hΓ hsecond (by omega) hx.2
  | .whileDo _ condition body, Γ, hΓ, h, hone, hx => by
    cases h with
    | whileDo hcondition hbody =>
      rw [Command.declared, List.mem_append, not_or] at hx
      rw [Command.uses, hits_append, List.length_append] at hone
      rw [Command.misspelt, Command.check, Command.uses, hits_append]
      exact recovers_condition (condition.recovers_check hΓ hcondition (by omega) hx.1)
        (body.recovers_check hΓ hbody (by omega) hx.2)
  | .loopWhile _ prelude condition body, Γ, hΓ, h, hone, hx => by
    cases h with
    | loopWhile hprelude hcondition hbody =>
      simp only [Command.declared, List.mem_append, not_or] at hx
      simp only [Command.uses, hits_append, List.length_append] at hone
      rw [Command.misspelt, Command.check, Command.uses, hits_append, hits_append]
      exact (prelude.recovers_check hΓ hprelude (by omega) hx.1).bind fun _ _ =>
        recovers_condition (condition.recovers_check hΓ hcondition (by omega) hx.2.1)
          (body.recovers_check hΓ hbody (by omega) hx.2.2)

theorem Expression.recovers_check : (expression : Expression) → {Γ : Names} → {τ : Ty} →
    Γ.Regular → expression.HasType F Γ τ → (hits id expression.uses).length ≤ 1 →
    x ∉ expression.declared →
    Recovers F x (expression.misspelt id x).check Γ Γ (hits id expression.uses) fun found =>
      τ.Fades found
  | .array m elements, Γ, _, hΓ, h, hone, hx => by
    cases h with
    | array helements =>
      exact (elements.recovers_check hΓ helements hone hx).after
        fun found hfound => recovers_typed m.id (by
          obtain ⟨of, count⟩ := found
          obtain ⟨hof, rfl⟩ := hfound
          exact .array hof)
  | .binary m left operator right, Γ, τ, hΓ, h, hone, hx => by
    rw [Expression.declared, List.mem_append, not_or] at hx
    simp only [Expression.uses, hits_append, List.length_append] at hone
    rw [Expression.uses, hits_append, hits_append]
    cases h with
    | binary hleft hright hoperator =>
      exact Expression.recovers_binary (hleft.proper hΓ) (hright.proper hΓ) hoperator
        (left.recovers_check hΓ hleft (by omega) hx.1)
        (right.recovers_check hΓ hright (by omega) hx.2)
    | comparison hleft hright hoperator =>
      exact Expression.recovers_comparison (hleft.proper hΓ) hoperator
        (left.recovers_check hΓ hleft (by omega) hx.1)
        (right.recovers_check hΓ hright (by omega) hx.2)
  | .call m name arguments, Γ, τ, hΓ, h, hone, hx => by
    cases h with
    | call hname hfit =>
      have hproper := (hΓ.meaning hname).proper (by simp) (by simp)
      rw [Expression.uses, hits_append, List.length_append] at hone
      rw [Expression.misspelt, Expression.check, Expression.uses, hits_append]
      exact recovers_function_bind hname (by rwa [List.length_append]) (fun g τ' hg hτ' =>
        (arguments.recovers_check hΓ hfit hproper.1 (by omega) hx g hg).after fun _ _ =>
        recovers_typed m.id hτ') (recovers_typed m.id .error)
  | .character m _, Γ, _, _, h, _, _ => by
    cases h
    exact recovers_typed m.id .char
  | .empty _, _, _, _, h, _, _ => by cases h
  | .ifElse m condition first second, Γ, τ, hΓ, h, hone, hx => by
    cases h with
    | ifElse hcondition hfirst hsecond =>
      simp only [Expression.declared, List.mem_append, not_or] at hx
      simp only [Expression.uses, hits_append, List.length_append] at hone
      rw [Expression.uses, hits_append, hits_append]
      exact Expression.recovers_ifElse (hfirst.proper hΓ)
        (condition.recovers_check hΓ hcondition (by omega) hx.1)
        (first.recovers_check hΓ hfirst (by omega) hx.2.1)
        (second.recovers_check hΓ hsecond (by omega) hx.2.2)
  | .integer m _, Γ, _, _, h, _, _ => by
    cases h
    exact recovers_typed m.id .int
  | .letIn m declaration body, Γ, τ, hΓ, h, hone, hx => by
    cases h with
    | letIn hdeclaration hbody =>
      rw [Expression.declared, List.mem_append, not_or] at hx
      rw [Expression.uses, hits_append, List.length_append] at hone
      rw [Expression.misspelt, Expression.check, Expression.uses, hits_append]
      exact recovers_block (declaration.recovers_check hΓ.opened hdeclaration (by omega) hx.1)
        (body.recovers_check (hdeclaration.regular hΓ.opened) hbody (by omega) hx.2)
        (Declaration.declaring_check _) (Expression.passing_check _)
        fun _ hfound => recovers_typed m.id hfound
  | .record m fields, Γ, _, hΓ, h, hone, hx => by
    cases h with
    | record hfields =>
      exact (fields.recovers_check hΓ hfields hone hx).after fun found hfound =>
        recovers_typed m.id (.record hfound)
  | .unary m operator operand, Γ, τ, hΓ, h, hone, hx => by
    cases h with
    | unary hoperand hoperator =>
      simp only [Expression.uses, hits_append, List.length_append] at hone
      rw [Expression.uses, hits_append]
      exact Expression.recovers_unary (hoperand.proper hΓ) hoperator
        (operand.recovers_check hΓ hoperand (by omega) hx)
  | .vname m vname, Γ, _, hΓ, h, hone, hx => by
    cases h with
    | vname hvname =>
      exact (vname.recovers_check hΓ hvname hone hx).after fun found hfound =>
        recovers_typed m.id hfound.1

theorem Declaration.recovers_check : (declaration : Declaration) → ∀ {Γ Δ}, Γ.Regular →
    declaration.Introduces F Γ Δ → (hits id declaration.uses).length ≤ 1 →
    x ∉ declaration.declared →
    Recovers F x (declaration.misspelt id x).check Γ Δ (hits id declaration.uses) fun _ => True
  | .binaryOperator _ _ _ _ _ | .unaryOperator _ _ _ _ => by
    intro _ h _ _
    cases h
  | .const m name value => by
    intro hΓ h hone hx
    cases h with
    | const hvalue hfresh =>
      rw [Declaration.declared, List.mem_append, not_or, List.mem_singleton] at hx
      exact (value.recovers_check hΓ hvalue hone hx.1).after fun found hfound =>
        (recovers_typed m.id hfound).before fun found hfound =>
        recovers_declare m.id hfresh (Ne.symm hx.2) (.const hfound)
  | .func m name parameters result body => by
    intro hΓ h hone hx
    cases h with
    | func hresult hparameters hfresh hbody =>
      have hτ := hresult.proper hΓ
      obtain ⟨hformals, hscope⟩ := hparameters.proper hΓ.opened
      have hmeaning : (Meaning.func _ _).Proper := ⟨hformals, hτ⟩
      have hinner := hscope.restored (@Names.Regular.bind _ name.spelling _ hΓ hmeaning)
      simp only [Declaration.declared, List.mem_append, not_or, List.mem_singleton] at hx
      simp only [Declaration.uses, hits_append, List.length_append] at hone
      rw [Declaration.misspelt, Declaration.check, Declaration.uses, hits_append, hits_append]
      exact (result.recovers_check hresult).bind fun found hfound =>
        (recovers_typed m.id hfound).before fun found hfound =>
        recovers_routine (parameters.recovers_check hparameters hx.1) hfresh (Ne.symm hx.2.1)
          (fun g hg => .func hg hfound)
          ((body.recovers_check hinner hbody (by omega) hx.2.2).after fun of hof =>
            recovers_require (hτ.equivalent_of_fades hof hfound))
          ((Expression.passing_check _).bind fun _ => passing_require _ _ _)
  | .proc m name parameters body => by
    intro hΓ h hone hx
    cases h with
    | proc hparameters hfresh hbody =>
      obtain ⟨hformals, hscope⟩ := hparameters.proper hΓ.opened
      have hmeaning : (Meaning.proc _).Proper := hformals
      have hinner := hscope.restored (@Names.Regular.bind _ name.spelling _ hΓ hmeaning)
      simp only [Declaration.declared, List.mem_append, not_or, List.mem_singleton] at hx
      simp only [Declaration.uses, hits_append, List.length_append] at hone
      rw [Declaration.misspelt, Declaration.check, Declaration.uses, hits_append]
      exact recovers_routine (parameters.recovers_check hparameters hx.1) hfresh (Ne.symm hx.2.1)
        (fun g hg => .proc hg) (body.recovers_check hinner hbody (by omega) hx.2.2)
        (Command.passing_check _)
  | .sequential _ first second => by
    intro hΓ h hone hx
    cases h with
    | sequential hfirst hsecond =>
      rw [Declaration.declared, List.mem_append, not_or] at hx
      rw [Declaration.uses, hits_append, List.length_append] at hone
      rw [Declaration.misspelt, Declaration.check, Declaration.uses, hits_append]
      exact (first.recovers_check hΓ hfirst (by omega) hx.1).bind fun _ _ =>
        second.recovers_check (hfirst.regular hΓ) hsecond (by omega) hx.2
  | .type m name of => by
    intro hΓ h hone hx
    cases h with
    | type hof hfresh =>
      rw [Declaration.declared, List.mem_singleton] at hx
      exact (of.recovers_check hof).after fun found hfound =>
        (recovers_typed m.id hfound).before fun found hfound =>
        recovers_declare m.id hfresh (Ne.symm hx) (.type hfound)
  | .var m name of => by
    intro hΓ h hone hx
    cases h with
    | var hof hfresh =>
      rw [Declaration.declared, List.mem_singleton] at hx
      exact (of.recovers_check hof).after fun found hfound =>
        (recovers_typed m.id hfound).before fun found hfound =>
        recovers_declare m.id hfresh (Ne.symm hx) (.var hfound)

theorem Vname.recovers_check : (vname : Vname) → {Γ : Names} → {τ : Ty} → {assignable : Bool} →
    Γ.Regular → vname.HasType F Γ τ assignable → (hits id vname.uses).length ≤ 1 →
    x ∉ vname.declared →
    Recovers F x (vname.misspelt id x).check Γ Γ (hits id vname.uses) (τ.FadesAt assignable)
  | .dot m record field, Γ, τ, assignable, hΓ, h, hone, hx => by
    cases h with
    | dot hrecord htype hselect =>
      have hproper := (hrecord.proper hΓ).2
      refine (record.recovers_check hΓ hrecord hone hx).after ?_
      rintro ⟨recordType, assignable'⟩ ⟨hfades, hassignable⟩
      cases hfades with
      | error => exact recovers_named m.id ⟨.error, fun _ => .inr rfl⟩
      | record hfields =>
        have hassignable : assignable = true → assignable' = true := fun h =>
          (hassignable h).resolve_right (by simp)
        refine Recovers.before (Θ := Γ) (Q := fun found => ∃ offset σ, found = some (offset, σ) ∧
          τ.Fades σ) (recovers_lift (fun found hfound => ?_) fun hF => ?_) ?_
        · obtain ⟨σ, hσ, hfades⟩ := hfields.typeOf? htype
          rw [Fields.typeOf?_of_find hfound] at hσ
          obtain ⟨⟨offset, _⟩, rfl, rfl⟩ := Option.map_eq_some_iff.1 hσ
          exact ⟨offset, _, rfl, hfades⟩
        · obtain ⟨found, hfound⟩ := hF _ _ hselect
          rw [Fields.typeOf?_of_find hfound] at htype
          obtain ⟨⟨offset, _⟩, rfl, rfl⟩ := Option.map_eq_some_iff.1 htype
          obtain ⟨offset', σ, hfind, -⟩ :=
            hfields.find hproper (Int.le_refl 0) (Int.le_refl 0) hfound
          exact ⟨_, hfind⟩
        rintro _ ⟨offset, σ, rfl, hσ⟩
        exact recovers_named m.id ⟨hσ, fun h => .inl (hassignable h)⟩
  | .simple m name, Γ, τ, assignable, hΓ, h, hone, hx => by
    have herror : Recovers F x (named m.id .error false) Γ Γ [] (τ.FadesAt assignable) :=
      recovers_named m.id ⟨.error, fun _ => .inr rfl⟩
    rw [Vname.misspelt, Vname.check, Vname.uses]
    cases h with
    | const hname =>
      refine recovers_resolve_last hname (fun n hn => ?_) herror
      cases hn with
      | const hτ => exact recovers_named m.id ⟨hτ, nofun⟩
    | var hname =>
      refine recovers_resolve_last hname (fun n hn => ?_) herror
      cases hn with
      | var hτ => exact recovers_named m.id ⟨hτ, fun _ => .inl rfl⟩
  | .subscript m array index, Γ, τ, assignable, hΓ, h, hone, hx => by
    cases h with
    | subscript harray hindex =>
      rw [Vname.declared, List.mem_append, not_or] at hx
      rw [Vname.uses, hits_append, List.length_append] at hone
      rw [Vname.misspelt, Vname.check, Vname.uses, hits_append]
      refine (array.recovers_check hΓ harray (by omega) hx.1).bind ?_
      rintro ⟨arrayType, assignable'⟩ ⟨hfades, hassignable⟩
      refine (index.recovers_check hΓ hindex (by omega) hx.2).after fun found hfound =>
        (recovers_require (Ty.Proper.equivalent_of_fades (τ := .int) trivial hfound .int)).before
        fun _ _ => ?_
      cases hfades with
      | error => exact recovers_named m.id ⟨.error, fun _ => .inr rfl⟩
      | array helement =>
        exact recovers_named m.id
          ⟨helement, fun h => .inl ((hassignable h).resolve_right (by simp))⟩

theorem Argument.recovers_check : (argument : Argument) → {Γ : Names} → {formal : Formal} →
    Γ.Regular → argument.Fits F Γ formal → formal.Proper →
    (hits id argument.uses).length ≤ 1 → x ∉ argument.declared →
    (found : Formal) → formal.Fades found →
    Recovers F x ((argument.misspelt id x).check found) Γ Γ (hits id argument.uses) fun _ => True
  | .const m value, Γ, _, hΓ, h, hformal, hone, hx, found, hfound => by
    cases h with
    | const hvalue =>
      cases hfound with
      | const hτ =>
        exact (value.recovers_check hΓ hvalue hone hx).after fun of hof =>
          recovers_require ((hvalue.proper hΓ).equivalent_of_fades hof hτ)
  | .func m name, Γ, _, hΓ, h, hformal, hone, hx, found, hfound => by
    cases h with
    | func hname =>
      cases hfound with
      | func hformals hτ =>
        rw [Argument.uses] at hone
        rw [Argument.misspelt, Argument.check, Argument.uses, ← List.append_nil (hits id [name])]
        refine recovers_function_bind hname (by rwa [List.append_nil]) (fun g σ hg hσ => ?_)
          (recovers_pure trivial)
        refine recovers_test (Formal.Fades.matches (.func hg hσ) (.func hformals hτ) ?_)
        exact (Formal.matches_iff hformal.plain hformal.plain).2 rfl
  | .proc m name, Γ, _, hΓ, h, hformal, hone, hx, found, hfound => by
    cases h with
    | proc hname =>
      cases hfound with
      | proc hformals =>
        rw [Argument.uses] at hone
        rw [Argument.misspelt, Argument.check, Argument.uses, ← List.append_nil (hits id [name])]
        refine recovers_procedure_bind hname (by rwa [List.append_nil]) (fun g hg => ?_)
          (recovers_pure trivial)
        refine recovers_test (hformals.matches hg ?_)
        exact (Formals.matches_iff hformal.plain hformal.plain).2 rfl
  | .var m vname, Γ, _, hΓ, h, hformal, hone, hx, found, hfound => by
    cases h with
    | var hvname =>
      cases hfound with
      | var hτ =>
        exact (vname.recovers_check hΓ hvname hone hx).after fun of hof =>
          (recovers_requireVariable (hof.2 rfl)).before fun _ _ =>
          recovers_require ((hvname.proper hΓ).equivalent_of_fades hof.1 hτ)

theorem Arguments.recovers_check : (arguments : Arguments) → {Γ : Names} → {formals : Formals} →
    Γ.Regular → arguments.Fit F Γ formals → formals.Proper →
    (hits id arguments.uses).length ≤ 1 → x ∉ arguments.declared →
    (found : Formals) → formals.Fade found →
    Recovers F x ((arguments.misspelt id x).check found) Γ Γ (hits id arguments.uses) fun _ => True
  | .empty _, Γ, _, hΓ, h, _, _, _, found, hfound => by
    cases h
    cases hfound
    exact recovers_pure trivial
  | .single _ argument, Γ, _, hΓ, h, hformals, hone, hx, found, hfound => by
    cases h with
    | single hfits =>
      cases hfound with
      | cons hformal hnil =>
        cases hnil
        exact argument.recovers_check hΓ hfits hformals.1 hone hx _ hformal
  | .multiple _ first rest, Γ, _, hΓ, h, hformals, hone, hx, found, hfound => by
    cases h with
    | multiple hfirst hrest =>
      cases hfound with
      | cons hformal hothers =>
        rw [Arguments.declared, List.mem_append, not_or] at hx
        rw [Arguments.uses, hits_append, List.length_append] at hone
        rw [Arguments.misspelt, Arguments.check, Arguments.uses, hits_append]
        exact (first.recovers_check hΓ hfirst hformals.1 (by omega) hx.1 _ hformal).bind
          fun _ _ =>
          rest.recovers_check hΓ hrest hformals.2 (by omega) hx.2 _ hothers

theorem ArrayAggregate.recovers_check : (elements : ArrayAggregate) → ∀ {Γ τ length}, Γ.Regular →
    elements.HasElements F Γ τ length → (hits id elements.uses).length ≤ 1 → x ∉ elements.declared →
    Recovers F x (elements.misspelt id x).check Γ Γ (hits id elements.uses) fun found => τ.Fades
    found.1 ∧ found.2 = length
  | .single _ element => by
    intro hΓ h hone hx
    cases h with
    | single helement =>
      exact (element.recovers_check hΓ helement hone hx).after fun found hfound =>
        recovers_pure ⟨hfound, rfl⟩
  | .multiple _ first rest => by
    intro hΓ h hone hx
    cases h with
    | multiple hfirst hrest =>
      have hτ := hfirst.proper hΓ
      rw [ArrayAggregate.declared, List.mem_append, not_or] at hx
      rw [ArrayAggregate.uses, hits_append, List.length_append] at hone
      rw [ArrayAggregate.misspelt, ArrayAggregate.check, ArrayAggregate.uses, hits_append]
      refine (first.recovers_check hΓ hfirst (by omega) hx.1).bind fun of hof =>
        (rest.recovers_check hΓ hrest (by omega) hx.2).after ?_
      rintro ⟨others, count⟩ ⟨hothers, rfl⟩
      exact (recovers_require (hτ.equivalent_of_fades hothers hof)).before fun _ _ =>
        recovers_pure ⟨hof, rfl⟩

theorem RecordAggregate.recovers_check : (fields : RecordAggregate) → ∀ {Γ types}, Γ.Regular →
    fields.HasFields F Γ types → (hits id fields.uses).length ≤ 1 → x ∉ fields.declared → Recovers F
    x (fields.misspelt id x).check Γ Γ (hits id fields.uses) fun found => types.Fade found
  | .single _ field value => by
    intro hΓ h hone hx
    cases h with
    | single hvalue =>
      exact (value.recovers_check hΓ hvalue hone hx).after fun found hfound =>
        recovers_prependField rfl (.cons hfound .nil)
  | .multiple _ field value rest => by
    intro hΓ h hone hx
    cases h with
    | multiple hvalue hrest hname =>
      rw [RecordAggregate.declared, List.mem_append, not_or] at hx
      rw [RecordAggregate.uses, hits_append, List.length_append] at hone
      rw [RecordAggregate.misspelt, RecordAggregate.check, RecordAggregate.uses, hits_append]
      exact (value.recovers_check hΓ hvalue (by omega) hx.1).bind fun found hfound =>
        (rest.recovers_check hΓ hrest (by omega) hx.2).after fun others hothers =>
        recovers_prependField (hothers.declares.trans hname) (.cons hfound hothers)

end

/-! ## Programs -/

theorem Names.lacks_standard (h : ∀ s : Standard, s.spelling ≠ x) : Names.Lacks .standard x := by
  intro scope hscope
  obtain rfl := List.mem_singleton.1 hscope
  rw [List.lookup_eq_none_iff]
  intro entry hentry
  obtain ⟨s, -, rfl⟩ := List.mem_map.1 hentry
  exact bne_iff_ne.2 (h s).symm

/-- A use of a name is the only one with its identity. -/
theorem Accepted.hits_eq {source : Source} {failFast : Bool} {program : Program} {A : Annotations}
    {log : Log Problem} (h : Accepted source failFast program A log)
    (hname : name ∈ program.command.uses) : hits name.mark.id program.command.uses = [name] := by
  have hle := (program.command.hits_misspelt name.mark.id name.spelling).1
  have hcount := List.nodup_iff_count.1 h.ids_nodup name.mark.id
  have hmem : name ∈ hits name.mark.id program.command.uses :=
    List.mem_filter.2 ⟨hname, by simp⟩
  have hpos := List.length_pos_of_mem hmem
  have hone : (hits name.mark.id program.command.uses).length = 1 := by omega
  obtain ⟨other, hother⟩ := List.length_eq_one_iff.1 hone
  rw [hother] at hmem ⊢
  rw [List.mem_singleton.1 hmem]

/-- If one use of a name in an accepted program is misspelt, as a name that is neither declared in
the program nor standard, then checking the program reports exactly one thing: that this name is not
declared, at that place. -/
theorem Accepted.check_misspelt {source : Source} {failFast : Bool} {program : Program}
    {A : Annotations} {log : Log Problem} (h : Accepted source failFast program A log)
    (name : Terminal) (hname : name ∈ program.command.uses) (spelling : String)
    (hdeclared : spelling ∉ program.command.declared)
    (hstandard : ∀ s : Standard, s.spelling ≠ spelling) :
    ∃ A' log', (program.misspelt name.mark.id spelling).check (parse source failFast).log =
        .ok (A', log') ∧
      log'.diagnostics = (parse source failFast).log.diagnostics ++
        [⟨.error, name.mark.span, .contextual (.undeclared spelling)⟩] := by
  have hhits := h.hits_eq hname
  have hwell := h.wellTyped Fields.lenient_located
  have hstart := CheckState.names_initial (parse source failFast).log
  obtain ⟨_, s', hrun, -, -, -, hlog⟩ := (@Command.recovers_check _ name.mark.id spelling
    program.command _ Names.regular_standard hwell (by rw [hhits]; exact Nat.le_refl 1) hdeclared
    ⟨.initial, .empty, (parse source failFast).log⟩ (hstart ▸ .refl _)
    (hstart ▸ Names.lacks_standard hstandard)).resolve_right fun h => h.1 fun _ _ h => h
  rw [hhits] at hlog
  refine ⟨_, _, Program.check_eq_ok_iff.2 ⟨s', hrun, rfl, rfl⟩, ?_⟩
  rw [hlog]
  simp only [Log.missing, List.foldl_cons, List.foldl_nil, Log.report, Log.add,
    Log.halted_eq_false h.readable, Bool.false_eq_true, if_false]

/-- A source in which a variable is used after its type. -/
def Source.counter : Source := ⟨"counter.tri", "let var n: Integer in n := n + 1"⟩

/-- With the type misspelt, nothing is said about the uses of the variable. -/
theorem Accepted.counter_check_misspelt :
    ∃ program A log name, Accepted .counter false program A log ∧ name ∈ program.command.uses ∧
      name.spelling = "Integer" ∧ "Whole" ∉ program.command.declared ∧
      (∀ s : Standard, s.spelling ≠ "Whole") ∧
      ∃ A' log', (program.misspelt name.mark.id "Whole").check (parse .counter false).log =
          .ok (A', log') ∧
        log'.diagnostics = (parse .counter false).log.diagnostics ++
          [⟨.error, name.mark.span, .contextual (.undeclared "Whole")⟩] := by
  obtain ⟨program, A, log, h⟩ := @Accepted.of_isSome Source.counter false (by decide +kernel)
  have hany : (parse Source.counter false).program.command.uses.any
      (·.spelling == "Integer") = true := by
    decide +kernel
  have hdeclared : "Whole" ∉ (parse Source.counter false).program.command.declared := by
    decide +kernel
  have hstandard : ∀ s : Standard, s.spelling ≠ "Whole" := by
    intro s
    cases s <;> decide
  rw [h.read] at hany hdeclared
  obtain ⟨name, hname, hspelling⟩ := List.any_eq_true.1 hany
  exact ⟨program, A, log, name, h, hname, beq_iff_eq.1 hspelling, hdeclared, hstandard,
    h.check_misspelt name hname "Whole" hdeclared hstandard⟩

end Triangle
