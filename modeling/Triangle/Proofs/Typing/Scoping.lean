import Triangle.Proofs.Diagnostic.Errors
import Triangle.Proofs.Runs
import Triangle.Typing.Check.Phrases

/-!
# Scopes and complaints while checking

Checking treats the scopes as a stack.  A step leaves them as they were, or it adds names to the
innermost scope and changes nothing else; and no error is ever taken back.  `Passes` and `Declares`
are these two relations between the states before and after, here for the steps that the check of a
phrase is made of.
-/

namespace Triangle

variable {scopes : Scopes} {name : String} {binding : Binding} {s : CheckState}

/-! ## Extending the innermost scope -/

namespace Scopes

/-- Names added to the innermost scope. -/
def extended (scopes : Scopes) (new : Scope) : Scopes :=
  match scopes.nested with
  | [] => { scopes with outermost := new ++ scopes.outermost }
  | scope :: rest => { scopes with nested := (new ++ scope) :: rest }

@[simp] theorem extended_nil (scopes : Scopes) : scopes.extended [] = scopes := by
  obtain ⟨outermost, _ | ⟨scope, rest⟩⟩ := scopes <;> rfl

@[simp] theorem extended_extended (scopes : Scopes) (new more : Scope) :
    (scopes.extended new).extended more = scopes.extended (more ++ new) := by
  obtain ⟨outermost, _ | ⟨scope, rest⟩⟩ := scopes <;> simp [extended]

/-- A name that can be entered comes first in the innermost scope. -/
theorem eq_extended_of_enter? {scopes' : Scopes} (h : scopes.enter? name binding = some scopes') :
    scopes' = scopes.extended [(name, binding)] := by
  rw [enter?] at h
  split at h
  · simp at h
  · obtain ⟨outermost, _ | ⟨scope, rest⟩⟩ := scopes <;> simpa [extended, eq_comm] using h

@[simp] theorem closed_extended_opened (scopes : Scopes) (new : Scope) :
    (scopes.opened.extended new).closed = scopes := by
  simp [opened, extended, closed]

@[simp] theorem innermost_extended_opened (scopes : Scopes) (new : Scope) :
    (scopes.opened.extended new).innermost = new := by
  simp [opened, extended, innermost]

end Scopes

/-! ## What scopes tell of their names

Of what a scope keeps for a name, a statement is often about one part alone. -/

section

variable {γ : Type} (part : Binding → γ)

/-- A part of what a scope keeps for its names. -/
def Scope.view (scope : Scope) : List (String × γ) :=
  scope.map fun entry => (entry.1, part entry.2)

/-- A part of what nested scopes keep for their names, the innermost scope first. -/
def Scopes.view (scopes : Scopes) : List (List (String × γ)) :=
  (scopes.nested ++ [scopes.outermost]).map (Scope.view part)

theorem Scope.lookup_view (name : String) :
    (scope : Scope) → (scope.view part).lookup name = (scope.lookup name).map part
  | [] => rfl
  | (x, binding) :: rest => by
    have ih := Scope.lookup_view name rest
    rw [Scope.view] at ih ⊢
    rw [List.map_cons, List.lookup_cons, List.lookup_cons]
    cases name == x with
    | true => rfl
    | false => exact ih

namespace Scopes

/-- Finding a name and taking a part of its binding can be done in either order. -/
theorem findSome?_view (scopes : Scopes) (name : String) :
    (scopes.view part).findSome? (List.lookup name) = (scopes.find? name).map part := by
  rw [view, find?, List.findSome?_map]
  generalize scopes.nested ++ [scopes.outermost] = all
  induction all with
  | nil => rfl
  | cons scope rest ih =>
    rw [List.findSome?_cons, List.findSome?_cons, Function.comp_apply, Scope.lookup_view]
    cases scope.lookup name with
    | none => exact ih
    | some binding => rfl

theorem headD_view (scopes : Scopes) :
    (scopes.view part).headD [] = scopes.innermost.view part := by
  obtain ⟨outermost, _ | ⟨scope, rest⟩⟩ := scopes <;> rfl

theorem view_extended (scopes : Scopes) (name : String) (binding : Binding) :
    (scopes.extended [(name, binding)]).view part =
      ((name, part binding) :: (scopes.view part).headD []) :: (scopes.view part).tail := by
  obtain ⟨outermost, _ | ⟨scope, rest⟩⟩ := scopes <;> rfl

theorem view_extended_opened (scopes : Scopes) (new : Scope) :
    (scopes.opened.extended new).view part = new.view part :: scopes.view part := by
  simp [view, opened, extended]

/-- A name can be entered where the innermost scope does not show it. -/
theorem lookup_headD_view_eq_none_iff :
    ((scopes.view part).headD []).lookup name = none ↔
      ∃ scopes', scopes.enter? name binding = some scopes' := by
  rw [headD_view, Scope.lookup_view, Option.map_eq_none_iff, enter?]
  split
  · rename_i h
    simp [Option.isSome_iff_ne_none.1 h]
  · rename_i h
    rw [Option.not_isSome_iff_eq_none] at h
    obtain ⟨outermost, _ | ⟨scope, rest⟩⟩ := scopes <;> simp [h]

end Scopes

end

/-! ## Relations between states -/

/-- No error was reported so far. -/
def CheckState.Clean (s : CheckState) : Prop := s.log.errors = 0

/-- The scopes are as before, and no error was taken back. -/
structure Passes (s s' : CheckState) : Prop where
  scopes : s'.scopes = s.scopes
  clean : s'.Clean → s.Clean

/-- The innermost scope has gained names, and no error was taken back. -/
structure Declares (s s' : CheckState) : Prop where
  scopes : ∃ new, s'.scopes = s.scopes.extended new
  clean : s'.Clean → s.Clean

theorem Passes.refl (s : CheckState) : Passes s s := ⟨rfl, id⟩

theorem Passes.trans {s t u : CheckState} (h₁ : Passes s t) (h₂ : Passes t u) : Passes s u :=
  ⟨h₂.scopes.trans h₁.scopes, h₁.clean ∘ h₂.clean⟩

theorem Passes.declares {s' : CheckState} (h : Passes s s') : Declares s s' :=
  ⟨⟨[], by rw [Scopes.extended_nil, h.scopes]⟩, h.clean⟩

/-- The names of both runs are declared, the later ones first. -/
theorem Declares.trans {t u : CheckState} (h₁ : Declares s t) (h₂ : Declares t u) :
    Declares s u := by
  obtain ⟨new, hnew⟩ := h₁.scopes
  obtain ⟨more, hmore⟩ := h₂.scopes
  exact ⟨⟨more ++ new, by rw [hmore, hnew, Scopes.extended_extended]⟩, h₁.clean ∘ h₂.clean⟩

/-- Every run of a step passes. -/
abbrev Passing {α : Type} (x : Check α) : Prop := Along Passes x

/-- Every run of a step declares. -/
abbrev Declaring {α : Type} (x : Check α) : Prop := Along Declares x

section

variable {α β : Type}

theorem Passing.pure (a : α) : Passing (pure a) := Along.pure Passes.refl a

theorem Passing.bind {x : Check α} {f : α → Check β} (hx : Passing x) (hf : ∀ a, Passing (f a)) :
    Passing (x >>= f) :=
  Along.bind (fun _ _ _ h₁ h₂ => h₁.trans h₂) hx hf

theorem Passing.get : Passing get := Along.get Passes.refl

/-- Recording something changes neither scopes nor log. -/
theorem Passing.modify {f : CheckState → CheckState}
    (h : ∀ s, (f s).scopes = s.scopes ∧ (f s).log = s.log) :
    Passing (modify f) := by
  refine Along.modify fun s => ⟨(h s).1, fun hclean => ?_⟩
  rwa [CheckState.Clean, (h s).2] at hclean

theorem Passing.declaring {x : Check α} (h : Passing x) : Declaring x :=
  fun s a s' hrun => (h s a s' hrun).declares

theorem Declaring.bind {x : Check α} {f : α → Check β} (hx : Declaring x)
    (hf : ∀ a, Declaring (f a)) : Declaring (x >>= f) :=
  Along.bind (fun _ _ _ h₁ h₂ => h₁.trans h₂) hx hf

end

/-! ## The steps of checking -/

namespace Check

theorem passing_report (span : Span) (fault : ContextFault) : Passing (report span fault) := by
  refine Along.modify fun s => ⟨rfl, fun h => ?_⟩
  exact absurd h (Log.errors_report_ne_zero _ _ _)

theorem passing_require (expected found : Ty) (span : Span) :
    Passing (require expected found span) := by
  rw [require]
  split
  · exact .pure _
  · exact passing_report _ _

theorem passing_typed (id : NodeId) (ty : Ty) : Passing (typed id ty) := by
  refine .bind (.modify fun _ => ?_) fun _ => .pure _
  exact ⟨rfl, rfl⟩

theorem yields_resolve_some {name : Terminal} (h : s.scopes.find? name.spelling = some binding) :
    Yields (resolve name) s (some binding.meaning)
      { s with annotations := s.annotations.withReferent name.mark.id binding.referent } := by
  simp only [resolve, yields_bind, yields_get]
  refine ⟨s, s, ⟨rfl, rfl⟩, ?_⟩
  rw [h]
  exact yields_bind.2 ⟨(), _, yields_modify.2 rfl, yields_pure.2 ⟨rfl, rfl⟩⟩

theorem yields_resolve_none {name : Terminal} {s : CheckState}
    (h : s.scopes.find? name.spelling = none) :
    Yields (resolve name) s none
      { s with log := s.log.report name.mark.span (.contextual (.undeclared name.spelling)) } := by
  simp only [resolve, yields_bind, yields_get]
  refine ⟨s, s, ⟨rfl, rfl⟩, ?_⟩
  rw [h]
  exact yields_bind.2 ⟨(), _, yields_modify.2 rfl, yields_pure.2 ⟨rfl, rfl⟩⟩

theorem passing_resolve (name : Terminal) : Passing (resolve name) := by
  refine Passing.get.bind fun state => ?_
  split
  · refine .bind (.modify fun _ => ?_) fun _ => .pure _
    exact ⟨rfl, rfl⟩
  · exact (passing_report _ _).bind fun _ => .pure _

theorem passing_named (id : NodeId) (ty : Ty) (assignable : Bool) :
    Passing (named id ty assignable) := by
  refine (passing_typed id ty).bind fun _ => ?_
  split
  · refine .bind (.modify fun _ => ?_) fun _ => .pure _
    exact ⟨rfl, rfl⟩
  · exact .pure _

/-- The name is entered, or complained about and the scopes left alone. -/
theorem declaring_declare (name : Terminal) (declaration : NodeId) (meaning : Meaning) :
    Declaring (declare name declaration meaning) := by
  intro s a s' h
  simp only [declare, yields_bind, yields_get] at h
  obtain ⟨_, _, ⟨rfl, rfl⟩, h⟩ := h
  split at h
  · rename_i scopes heq
    obtain rfl := yields_modify.1 h
    exact ⟨⟨_, Scopes.eq_extended_of_enter? heq⟩, id⟩
  · exact (passing_report _ _ _ _ _ h).declares

end Check

/-- What was declared in a scope is forgotten when the scope is closed. -/
theorem Declares.closed {s t : CheckState}
    (h : Declares { s with scopes := s.scopes.opened } t) :
    Passes s { t with scopes := t.scopes.closed } := by
  obtain ⟨new, hnew⟩ := h.scopes
  refine ⟨?_, h.clean⟩
  simp only [hnew, Scopes.closed_extended_opened]

end Triangle
