import Triangle.Proofs.Compiler.Handover
import Triangle.Proofs.Typing.Acceptance

/-!
# Checking a folded tree again

The tree that folding leaves is well typed by the annotations that folding leaves.  Checking it
afresh is another matter, because names are looked up again.  Where folding has kept a name, the
name refers to what it referred to before: no declaration was moved or dropped, so that every spot
that is left has the surroundings it had.  But `true` and `false`, which folding puts in for truth
values, are looked up like any other name, and a declaration of the program may hide them.

So the folded tree is accepted, with the types on file, if the names put in are not hidden; and a
program that hides them is accepted before folding and refused afterwards.
-/

namespace Triangle

/-! ## The spots of a folded tree -/

/-- A spot of a literal that is made after so many identities were handed out. -/
def Spot.Inserted (issued : Nat) (p : Spot) : Prop :=
  match p.site with
  | .phrase _ => True
  | .use name => issued ≤ name.mark.id
  | .binder _ _ _ => False

instance (issued : Nat) : (p : Spot) → Decidable (p.Inserted issued)
  | ⟨.phrase _, _, _⟩ => inferInstanceAs (Decidable True)
  | ⟨.use name, _, _⟩ => inferInstanceAs (Decidable (issued ≤ name.mark.id))
  | ⟨.binder _ _ _, _, _⟩ => inferInstanceAs (Decidable False)

theorem Spot.inserted_of_new {s t : FoldState} {p : Spot} (h : p.site.New s t) :
    p.Inserted s.issued := by
  obtain ⟨site, level, ρ⟩ := p
  cases site with
  | phrase id => trivial
  | use name => exact h.1
  | binder id name typed => exact h

/-! ## Programs -/

/-- The names that folding has put in refer, by the rules of scope, to what they were put in for. -/
def Folded.Unhidden (folded : Folded) (program : Program) : Prop :=
  ∀ p ∈ folded.program.spots, p.Inserted program.issued → p.Resolved folded.annotations

instance (folded : Folded) (program : Program) : Decidable (folded.Unhidden program) :=
  inferInstanceAs (Decidable (∀ p ∈ folded.program.spots, _ → _))

namespace Accepted

variable {source : Source} {failFast : Bool} {program : Program} {A : Annotations}
  {log : Log Problem}

/-- In an accepted program names refer to what is filed for them, and no scope has a name twice. -/
theorem resolved (h : Accepted source failFast program A log) {p : Spot} (hp : p ∈ program.spots) :
    p.Resolved A :=
  Program.resolved_of_check h.checked (h.ids_perm.nodup_iff.2 List.nodup_range) h.correct hp

/-- After folding, the names that were there before still do. -/
theorem resolved_folded (h : Accepted source failFast program A log) {log' : Log Problem}
    (hshown : (program.fold A log').Unhidden program) {p : Spot}
    (hp : p ∈ (program.fold A log').program.spots) :
    p.Resolved (program.fold A log').annotations := by
  obtain ⟨t, ht, -, -, hrenews⟩ := program.fold_renews A log'
  rcases hrenews.spots p hp with hold | hnew
  · have hresolved := h.resolved hold
    have hsite := Program.site_mem hold
    rw [← ht]
    obtain ⟨site, level, ρ⟩ := p
    cases site with
    | phrase id => trivial
    | binder id name typed => exact hresolved
    | use name =>
      have hlt : name.mark.id < program.issued := h.lt_issued (program.command.filed.id_mem hsite)
      exact (hrenews.le.annotations _ hlt).referent.trans hresolved
  · exact hshown p hp (Spot.inserted_of_new hnew)

/-- **Folding keeps a program checkable**, unless it puts in a name that is hidden.  Checking the
folded tree afresh reports nothing and gives every phrase the type that is on file. -/
theorem check_folded (h : Accepted source failFast program A log) (log' : Log Problem)
    (hshown : (program.fold A log').Unhidden program) (fresh : Bool) :
    ∃ A', (program.fold A log').program.check (.empty fresh) = .ok (A', .empty fresh) ∧
      ∀ id, .phrase id ∈ (program.fold A log').program.command.sites →
        ∃ τ, A'.typeOf? id = some τ ∧ (program.fold A log').annotations.typeOf? id = some τ :=
  Program.check_of_typed (Command.Folds.typed h.typed _
    (Program.fold_folds program A log' fun _ hid => h.lt_issued hid))
    (fun _ hp => h.resolved_folded hshown hp) (.empty fresh)

end Accepted

/-- A source that declares a name of its own for `true`, after a comparison that folding settles. -/
def Source.settled : Source :=
  ⟨"settled.tri", "let const t ~ 1 < 2; const true ~ 0 in if t then putint(true) else"⟩

theorem Accepted.settled_check_folded : ∃ program A log, Accepted .settled false program A log ∧
    (program.fold A log).counts.booleans = 1 ∧ (program.fold A log).Unhidden program ∧
    ∃ A', (program.fold A log).program.check (.empty false) = .ok (A', .empty false) ∧
      ∀ id, .phrase id ∈ (program.fold A log).program.command.sites →
        ∃ τ, A'.typeOf? id = some τ ∧ (program.fold A log).annotations.typeOf? id = some τ := by
  obtain ⟨program, A, log, h, hcount, hshown⟩ := @Accepted.of_any .settled false
    (fun program A log =>
      (program.fold A log).counts.booleans = 1 ∧ (program.fold A log).Unhidden program) _
    (by decide +kernel)
  exact ⟨program, A, log, h, hcount, hshown, h.check_folded log hshown false⟩

/-- A source that declares a name of its own for `true`, around a comparison that folding settles.
-/
def Source.hidden : Source :=
  ⟨"hidden.tri", "let const true ~ 0 in if 1 < 2 then putint(1) else putint(2)"⟩

/-- What folding puts in for the comparison is refused, because it is taken for the constant. -/
theorem Accepted.hidden_check_folded : ∃ program A log, Accepted .hidden false program A log ∧
    ∃ A' log', (program.fold A log).program.check (.empty false) = .ok (A', log') ∧
      log'.errors = 1 := by
  obtain ⟨program, A, log, h, hrefused⟩ := @Accepted.of_any .hidden false
    (fun program A log => ((program.fold A log).program.check (.empty false)).toOption.any
      (·.2.errors = 1) = true) _ (by decide +kernel)
  cases hcheck : (program.fold A log).program.check (.empty false) with
  | error cause =>
    rw [hcheck] at hrefused
    exact nomatch hrefused
  | ok found =>
    rw [hcheck] at hrefused
    exact ⟨program, A, log, h, found.1, found.2, hcheck, of_decide_eq_true hrefused⟩

end Triangle
