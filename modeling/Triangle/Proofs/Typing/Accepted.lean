import Triangle.Proofs.Parsing.Trees
import Triangle.Proofs.Typing.Soundness

/-!
# Accepted programs

A program is accepted if it is read and checked without an error.  What the phases after checking
rely on is collected here: its nodes have identities of their own, nothing in it is missing, and it
is well typed.
-/

namespace Triangle

variable {program : Program} {log : Log Problem} {A : Annotations} {F : Selectable}

/-- Checking a program is checking its command with the standard names. -/
theorem Program.check_eq_ok_iff {log' : Log Problem} :
    program.check log = .ok (A, log') ↔ ∃ s' : CheckState,
      Yields program.command.check ⟨.initial, .empty, log⟩ () s' ∧ s'.annotations = A ∧
        s'.log = log' := by
  rw [Program.check, bind_eq_ok_iff]
  constructor
  · rintro ⟨⟨_, s'⟩, h, heq⟩
    cases heq
    exact ⟨s', h, rfl, rfl⟩
  · rintro ⟨s', h, rfl, rfl⟩
    exact ⟨((), s'), h, rfl⟩

/-- The tree of a source, with its annotations, if neither reading nor checking reports an error. -/
structure Accepted (source : Source) (failFast : Bool) (program : Program) (A : Annotations)
    (log : Log Problem) : Prop where
  read : (parse source failFast).program = program
  readable : (parse source failFast).log.errors = 0
  checked : program.check (parse source failFast).log = .ok (A, log)
  correct : log.errors = 0

namespace Accepted

variable {source : Source} {failFast : Bool} {program : Program} {A : Annotations}
  {log : Log Problem}

theorem ids_perm (h : Accepted source failFast program A log) :
    program.ids.Perm (List.range program.issued) := by
  rw [← h.read]
  exact parse_ids source failFast

theorem ids_nodup (h : Accepted source failFast program A log) : program.command.ids.Nodup := by
  have hnodup : program.ids.Nodup := h.ids_perm.nodup_iff.2 List.nodup_range
  exact (List.nodup_append.1 hnodup).1

/-- The identities of the nodes were handed out before. -/
theorem lt_issued (h : Accepted source failFast program A log) {id : NodeId}
    (hid : id ∈ program.command.ids) : id < program.issued :=
  List.mem_range.1 (h.ids_perm.mem_iff.1 (List.mem_append_left _ hid))

theorem typed_and_wellTyped (h : Accepted source failFast program A log) (hF : F.Lenient) :
    program.command.Typed A .empty ∧ program.WellTyped F := by
  have hcomplete : program.command.Complete := by
    rw [← h.read]
    exact parse_complete h.readable
  obtain ⟨s', hrun, rfl, rfl⟩ := Program.check_eq_ok_iff.1 h.checked
  have hready : Ready .empty .standard ⟨.initial, .empty, (parse source failFast).log⟩
      program.command.ids :=
    ⟨Context.Covers.initial, CheckState.names_initial _, fun _ _ => rfl, h.ids_nodup⟩
  have hfinds := (program.command.check_typed hF hcomplete).finds hrun h.correct hready
  exact hfinds.final h.ids_nodup fun _ _ hid => nomatch hid

/-- An accepted program is well typed. -/
theorem typed (h : Accepted source failFast program A log) : program.command.Typed A .empty :=
  (h.typed_and_wellTyped Fields.lenient_any).1

/-- An accepted program is well typed by the rules for names. -/
theorem wellTyped (h : Accepted source failFast program A log) (hF : F.Lenient) :
    program.WellTyped F :=
  (h.typed_and_wellTyped hF).2

end Accepted

/-- The tree of a source, its annotations and the log, if nothing is reported. -/
def Source.accepted? (source : Source) (failFast : Bool) :
    Option (Program × Annotations × Log Problem) :=
  let parsed := parse source failFast
  if parsed.log.errors = 0 then
    match parsed.program.check parsed.log with
    | .ok (A, log) => if log.errors = 0 then some (parsed.program, A, log) else none
    | .error _ => none
  else none

theorem Accepted.of_accepted? {source : Source} {failFast : Bool}
    (h : source.accepted? failFast = some (program, A, log)) :
    Accepted source failFast program A log := by
  simp only [Source.accepted?] at h
  split at h
  · rename_i hreadable
    split at h
    · rename_i hchecked
      split at h
      · rename_i hcorrect
        cases h
        exact ⟨rfl, hreadable, hchecked, hcorrect⟩
      · cases h
    · cases h
  · cases h

theorem Accepted.of_isSome {source : Source} {failFast : Bool}
    (h : (source.accepted? failFast).isSome = true) :
    ∃ program A log, Accepted source failFast program A log := by
  obtain ⟨⟨program, A, log⟩, h⟩ := Option.isSome_iff_exists.1 h
  exact ⟨program, A, log, .of_accepted? h⟩

/-- What can be computed about an accepted source. -/
theorem Accepted.of_any {source : Source} {failFast : Bool}
    {p : Program → Annotations → Log Problem → Prop} [∀ program A log, Decidable (p program A log)]
    (h : ((source.accepted? failFast).any fun found => p found.1 found.2.1 found.2.2) = true) :
    ∃ program A log, Accepted source failFast program A log ∧ p program A log := by
  obtain ⟨⟨program, A, log⟩, hfound, hp⟩ := (Option.any_eq_true _ _).1 h
  exact ⟨program, A, log, .of_accepted? hfound, of_decide_eq_true hp⟩

/-- A source in which a loop passes one procedure to another, with constants to fold. -/
def Source.relay : Source :=
  ⟨"relay.tri", "let const n ~ 2 * 5; var s: Integer; proc apply(proc p(k: Integer)) ~ p(n); " ++
    "proc add(k: Integer) ~ s := s + k in begin s := 0; while s < 20 do apply(proc add); " ++
    "putint(s) end"⟩

end Triangle
