import Triangle.Proofs.Encoding.Runs
import Triangle.Proofs.Folding.Renewal
import Triangle.Proofs.Folding.Typing
import Triangle.Proofs.Typing.Accepted

/-!
# Translations

The code that comes of an accepted source, with its constants folded or as it is, if generating it
reports nothing.  What is proved of code rests on three facts, which are put together here: the tree
that the code was generated from is well typed, folded or not, no two of its nodes have the same
identity, and the code is the one that the relation of `Encoding.Emission` gives it.
-/

namespace Triangle

/-- The code of a source, with the tree and the annotations that it was generated from. -/
inductive Translates (source : Source) (failFast : Bool) :
    (folding : Bool) → Program → Annotations → ObjectCode → Prop
  | plain {program : Program} {A : Annotations} {log log' : Log Problem} {object : ObjectCode}
    (accepted : Accepted source failFast program A log)
    (encoded : program.encode A log = .ok (object, log')) (unrestricted : log'.errors = 0) :
    Translates source failFast false program A object
  | folded {program : Program} {A : Annotations} {log log' : Log Problem} {object : ObjectCode}
    (accepted : Accepted source failFast program A log)
    (encoded : (program.fold A log).program.encode (program.fold A log).annotations
      (program.fold A log).log = .ok (object, log'))
    (unrestricted : log'.errors = 0) :
    Translates source failFast true (program.fold A log).program (program.fold A log).annotations
      object

namespace Translates

variable {source : Source} {failFast folding : Bool} {program : Program} {A : Annotations}
  {object : ObjectCode}

theorem typed (h : Translates source failFast folding program A object) :
    program.command.Typed A .empty := by
  cases h with
  | plain accepted => exact accepted.typed
  | folded accepted =>
    exact Command.Folds.typed accepted.typed _
      (Program.fold_folds _ _ _ fun _ hid => accepted.lt_issued hid)

theorem ids_nodup (h : Translates source failFast folding program A object) :
    program.command.ids.Nodup := by
  cases h with
  | plain accepted => exact accepted.ids_nodup
  | folded accepted =>
    exact (Program.fold_ids _ _ _ accepted.ids_nodup fun _ hid => accepted.lt_issued hid).1

theorem generated (h : Translates source failFast folding program A object) :
    ∃ s q, program.Generated A object s q := by
  cases h with
  | plain _ encoded unrestricted => exact Program.encode_generated encoded unrestricted
  | folded _ encoded unrestricted => exact Program.encode_generated encoded unrestricted

theorem emits (h : Translates source failFast folding program A object) :
    ∃ trace, program.Emits A object.instructions trace := by
  cases h with
  | plain _ encoded unrestricted => exact Program.encode_emits encoded unrestricted
  | folded _ encoded unrestricted => exact Program.encode_emits encoded unrestricted

end Translates

/-! ## Translations can be computed -/

/-- The code of a source, with the tree and the annotations that it was generated from, if nothing
is reported. -/
def Source.translation? (source : Source) (failFast folding : Bool) :
    Option (Program × Annotations × ObjectCode) :=
  let parsed := parse source failFast
  if parsed.log.errors = 0 then
    match parsed.program.check parsed.log with
    | .ok (A, log) =>
      if log.errors = 0 then
        let folded := parsed.program.fold A log
        let input := if folding then (folded.program, folded.annotations, folded.log) else
          (parsed.program, A, log)
        match input.1.encode input.2.1 input.2.2 with
        | .ok (object, log') =>
          if log'.errors = 0 then some (input.1, input.2.1, object) else none
        | .error _ => none
      else none
    | .error _ => none
  else none

/-- What is computed is a translation. -/
theorem Translates.of_translation? {source : Source} {failFast folding : Bool} {program : Program}
    {A : Annotations} {object : ObjectCode}
    (h : source.translation? failFast folding = some (program, A, object)) :
    Translates source failFast folding program A object := by
  simp only [Source.translation?] at h
  split at h
  · rename_i hreadable
    split at h
    · rename_i B log hchecked
      split at h
      · rename_i hcorrect
        split at h
        · rename_i hencoded
          split at h
          · rename_i hunrestricted
            have haccepted : Accepted source failFast _ B log :=
              ⟨rfl, hreadable, hchecked, hcorrect⟩
            cases folding with
            | false =>
              cases h
              exact .plain haccepted hencoded hunrestricted
            | true =>
              cases h
              exact .folded haccepted hencoded hunrestricted
          · cases h
        · cases h
      · cases h
    · cases h
  · cases h

theorem Translates.of_isSome {source : Source} {failFast folding : Bool}
    (h : (source.translation? failFast folding).isSome = true) :
    ∃ program A object, Translates source failFast folding program A object := by
  obtain ⟨⟨program, A, object⟩, h⟩ := Option.isSome_iff_exists.1 h
  exact ⟨program, A, object, .of_translation? h⟩

set_option maxRecDepth 100000 in
theorem Translates.relay :
    ∃ program A object, Translates .relay false true program A object :=
  Translates.of_isSome (by decide +kernel)

end Triangle
