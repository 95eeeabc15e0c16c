import Triangle.Proofs.Encoding.Translation
import Triangle.Proofs.Encoding.Sizes
import Triangle.Proofs.Folding.Renewal
import Triangle.Proofs.Typing.Coverage

/-!
# What is handed over to code generation

Code generation looks up types and referents without asking whether they are there.  For a program
that was accepted they are: every phrase, declaration and parameter that should have a type has one,
every type that is filed is one that a value can have, and every name that is used refers to
something that introduces a name of its spelling.  Folding keeps all that.

Three views of the same tree come together here.  The rules of typing say that an annotation is
there, the runs of the checker say that nothing else is and how a referent was found, and the runs
of folding say which spots are left.
-/

namespace Triangle

/-- A declaration introduces a name; those of the program are among the given sites. -/
def Referent.Introduces (Q : Site → Prop) (name : String) : Referent → Prop
  | .standard declaration => declaration.spelling = name
  | .node id => ∃ typed, Q (.binder id name typed)

/-- The annotations of a program are complete. -/
structure Program.Annotated (program : Program) (A : Annotations) : Prop where
  /-- Every site that has a type has one on file. -/
  typed : ∀ site ∈ program.command.sites, ∀ id, site.typed? = some id → (A.typeOf? id).isSome = true
  /-- Neither `any` nor `error` is in a type on file, its arrays have elements and its records
  fields of different names; so it takes up a word at least. -/
  proper : ∀ id τ, A.typeOf? id = some τ → τ.Proper ∧ 1 ≤ τ.words
  /-- Every name that is used refers to what introduces it. -/
  bound : ∀ name, .use name ∈ program.command.sites →
    ∃ referent, A.referentOf? name.mark.id = some referent ∧
      referent.Introduces (· ∈ program.command.sites) name.spelling

/-- What a name refers to at a spot introduces it. -/
theorem Program.introduces_of_find? {program : Program} {p : Spot} (hp : p ∈ program.spots)
    {name : String} {referent : Referent} (hfind : p.names.find? name = some referent) :
    referent.Introduces (· ∈ program.command.sites) name := by
  have hwithin := (program.within_spots p hp).find? hfind
  cases referent with
  | standard declaration => exact hwithin
  | node id =>
    obtain ⟨q, hq, ⟨typed, hsite⟩, -⟩ := hwithin
    exact ⟨typed, hsite ▸ Program.site_mem hq⟩

namespace Accepted

variable {source : Source} {failFast : Bool} {program : Program} {A : Annotations}
  {log : Log Problem}

/-- At its spot, a name refers to what is on file for it. -/
theorem exists_find? (h : Accepted source failFast program A log) {p : Spot} {name : Terminal}
    (hp : p ∈ program.spots) (hsite : p.site = .use name) :
    ∃ referent, A.referentOf? name.mark.id = some referent ∧
      p.names.find? name.spelling = some referent := by
  have hsettled := Program.settled_of_check h.checked h.correct p hp
  rw [Spot.Settled, hsite] at hsettled
  obtain ⟨referent, hreferent⟩ := Option.isSome_iff_exists.1 hsettled
  exact ⟨referent, hreferent, Program.find?_of_check h.checked
    (h.ids_perm.nodup_iff.2 List.nodup_range) hp hsite hreferent⟩

/-- The annotations of an accepted program are complete. -/
theorem annotated_plain (h : Accepted source failFast program A log) : program.Annotated A := by
  have hcovers := h.typed.covers fun _ _ hid => nomatch hid
  refine ⟨fun site hsite id hid => ?_, fun id τ hτ => ?_, fun name hname => ?_⟩
  · obtain ⟨τ, hτ, -⟩ := hcovers site hsite id hid
    exact Option.isSome_iff_exists.2 ⟨τ, hτ⟩
  · obtain ⟨site, hsite, hid⟩ := Program.typed_of_check h.checked hτ
    obtain ⟨σ, hσ, hproper⟩ := hcovers site hsite id hid
    obtain rfl := Option.some.inj (hσ.symm.trans hτ)
    exact ⟨hproper, hproper.words_pos⟩
  · rw [← program.map_site_spots] at hname
    obtain ⟨p, hp, hsite⟩ := List.mem_map.1 hname
    obtain ⟨referent, hreferent, hfind⟩ := h.exists_find? hp hsite
    exact ⟨referent, hreferent, Program.introduces_of_find? hp hfind⟩

/-- Folding keeps the annotations complete. -/
theorem annotated_folded (h : Accepted source failFast program A log) (log' : Log Problem) :
    (program.fold A log').program.Annotated (program.fold A log').annotations := by
  have hcovers := Command.Typed.covers (Command.Folds.typed h.typed _
    (Program.fold_folds program A log' fun _ hid => h.lt_issued hid)) fun _ _ hid => nomatch hid
  obtain ⟨t, ht, -, -, hrenews⟩ := program.fold_renews A log'
  rw [← ht] at hcovers ⊢
  refine ⟨fun site hsite id hid => ?_, fun id τ hτ => ?_, fun name hname => ?_⟩
  · obtain ⟨τ, hτ, -⟩ := hcovers site hsite id hid
    exact Option.isSome_iff_exists.2 ⟨τ, hτ⟩
  · obtain hold | rfl | rfl := hrenews.types id τ hτ
    · exact h.annotated_plain.proper id τ hold
    · exact ⟨trivial, Int.le_refl 1⟩
    · exact ⟨trivial, Int.le_refl 1⟩
  · rw [← Program.map_site_spots] at hname
    obtain ⟨p, hp, hsite⟩ := List.mem_map.1 hname
    obtain hold | hnew := hrenews.spots p hp
    · -- The surroundings of the name are those from before, and their declarations are still there.
      obtain ⟨referent, hreferent, hfind⟩ := h.exists_find? hold hsite
      have hid := program.command.filed.id_mem (Program.site_mem hold)
      have hlt : name.mark.id < program.issued := h.lt_issued (by rwa [hsite] at hid)
      exact ⟨referent, (hrenews.le.annotations _ hlt).referent.trans hreferent,
        Program.introduces_of_find? hp hfind⟩
    · rw [hsite] at hnew
      obtain ⟨-, -, declaration, hreferent, hspelling⟩ := hnew
      exact ⟨_, hreferent, hspelling⟩

/-- **The annotations are complete**: those of an accepted program, and those of the program after
its constants were folded. -/
theorem annotated (h : Accepted source failFast program A log) :
    program.Annotated A ∧
      ∀ log', (program.fold A log').program.Annotated (program.fold A log').annotations :=
  ⟨h.annotated_plain, h.annotated_folded⟩

/-- In the program that passes one procedure to another, the annotations are complete. -/
theorem relay_annotated :
    ∃ program A log, Accepted .relay false program A log ∧ program.Annotated A ∧
      ∀ log', (program.fold A log').program.Annotated (program.fold A log').annotations := by
  obtain ⟨_, _, _, htranslates⟩ := Translates.relay
  cases htranslates with
  | folded accepted => exact ⟨_, _, _, accepted, accepted.annotated⟩

end Accepted

end Triangle
