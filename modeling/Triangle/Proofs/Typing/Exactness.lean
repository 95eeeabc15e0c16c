import Mathlib.Data.Fintype.EquivFin
import Triangle.Proofs.Typing.Recovery

/-!
# The checker decides the typing rules

A program that was read without an error is checked without one exactly if it is well typed.  That
it is well typed then is what checking establishes; that nothing is complained about if it is well
typed is how checking recovers, where no name is misspelt.
-/

namespace Triangle

/-- A well-typed program is checked without a complaint, unless a field that it selects cannot be
located. -/
theorem Program.check_of_wellTyped {program : Program} {F : Selectable} (h : program.WellTyped F)
    (log : Log Problem) :
    (∃ A, program.check log = .ok (A, log)) ∨
      (¬ F.Exact ∧ ∀ A log', program.check log ≠ .ok (A, log')) := by
  -- the program is misspelt at a node that it does not have
  obtain ⟨id, hid⟩ := Infinite.exists_notMem_finset program.command.ids.toFinset
  obtain ⟨x, hx⟩ := Infinite.exists_notMem_finset
    (program.command.declared ++ Standard.all.map Standard.spelling).toFinset
  rw [List.mem_toFinset, List.mem_append, not_or] at hx
  obtain ⟨hle, hself⟩ := program.command.hits_misspelt id x
  rw [List.count_eq_zero_of_not_mem fun h => hid (List.mem_toFinset.2 h)] at hle
  have hhits : hits id program.command.uses = [] := List.length_eq_zero_iff.1 (Nat.le_zero.1 hle)
  have hstart := CheckState.names_initial log
  have hstandard : ∀ s : Standard, s.spelling ≠ x := by
    rintro s rfl
    exact hx.2 (List.mem_map_of_mem (by cases s <;> decide))
  have hrecovers := @Command.recovers_check F id x program.command _ Names.regular_standard h
    (by rw [hhits]; exact Nat.zero_le 1) hx.1 ⟨.initial, .empty, log⟩ (hstart ▸ .refl _)
    (hstart ▸ Names.lacks_standard hstandard)
  rw [hhits, hself hhits] at hrecovers
  obtain ⟨_, s', hrun, -, -, -, hlog⟩ | ⟨hF, hno⟩ := hrecovers
  · exact .inl ⟨s'.annotations, Program.check_eq_ok_iff.2 ⟨s', hrun, rfl, hlog⟩⟩
  · refine .inr ⟨hF, fun A log' hcheck => ?_⟩
    obtain ⟨s', hrun, -⟩ := Program.check_eq_ok_iff.1 hcheck
    exact hno () s' hrun

/-- A program that was read without an error is checked without one exactly if it is well typed and
every field that it selects can be located; and if checking it ends at all, then without an error
exactly if it is well typed. -/
theorem Program.check_errors_iff {source : Source} {failFast : Bool}
    (hread : (parse source failFast).log.errors = 0) :
    ((∃ A log, (parse source failFast).program.check (parse source failFast).log = .ok (A, log) ∧
        log.errors = 0) ↔ (parse source failFast).program.WellTyped Fields.Located) ∧
      ∀ A log, (parse source failFast).program.check (parse source failFast).log = .ok (A, log) →
        (log.errors = 0 ↔ (parse source failFast).program.WellTyped Fields.Any) := by
  refine ⟨⟨?_, fun hwell => ?_⟩, fun A log h => ⟨fun hclean => ?_, fun hwell => ?_⟩⟩
  · rintro ⟨A, log, h, hclean⟩
    exact Accepted.wellTyped ⟨rfl, hread, h, hclean⟩ Fields.lenient_located
  · obtain ⟨A, h⟩ | ⟨hexact, -⟩ := Program.check_of_wellTyped hwell (parse source failFast).log
    · exact ⟨A, _, h, hread⟩
    · exact absurd (fun _ _ h => h) hexact
  · exact Accepted.wellTyped ⟨rfl, hread, h, hclean⟩ Fields.lenient_any
  · obtain ⟨A', h'⟩ | ⟨-, hno⟩ := Program.check_of_wellTyped hwell (parse source failFast).log
    · cases h.symm.trans h'
      exact hread
    · exact absurd h (hno A log)

set_option maxRecDepth 100000 in
theorem Program.relay_check_errors_iff :
    (parse Source.relay false).log.errors = 0 ∧
      (parse Source.relay false).program.WellTyped Fields.Located := by
  obtain ⟨_, A, log, rfl, hread, hchecked, hcorrect⟩ :=
    @Accepted.of_isSome Source.relay false (by decide +kernel)
  exact ⟨hread, (Program.check_errors_iff hread).1.1 ⟨A, log, hchecked, hcorrect⟩⟩

/-- A source with a field behind more words than can be counted. -/
def Source.wide : Source :=
  ⟨"wide.tri", "let var r: record a: array 32767 of array 32767 of array 32767 of Integer, " ++
    "b: Integer end in r.b := 1"⟩

/-- The command of that source, whatever its marks. -/
def Command.isWide : Command → Bool
  | .letIn _ (.var _ r (.record _ (.multiple _ a
      (.array _ n (.array _ n' (.array _ n'' (.simple _ of)))) (.single _ b (.simple _ of')))))
      (.assign _ (.dot _ (.simple _ r') b') (.integer _ _)) =>
    r.spelling == "r" && a.spelling == "a" && n.spelling == "32767" && n'.spelling == "32767" &&
      n''.spelling == "32767" && of.spelling == "Integer" && b.spelling == "b" &&
      of'.spelling == "Integer" && r'.spelling == "r" && b'.spelling == "b"
  | _ => false

theorem Command.wellTyped_of_isWide {command : Command} (h : command.isWide = true) :
    command.WellTyped Fields.Any .standard := by
  unfold Command.isWide at h
  split at h
  · simp only [Bool.and_eq_true, beq_iff_eq] at h
    obtain ⟨⟨⟨⟨⟨⟨⟨⟨⟨hr, ha⟩, hn⟩, hn'⟩, hn''⟩, hof⟩, hb⟩, hof'⟩, hr'⟩, hb'⟩ := h
    have hinteger : ∀ {m name}, name.spelling = "Integer" →
        (TypeDenoter.simple m name).StandsFor ([] :: Names.standard) .int := by
      intro m name hname
      refine .simple ?_
      rw [hname]
      rfl
    have harray : ∀ {m n element τ}, n.spelling = "32767" →
        TypeDenoter.StandsFor ([] :: Names.standard) element τ →
        (TypeDenoter.array m n element).StandsFor ([] :: Names.standard) (.array 32767 τ) := by
      intro m n element τ hn helement
      refine .array ?_ (by decide) helement
      rw [hn]
      decide +kernel
    refine .letIn (.var (.record (.multiple (harray hn (harray hn' (harray hn'' (hinteger hof))))
      (.single (hinteger hof')) ?_)) ?_) (.assign (.dot (.var (τ := .record ?types) ?_) ?_ trivial)
      .integer)
    case types =>
      exact .cons "a" (.array 32767 (.array 32767 (.array 32767 .int))) (.cons "b" .int .nil)
    · rw [ha, hb]
      decide
    · rfl
    · rw [hr, hr', ha, hb]
      rfl
    · rw [hb']
      rfl
  · cases h

/-- A program can be well typed without its check coming to an end. -/
theorem Program.check_wide :
    (parse Source.wide false).log.errors = 0 ∧
      (parse Source.wide false).program.WellTyped Fields.Any ∧
      ∀ A log, (parse Source.wide false).program.check (parse Source.wide false).log ≠
        .ok (A, log) := by
  refine ⟨by decide +kernel, Command.wellTyped_of_isWide (by decide +kernel), ?_⟩
  intro A log h
  have hfails : ((parse Source.wide false).program.check (parse Source.wide false).log).toBool =
      false := by
    decide +kernel
  rw [h] at hfails
  cases hfails

end Triangle
