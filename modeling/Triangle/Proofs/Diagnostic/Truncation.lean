import Triangle.Proofs.Diagnostic.Errors

/-!
# Logs up to their first error

A log that fails fast holds what any other log would hold, up to and including the first error.
`Log.truncated` cuts a log down to that, and it commutes with adding a diagnostic: so a computation
that only ever adds to its log cannot tell whether the log fails fast.

`Log.Grows` says that a log came of another by adding diagnostics.  Once a log has an error its
truncation does not change any more, however much is added.
-/

namespace Triangle

variable {ε : Type}

/-- Diagnostics up to and including the first error. -/
def Diagnostic.untilError : List (Diagnostic ε) → List (Diagnostic ε)
  | [] => []
  | diagnostic :: rest =>
    if diagnostic.severity = .error then [diagnostic] else diagnostic :: untilError rest

namespace Log

open Diagnostic

/-- What a log that fails fast holds in the place of this one. -/
def truncated (log : Log ε) : Log ε := ⟨true, untilError log.diagnostics⟩

theorem untilError_append_of_error {l : List (Diagnostic ε)} (more : List (Diagnostic ε))
    (h : l.countP (fun diagnostic => diagnostic.severity = .error) ≠ 0) :
    untilError (l ++ more) = untilError l := by
  induction l with
  | nil => simp at h
  | cons diagnostic rest ih =>
    rw [List.cons_append, untilError, untilError]
    split
    · rfl
    · rename_i hseverity
      rw [ih (by simpa [hseverity] using h)]

theorem untilError_of_no_error {l : List (Diagnostic ε)}
    (h : l.countP (fun diagnostic => diagnostic.severity = .error) = 0) : untilError l = l := by
  induction l with
  | nil => rfl
  | cons diagnostic rest ih =>
    rw [List.countP_eq_zero] at h
    have hseverity : ¬ diagnostic.severity = .error := by simpa using h diagnostic
    rw [untilError, if_neg hseverity, ih]
    rw [List.countP_eq_zero]
    exact fun other hother => h other (List.mem_cons_of_mem _ hother)

theorem countP_untilError (l : List (Diagnostic ε)) :
    (untilError l).countP (fun diagnostic => diagnostic.severity = .error) =
      min 1 (l.countP fun diagnostic => diagnostic.severity = .error) := by
  induction l with
  | nil => rfl
  | cons diagnostic rest ih =>
    rw [untilError]
    split
    · rename_i hseverity
      simp only [hseverity, decide_true, List.countP_cons_of_pos, List.countP_nil]
      omega
    · rename_i hseverity
      simp [hseverity, ih]

/-- A truncated log has at most one error. -/
theorem errors_truncated (log : Log ε) : log.truncated.errors = min 1 log.errors :=
  countP_untilError log.diagnostics

theorem truncated_of_no_error {log : Log ε} (h : log.errors = 0) :
    log.truncated = ⟨true, log.diagnostics⟩ := by
  rw [truncated, untilError_of_no_error h]

theorem halted_truncated {log : Log ε} (h : log.errors ≠ 0) : log.truncated.halted = true := by
  have herrors := errors_truncated log
  rw [halted, show log.truncated.failFast = true from rfl, Bool.true_and, decide_eq_true_eq]
  omega

/-- Adding to a log and truncating it commute. -/
theorem truncated_add (log : Log ε) (diagnostic : Diagnostic ε) :
    (log.add diagnostic).truncated = log.truncated.add diagnostic := by
  by_cases h : log.errors = 0
  · have hhalted : log.truncated.halted = false :=
      halted_eq_false (by rw [errors_truncated, h]; rfl)
    rw [add, halted_eq_false h, add, hhalted, truncated_of_no_error h]
    simp only [truncated, Bool.false_eq_true, if_false, Log.mk.injEq, true_and]
    -- The new diagnostic is the last one, whether or not it is an error.
    rw [errors] at h
    generalize log.diagnostics = l at h
    induction l with
    | nil => simp [untilError]
    | cons first rest ih =>
      rw [List.countP_eq_zero] at h
      have hseverity : ¬ first.severity = .error := by simpa using h first
      rw [List.cons_append, untilError, if_neg hseverity, ih]
      rw [List.countP_eq_zero]
      exact fun other hother => h other (List.mem_cons_of_mem _ hother)
  · rw [add, add, halted_truncated h, if_pos rfl]
    split
    · rfl
    · rw [truncated, untilError_append_of_error _ h]
      rfl

@[simp] theorem truncated_report (log : Log ε) (span : Span) (complaint : ε) :
    (log.report span complaint).truncated = log.truncated.report span complaint :=
  truncated_add log _

@[simp] theorem truncated_warn (log : Log ε) (span : Span) (complaint : ε) :
    (log.warn span complaint).truncated = log.truncated.warn span complaint :=
  truncated_add log _

/-! ## Logs that grow -/

/-- One log comes of the other by adding diagnostics. -/
def Grows (log log' : Log ε) : Prop := ∃ more : List (Diagnostic ε), log' = more.foldl add log

theorem Grows.refl (log : Log ε) : log.Grows log := ⟨[], rfl⟩

theorem Grows.trans {log log' log'' : Log ε} (h : log.Grows log') (h' : log'.Grows log'') :
    log.Grows log'' := by
  obtain ⟨more, rfl⟩ := h
  obtain ⟨more', rfl⟩ := h'
  exact ⟨more ++ more', List.foldl_append.symm⟩

theorem grows_add (log : Log ε) (diagnostic : Diagnostic ε) : log.Grows (log.add diagnostic) :=
  ⟨[diagnostic], rfl⟩

theorem grows_report (log : Log ε) (span : Span) (complaint : ε) :
    log.Grows (log.report span complaint) :=
  grows_add log _

theorem Grows.errors_le {log log' : Log ε} (h : log.Grows log') : log.errors ≤ log'.errors := by
  obtain ⟨more, rfl⟩ := h
  induction more generalizing log with
  | nil => exact Nat.le_refl _
  | cons diagnostic rest ih => exact Nat.le_trans (errors_add_le log diagnostic) ih

/-- A halted log stays as it is. -/
theorem Grows.eq_of_halted {log log' : Log ε} (h : log.Grows log') (hhalted : log.halted = true) :
    log' = log := by
  obtain ⟨more, rfl⟩ := h
  induction more with
  | nil => rfl
  | cons diagnostic rest ih => rwa [List.foldl_cons, add, if_pos hhalted]

theorem Grows.truncated {log log' : Log ε} (h : log.Grows log') :
    log.truncated.Grows log'.truncated := by
  obtain ⟨more, rfl⟩ := h
  induction more generalizing log with
  | nil => exact .refl _
  | cons diagnostic rest ih =>
    refine (grows_add _ diagnostic).trans ?_
    rw [← truncated_add]
    exact ih

/-- After an error a log only grows behind what a log that fails fast would hold. -/
theorem Grows.truncated_eq {log log' : Log ε} (h : log.Grows log') (herror : log.errors ≠ 0) :
    log'.truncated = log.truncated :=
  h.truncated.eq_of_halted (halted_truncated herror)

end Log

end Triangle
