import Triangle.Diagnostic.Log

/-!
# Errors are never taken back

A log that has no error never had one: an error raises the count, unless the log has halted, and
then there is an error already.  Warnings do not count.
-/

namespace Triangle.Log

variable {ε : Type}

theorem errors_add_le (log : Log ε) (diagnostic : Diagnostic ε) :
    log.errors ≤ (log.add diagnostic).errors := by
  rw [add]
  split
  · exact Nat.le_refl _
  · simp [errors]

/-- After an error was reported, the count of errors is not zero. -/
@[simp] theorem errors_report_ne_zero (log : Log ε) (span : Span) (complaint : ε) :
    (log.report span complaint).errors ≠ 0 := by
  rw [report, add]
  split
  · rename_i h
    simp only [halted, Bool.and_eq_true, decide_eq_true_eq] at h
    omega
  · simp [errors]

/-- A log without errors takes further diagnostics. -/
theorem halted_eq_false {log : Log ε} (h : log.errors = 0) : log.halted = false := by
  simp [halted, h]

end Triangle.Log
