import Triangle.Machine.CodeStore

/-!
# A code store of any size

The code store drops what does not fit, but labels and targets are addresses in it, so it is not
obvious that dropping does no harm: a jump is stored before its target is known, and by then the
store may be full.  Here it is compared with a store that never drops anything.  Whatever is done to
both, the first holds the beginning of what the second holds, except that a target beyond its end
has become its end.
-/

namespace Triangle

namespace CodeStore

/-- Something that is done to a code store. -/
inductive Step where
  /-- An instruction is stored. -/
  | emit (instruction : Instruction)
  /-- A forward jump is stored, and its label is kept. -/
  | forward (instruction : Instruction)
  /-- The jump with one of the labels kept, by its number, is patched. -/
  | patch (jump : Nat)

/-- Does one step, with the labels that were kept. -/
def Step.run : CodeStore × List Nat → Step → CodeStore × List Nat
  | (store, labels), .emit instruction => (store.emit instruction, labels)
  | (store, labels), .forward instruction =>
    (store.emit instruction, labels ++ [store.nextAddress])
  | (store, labels), .patch jump =>
    match labels[jump]? with
    | some label => (store.patch label, labels)
    | none => (store, labels)

/-- Does some steps, one after the other, from an empty store on. -/
def run (steps : List Step) : CodeStore × List Nat :=
  steps.foldl Step.run (empty, [])

end CodeStore

/-- A store for any amount of code. -/
structure Scroll where
  /-- What was stored so far, and of each instruction whether it was patched. -/
  code : List (Instruction × Bool) := []
  /-- The labels that were kept. -/
  labels : List Nat := []

namespace Scroll

/-- Stores an instruction. -/
def emit (scroll : Scroll) (instruction : Instruction) : Scroll :=
  { scroll with code := scroll.code ++ [(instruction, false)] }

/-- Makes the next address the operand of the instruction at an address. -/
def patch (scroll : Scroll) (label : Nat) : Scroll :=
  { scroll with
    code := scroll.code.modify label fun item => ({ item.1 with d := scroll.code.length }, true) }

/-- Does one step. -/
def step (scroll : Scroll) : CodeStore.Step → Scroll
  | .emit instruction => scroll.emit instruction
  | .forward instruction =>
    { scroll.emit instruction with labels := scroll.labels ++ [scroll.code.length] }
  | .patch jump =>
    match scroll.labels[jump]? with
    | some label => scroll.patch label
    | none => scroll

/-- Does some steps, one after the other, from an empty store on. -/
def run (steps : List CodeStore.Step) : Scroll :=
  steps.foldl step {}

end Scroll

/-- An instruction as the code store has it: a target that was patched in is at most its end. -/
def Instruction.confined (item : Instruction × Bool) : Instruction :=
  if item.2 then { item.1 with d := min item.1.d Machine.codeSize } else item.1

/-- A target that is patched in is at most the end of the code store, whatever was there before. -/
theorem Instruction.confined_patched (item : Instruction × Bool) (target : Nat) :
    confined ({ item.1 with d := target }, true) =
      { confined item with d := (min Machine.codeSize target : Nat) } := by
  obtain ⟨instruction, patched⟩ := item
  have hmin : min (target : Int) Machine.codeSize = (min Machine.codeSize target : Nat) := by omega
  cases patched <;> simp [confined, hmin]

namespace CodeStore

/-- A code store and the labels kept for it are the beginning of a scroll. -/
structure Truncates (store : CodeStore) (labels : List Nat) (scroll : Scroll) : Prop where
  code : store.code = (scroll.code.take Machine.codeSize).map Instruction.confined
  overflowed : store.overflowed = true ↔ Machine.codeSize < scroll.code.length
  labels : labels = scroll.labels.map (min · Machine.codeSize)

namespace Truncates

variable {store : CodeStore} {labels : List Nat} {scroll : Scroll}

theorem length (h : Truncates store labels scroll) :
    store.code.length = min Machine.codeSize scroll.code.length := by
  simp [h.code]

theorem emit (h : Truncates store labels scroll) (instruction : Instruction) :
    Truncates (store.emit instruction) labels (scroll.emit instruction) := by
  have hlength := h.length
  have hcode : (scroll.emit instruction).code.length = scroll.code.length + 1 := List.length_append
  rw [CodeStore.emit]
  split
  · have hall : scroll.code.take Machine.codeSize = scroll.code := List.take_of_length_le (by omega)
    refine ⟨?_, h.overflowed.trans (by omega), h.labels⟩
    rw [List.take_of_length_le (by omega), Scroll.emit, List.map_append, h.code, hall]
    rfl
  · refine ⟨?_, iff_of_true rfl (by omega), h.labels⟩
    rw [Scroll.emit, List.take_append_of_le_length (by omega), h.code]

theorem patch (h : Truncates store labels scroll) (label : Nat) :
    Truncates (store.patch (min label Machine.codeSize)) labels (scroll.patch label) := by
  refine ⟨List.ext_getElem? fun i => ?_, ?_, h.labels⟩
  · simp only [CodeStore.patch, CodeStore.nextAddress, Scroll.patch, List.getElem?_modify,
      List.getElem?_map, List.getElem?_take, h.code, List.length_map, List.length_take]
    rcases Nat.lt_or_ge i Machine.codeSize with hi | hi
    · have hmin : min label Machine.codeSize = i ↔ label = i := by omega
      rw [if_pos hi, if_pos hi]
      cases scroll.code[i]? with
      | none => rfl
      | some item =>
        simp only [Option.map_some, Option.map_eq_map, hmin]
        split
        · rw [Instruction.confined_patched]
        · rfl
    · simp [Nat.not_lt.2 hi]
  · rw [overflowed_patch, h.overflowed, Scroll.patch, List.length_modify]

/-- **What one step preserves.** -/
theorem step {real : CodeStore × List Nat} (h : Truncates real.1 real.2 scroll) (step : Step) :
    Truncates (step.run real).1 (step.run real).2 (scroll.step step) := by
  cases step with
  | emit instruction => exact h.emit instruction
  | forward instruction =>
    have hemit := h.emit instruction
    refine ⟨hemit.code, hemit.overflowed, ?_⟩
    simp [Step.run, Scroll.step, h.labels, nextAddress, h.length, Nat.min_comm]
  | patch jump =>
    have hjump : real.2[jump]? = scroll.labels[jump]?.map (min · Machine.codeSize) := by
      rw [h.labels, List.getElem?_map]
    rw [Step.run, Scroll.step, hjump]
    cases scroll.labels[jump]? with
    | none => exact h
    | some label => exact h.patch label

theorem steps (steps : List Step) : {real : CodeStore × List Nat} → {scroll : Scroll} →
    Truncates real.1 real.2 scroll →
    Truncates (steps.foldl Step.run real).1 (steps.foldl Step.run real).2
      (steps.foldl Scroll.step scroll) := by
  induction steps with
  | nil => exact id
  | cons first rest ih => exact fun h => ih (h.step first)

theorem run (steps : List Step) :
    Truncates (CodeStore.run steps).1 (CodeStore.run steps).2 (Scroll.run steps) :=
  .steps steps ⟨rfl, by decide, rfl⟩

end Truncates

/-- Labels that were kept stay. -/
theorem labels_prefix (steps : List Step) : (real : CodeStore × List Nat) →
    real.2 <+: (steps.foldl Step.run real).2 := by
  induction steps with
  | nil => exact fun _ => List.prefix_rfl
  | cons first rest ih =>
    intro real
    refine List.IsPrefix.trans ?_ (ih _)
    cases first with
    | emit => exact List.prefix_rfl
    | forward => exact List.prefix_append _ _
    | patch jump =>
      rw [Step.run]
      split <;> exact List.prefix_rfl

/-- **The code store is the beginning of an unlimited one.**  After any steps it holds the first
instructions of what the unlimited one holds, with targets patched in that are at most its end; an
instruction was dropped exactly if there is no room for all of them; and to patch a jump whose label
was obtained when the store was full, at any later time, changes nothing. -/
theorem run_truncates (steps : List Step) :
    (run steps).1.code = ((Scroll.run steps).code.take Machine.codeSize).map Instruction.confined ∧
      ((run steps).1.overflowed = true ↔ Machine.codeSize < (Scroll.run steps).code.length) ∧
      ∀ before instruction after, steps = before ++ .forward instruction :: after →
        (run before).1.nextAddress = Machine.codeSize →
        run (steps ++ [.patch (run before).2.length]) = run steps := by
  have h := Truncates.run steps
  refine ⟨h.code, h.overflowed, fun before instruction after hsteps hfull => ?_⟩
  have hlabel : (run steps).2[(run before).2.length]? = some Machine.codeSize := by
    obtain ⟨later, hlater⟩ :=
      labels_prefix after (Step.run (run before) (.forward instruction))
    have hrun : (run steps).2 = (run before).2 ++ [(run before).1.nextAddress] ++ later := by
      rw [hsteps, run, List.foldl_append, List.foldl_cons]
      exact hlater.symm
    simp [hrun, hfull]
  have hstore : (run steps).1.patch Machine.codeSize = (run steps).1 := by
    have hlength := h.length
    rw [patch, List.modify_eq_self (by omega)]
  have hlast (step : Step) : run (steps ++ [step]) = Step.run (run steps) step := by simp [run]
  rw [hlast, Step.run, hlabel]
  simp only [hstore]

end CodeStore

end Triangle
