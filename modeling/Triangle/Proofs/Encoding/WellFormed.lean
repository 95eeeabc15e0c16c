import Triangle.Proofs.Encoding.Balance
import Triangle.Proofs.Encoding.Jumps
import Triangle.Proofs.Encoding.Visits

/-!
# Well-formed code

The code of a program is laid out in nested routines, and control does not leave a routine by a
jump.  A jump goes from one end of a part of its phrase to another, so it never lands inside a part,
and in particular not inside the code of a routine that is declared in a part.  This is how the
proof goes: the code of a phrase is put together from that of its parts with the jumps left open
(`Draft.Formed.trans`, which also keeps in mind where the parts meet), and then each jump is closed
by a target that is such a meeting point (`Draft.Formed.close`).
-/

namespace Triangle

variable {instruction : Instruction} {i t : Nat} {r₁ r₂ r₃ : Draft}

/-! ## Instructions -/

theorem permits_inRange : Permits InRange := fun _ hnonneg hle => ⟨hnonneg, hle⟩

/-- An instruction does not stop the machine, and its length is in range. -/
structure Instruction.Regular (instruction : Instruction) : Prop where
  runs : instruction.op ≠ .halt
  length : InRange instruction.n
  test : instruction.op = .jumpif → instruction.n = 0 ∨ instruction.n = 1

theorem Instruction.regular_jump (d : Int) : Instruction.Regular ⟨.jump, .cb, 0, d⟩ :=
  ⟨nofun, permits_inRange 0 (by decide) (by decide), nofun⟩

theorem Instruction.regular_jumpif {n : Int} (hn : n = 0 ∨ n = 1) (d : Int) :
    Instruction.Regular ⟨.jumpif, .cb, n, d⟩ := by
  refine ⟨nofun, ?_, fun _ => hn⟩
  rcases hn with rfl | rfl
  · exact permits_inRange 0 (by decide) (by decide)
  · exact permits_inRange 1 (by decide) (by decide)

theorem Opcode.IsPlain.regular (h : instruction.op.IsPlain) (hn : InRange instruction.n) :
    instruction.Regular :=
  ⟨h.1, hn, fun htest => absurd htest h.2.2⟩

/-! ## Routines -/

/-- The declarations of routines that were visited. -/
def Draft.routines (q : Draft) : List Visit :=
  (q.trace.filterMap Event.visit?).filter (·.phrase.isRoutine)

/-- The code of a routine is behind a jump over it and ends with a return. -/
def Visit.Skipped (code : List Instruction) (visit : Visit) : Prop :=
  code[visit.start]? = some ⟨.jump, .cb, 0, visit.stop⟩ ∧
  ∃ last result arguments, visit.stop = last + 1 ∧ visit.start < last ∧
    code[last]? = some ⟨.return_, .cb, result, arguments⟩

/-- An address is in the code of a routine, without the jump over it. -/
def Visit.Spans (visit : Visit) (address : Nat) : Prop :=
  visit.start < address ∧ address < visit.stop

/-- A routine that was declared between two drafts. -/
def Draft.Adds (p q : Draft) (visit : Visit) : Prop :=
  visit ∈ q.routines ∧ visit ∉ p.routines

/-- The code between two drafts is well formed, but for open jumps at certain addresses, and certain
addresses are where parts of it meet. -/
structure Draft.Formed (jumps cuts : List Nat) (p q : Draft) : Prop where
  code : p.code <+: q.code
  trace : p.trace <+: q.trace
  regular : ∀ i instruction, p.address ≤ i → q.code[i]? = some instruction → instruction.Regular
  closed : ∀ i instruction target, p.address ≤ i → q.code[i]? = some instruction →
    instruction.target? = some target → i ∉ jumps →
    ∃ t : Nat, target = t ∧ p.address ≤ t ∧ t ≤ q.address ∧
      ∀ visit, p.Adds q visit → (visit.Spans i ↔ visit.Spans t)
  routines : ∀ visit, p.Adds q visit →
    p.address ≤ visit.start ∧ visit.stop ≤ q.address ∧ visit.Skipped q.code
  entries : ∀ id entry last, .routine id entry last ∈ q.trace → .routine id entry last ∈ p.trace ∨
    ∃ visit ∈ q.routines, entry = visit.start + 1
  cuts : ∀ c ∈ cuts, p.address ≤ c ∧ c ≤ q.address ∧
    ∀ visit, p.Adds q visit → c ≤ visit.start ∨ visit.stop ≤ c

theorem Visit.Skipped.mono {visit : Visit} {code code' : List Instruction} (h : visit.Skipped code)
    (hcode : code <+: code') : visit.Skipped code' := by
  obtain ⟨hskip, last, result, arguments, hstop, hlt, hreturn⟩ := h
  obtain ⟨rest, rfl⟩ := hcode
  have hmono : ∀ {i : Nat} {instruction : Instruction}, code[i]? = some instruction →
      (code ++ rest)[i]? = some instruction := by
    intro i instruction hi
    rw [List.getElem?_append_left (List.getElem?_eq_some_iff.1 hi).1, hi]
  exact ⟨hmono hskip, last, result, arguments, hstop, hlt, hmono hreturn⟩

namespace Draft

variable {p q r : Draft} {jumps jumps' cuts cuts' : List Nat}

theorem routines_subset (h : p.trace <+: q.trace) : p.routines ⊆ q.routines := by
  obtain ⟨new, hnew⟩ := h
  intro visit hvisit
  rw [routines, ← hnew, List.filterMap_append, List.filter_append]
  exact List.mem_append_left _ hvisit

/-- A routine is visited only when the code of its declaration is complete. -/
theorem mem_routines_record {event : Event} {visit : Visit}
    (h : visit ∈ (q.record event).routines) :
    visit ∈ q.routines ∨ event.visit? = some visit ∧ visit.phrase.isRoutine = true := by
  rw [routines, record, List.filterMap_append, List.filter_append, List.mem_append] at h
  rcases h with h | h
  · exact .inl h
  · simp only [List.mem_filter, List.mem_filterMap, List.mem_singleton] at h
    obtain ⟨⟨_, rfl, hvisit⟩, hroutine⟩ := h
    exact .inr ⟨hvisit, hroutine⟩

theorem mem_routines_visit {phrase : Phrase} (h : phrase.isRoutine = true) (frame : Frame)
    (start : Nat)
    (pushed : Int) :
    ⟨phrase, frame, start, q.address, pushed⟩ ∈ (q.visit phrase frame start pushed).routines :=
  List.mem_filter.2 ⟨List.mem_filterMap.2
    ⟨_, List.mem_append_right _ (List.mem_singleton_self _), rfl⟩, h⟩

theorem Adds.split {visit : Visit} (h : p.Adds q visit) (r : Draft) :
    p.Adds r visit ∨ r.Adds q visit := by
  by_cases hr : visit ∈ r.routines
  · exact .inl ⟨hr, h.2⟩
  · exact .inr ⟨h.1, hr⟩

theorem not_adds_self (visit : Visit) : ¬ p.Adds p visit := fun h => h.2 h.1

namespace Formed

theorem le (h : p.Formed jumps cuts q) : p.address ≤ q.address := h.code.length_le

/-- Code that was there is still there. -/
theorem getElem? (h : p.Formed jumps cuts q) (hi : i < p.address) : q.code[i]? = p.code[i]? := by
  obtain ⟨rest, hrest⟩ := h.code
  rw [← hrest, List.getElem?_append_left hi]

theorem refl (p : Draft) : p.Formed [] [] p := by
  have hnone : ∀ i instruction, p.address ≤ i → p.code[i]? ≠ some instruction := by
    intro i instruction hi
    rw [List.getElem?_eq_none hi]
    exact (Option.some_ne_none _).symm
  refine ⟨List.prefix_rfl, List.prefix_rfl, fun i instruction hi hcode => ?_,
    fun i instruction target hi hcode => ?_, fun visit h => ?_, fun _ _ _ h => .inl h,
    fun _ h => (List.not_mem_nil h).elim⟩
  · exact absurd hcode (hnone i instruction hi)
  · exact absurd hcode (hnone i instruction hi)
  · exact absurd h (not_adds_self visit)

/-- Parts one behind the other.  They meet at the address in between. -/
theorem trans (h₁ : p.Formed jumps cuts r) (h₂ : r.Formed jumps' cuts' q) :
    p.Formed (jumps ++ jumps') (cuts ++ r.address :: cuts') q := by
  have hle₁ := h₁.le
  have hle₂ := h₂.le
  refine ⟨h₁.code.trans h₂.code, h₁.trace.trans h₂.trace, fun i instruction hi hcode => ?_,
    fun i instruction target hi hcode htarget hopen => ?_, fun visit hvisit => ?_,
    fun id entry last hevent => ?_, fun c hc => ?_⟩
  · by_cases hr : i < r.address
    · exact h₁.regular i instruction hi (h₂.getElem? hr ▸ hcode)
    · exact h₂.regular i instruction (by omega) hcode
  · rw [List.mem_append, not_or] at hopen
    by_cases hr : i < r.address
    · obtain ⟨t, rfl, hle, hge, hspans⟩ :=
        h₁.closed i instruction target hi (h₂.getElem? hr ▸ hcode) htarget hopen.1
      refine ⟨t, rfl, hle, by omega, fun visit hvisit => ?_⟩
      rcases hvisit.split r with hvisit | hvisit
      · exact hspans visit hvisit
      · have hstart := (h₂.routines visit hvisit).1
        simp only [Visit.Spans]
        omega
    · obtain ⟨t, rfl, hle, hge, hspans⟩ :=
        h₂.closed i instruction target (by omega) hcode htarget hopen.2
      refine ⟨t, rfl, by omega, hge, fun visit hvisit => ?_⟩
      rcases hvisit.split r with hvisit | hvisit
      · have hstop := (h₁.routines visit hvisit).2.1
        simp only [Visit.Spans]
        omega
      · exact hspans visit hvisit
  · rcases hvisit.split r with hvisit | hvisit
    · obtain ⟨hstart, hstop, hskipped⟩ := h₁.routines visit hvisit
      exact ⟨hstart, by omega, hskipped.mono h₂.code⟩
    · obtain ⟨hstart, hstop, hskipped⟩ := h₂.routines visit hvisit
      exact ⟨by omega, hstop, hskipped⟩
  · rcases h₂.entries id entry last hevent with hevent | hvisit
    · rcases h₁.entries id entry last hevent with hevent | ⟨visit, hvisit, hentry⟩
      · exact .inl hevent
      · exact .inr ⟨visit, routines_subset h₂.trace hvisit, hentry⟩
    · exact .inr hvisit
  · -- A meeting point in one part is at the edge of the other part or outside.
    have hbound : ∀ visit, p.Adds q visit → (p.Adds r visit ∧ visit.stop ≤ r.address) ∨
        (r.Adds q visit ∧ r.address ≤ visit.start) := by
      intro visit hvisit
      rcases hvisit.split r with hvisit | hvisit
      · exact .inl ⟨hvisit, (h₁.routines visit hvisit).2.1⟩
      · exact .inr ⟨hvisit, (h₂.routines visit hvisit).1⟩
    rcases List.mem_append.1 hc with hc | hc
    · obtain ⟨hle, hge, hcut⟩ := h₁.cuts c hc
      refine ⟨hle, by omega, fun visit hvisit => ?_⟩
      rcases hbound visit hvisit with ⟨hvisit, -⟩ | ⟨-, hstart⟩
      · exact hcut visit hvisit
      · omega
    rcases List.mem_cons.1 hc with rfl | hc
    · refine ⟨hle₁, hle₂, fun visit hvisit => ?_⟩
      rcases hbound visit hvisit with ⟨-, hstop⟩ | ⟨-, hstart⟩ <;> omega
    · obtain ⟨hle, hge, hcut⟩ := h₂.cuts c hc
      refine ⟨by omega, hge, fun visit hvisit => ?_⟩
      rcases hbound visit hvisit with ⟨-, hstop⟩ | ⟨hvisit, -⟩
      · omega
      · exact hcut visit hvisit

theorem whole (h : p.Formed jumps cuts q) : p.Formed jumps [] q :=
  ⟨h.code, h.trace, h.regular, h.closed, h.routines, h.entries, fun _ hc =>
    (List.not_mem_nil hc).elim⟩

theorem seq (h₁ : p.Formed [] [] r) (h₂ : r.Formed [] [] q) : p.Formed [] [] q :=
  (h₁.trans h₂).whole

/-- A draft with the same code, in which the same has happened. -/
theorem congr (h : p.Formed jumps cuts q) (hcode : r.code = q.code) (htrace : r.trace = q.trace) :
    p.Formed jumps cuts r := by
  obtain ⟨code, entities, trace⟩ := q
  obtain ⟨code', entities', trace'⟩ := r
  obtain rfl : code' = code := hcode
  obtain rfl : trace' = trace := htrace
  exact ⟨h.code, h.trace, h.regular, h.closed, h.routines, h.entries, h.cuts⟩

theorem congr_left (h : r.Formed jumps cuts q) (hcode : r.code = p.code)
    (htrace : r.trace = p.trace) :
    p.Formed jumps cuts q := by
  obtain ⟨code, entities, trace⟩ := p
  obtain ⟨code', entities', trace'⟩ := r
  obtain rfl : code' = code := hcode
  obtain rfl : trace' = trace := htrace
  exact ⟨h.code, h.trace, h.regular, h.closed, h.routines, h.entries, h.cuts⟩

theorem represent (h : p.Formed jumps cuts q) (id : NodeId) (entity : Entity) :
    p.Formed jumps cuts (q.represent id entity) :=
  h.congr rfl rfl

/-- An event that is about no routine. -/
theorem record (h : p.Formed jumps cuts q) {event : Event}
    (hvisit : ∀ visit, event.visit? = some visit → visit.phrase.isRoutine = false)
    (hevent : ∀ id entry last, event ≠ .routine id entry last) :
    p.Formed jumps cuts (q.record event) := by
  have hadds : ∀ visit, p.Adds (q.record event) visit → p.Adds q visit := by
    rintro visit ⟨hnew, hold⟩
    rcases mem_routines_record hnew with hnew | ⟨hsome, hroutine⟩
    · exact ⟨hnew, hold⟩
    · rw [hvisit visit hsome] at hroutine
      cases hroutine
  have htrace : q.trace <+: (q.record event).trace := List.prefix_append _ _
  refine ⟨h.code, h.trace.trans htrace, h.regular,
    fun i instruction target hi hcode htarget hopen => ?_,
    fun visit hvisit => h.routines visit (hadds visit hvisit), fun id entry last hother => ?_,
    fun c hc => ?_⟩
  · obtain ⟨t, ht, hle, hge, hspans⟩ := h.closed i instruction target hi hcode htarget hopen
    exact ⟨t, ht, hle, hge, fun visit hvisit => hspans visit (hadds visit hvisit)⟩
  · rcases List.mem_append.1 hother with hother | hother
    · exact (h.entries id entry last hother).imp_right fun ⟨visit, hvisit, hentry⟩ =>
        ⟨visit, routines_subset htrace hvisit, hentry⟩
    · exact absurd (List.mem_singleton.1 hother).symm (hevent id entry last)
  · obtain ⟨hle, hge, hcut⟩ := h.cuts c hc
    exact ⟨hle, hge, fun visit hvisit => hcut visit (hadds visit hvisit)⟩

theorem use (h : p.Formed jumps cuts q) (name : Terminal) (u : Use) (formals : List Parameter)
    (frame : Frame) : p.Formed jumps cuts (q.use name u formals frame) :=
  h.record (fun _ hvisit => nomatch hvisit) fun _ _ _ => Event.noConfusion

theorem visit (h : p.Formed jumps cuts q) {phrase : Phrase} (hphrase : phrase.isRoutine = false)
    (frame : Frame) (start : Nat) (pushed : Int) :
    p.Formed jumps cuts (q.visit phrase frame start pushed) := by
  refine h.record (fun visit hvisit => ?_) fun _ _ _ => Event.noConfusion
  cases hvisit
  exact hphrase

/-- One instruction whose target, if it has one, is not looked at yet. -/
theorem single (hregular : instruction.Regular) :
    p.Formed [p.address] [] (p.emit [instruction]) := by
  have hlast : ∀ i other, p.address ≤ i → (p.emit [instruction]).code[i]? = some other →
      i = p.address ∧ other = instruction := by
    intro i other hi hcode
    have hlt := (List.getElem?_eq_some_iff.1 hcode).1
    rw [code_emit, List.length_append, List.length_singleton] at hlt
    obtain rfl : i = p.address := by
      have : p.address = p.code.length := rfl
      omega
    rw [code_emit, address, List.getElem?_concat_length] at hcode
    cases hcode
    exact ⟨rfl, rfl⟩
  refine ⟨List.prefix_append _ _, List.prefix_rfl, fun i other hi hcode => ?_,
    fun i other target hi hcode htarget hopen => ?_, fun visit hvisit => ?_, fun _ _ _ h => .inl h,
    fun _ hc => (List.not_mem_nil hc).elim⟩
  · rw [(hlast i other hi hcode).2]
    exact hregular
  · exact absurd (List.mem_singleton.2 (hlast i other hi hcode).1) hopen
  · exact absurd hvisit (not_adds_self visit)

/-- A jump is closed by a target where parts meet, if it is where parts meet itself. -/
theorem close {j : Nat} (h : p.Formed (j :: jumps) cuts q) (hcode : q.code[j]? = some instruction)
    (htarget : instruction.target? = none ∨ instruction.d = t)
    (hj : j ∈ p.address :: q.address :: cuts) (ht : t ∈ p.address :: q.address :: cuts) :
    p.Formed jumps cuts q := by
  have hcuts : ∀ c ∈ p.address :: q.address :: cuts, p.address ≤ c ∧ c ≤ q.address ∧
      ∀ visit, p.Adds q visit → c ≤ visit.start ∨ visit.stop ≤ c := by
    intro c hc
    have hle := h.le
    rcases List.mem_cons.1 hc with rfl | hc
    · exact ⟨Nat.le_refl _, hle, fun visit hvisit => .inl (h.routines visit hvisit).1⟩
    rcases List.mem_cons.1 hc with rfl | hc
    · exact ⟨hle, Nat.le_refl _, fun visit hvisit => .inr (h.routines visit hvisit).2.1⟩
    · exact h.cuts c hc
  refine ⟨h.code, h.trace, h.regular, fun i other target hi hi' htarget' hopen => ?_, h.routines,
    h.entries, h.cuts⟩
  by_cases heq : i = j
  · subst heq
    obtain rfl : instruction = other := Option.some.inj (hcode.symm.trans hi')
    obtain ⟨-, -, hcut⟩ := hcuts i hj
    obtain ⟨hle, hge, hcut'⟩ := hcuts t ht
    have hd : target = t := by
      rcases htarget with hnone | hd
      · rw [hnone] at htarget'
        cases htarget'
      · rw [← Instruction.d_of_target? htarget', hd]
    refine ⟨t, hd, hle, hge, fun visit hvisit => ?_⟩
    have h₁ := hcut visit hvisit
    have h₂ := hcut' visit hvisit
    simp only [Visit.Spans]
    omega
  · exact h.closed i other target hi hi' htarget'
      fun hmem => (List.mem_cons.1 hmem).elim heq hopen

/-- An instruction that code starts with. -/
theorem getElem?_start (h : (p.emit [instruction]).Formed jumps cuts q) :
    q.code[p.address]? = some instruction := by
  rw [h.getElem? (by simp)]
  simp [address]

theorem straight {c : List Instruction} (h : p.Formed jumps cuts q) (hc : Plain InRange c) :
    p.Formed jumps [] (q.emit c) := by
  induction c generalizing q cuts with
  | nil => exact h.whole.congr (List.append_nil _) rfl
  | cons instruction rest ih =>
    obtain ⟨⟨hop, hn⟩, hrest⟩ := List.forall_mem_cons.1 hc
    have hsingle : q.Formed [] [] (q.emit [instruction]) :=
      (single (hop.regular hn)).close (refl _).getElem?_start (.inl hop.target?) List.mem_cons_self
        List.mem_cons_self
    have htrans := h.trans hsingle
    rw [List.append_nil] at htrans
    rw [← List.singleton_append, emit_append]
    exact ih htrans hrest

/-- Two ways from one test. -/
theorem branch (htest : p.Formed [] [] r₁)
    (hfirst : (r₁.emit [⟨.jumpif, .cb, 0, (r₂.address + 1 : Nat)⟩]).Formed [] [] r₂)
    (hsecond : (r₂.emit [⟨.jump, .cb, 0, r₃.address⟩]).Formed [] [] r₃) : p.Formed [] [] r₃ := by
  have hjumpif := single (p := r₁) (Instruction.regular_jumpif (.inl rfl) (r₂.address + 1 : Nat))
  have hjump := single (p := r₂) (Instruction.regular_jump r₃.address)
  have h := (((htest.trans hjumpif).trans hfirst).trans hjump).trans hsecond
  have h₁ := h.close (t := r₂.address + 1) (hfirst.trans (hjump.trans hsecond)).getElem?_start
    (.inr rfl) (by simp) (by simp)
  exact (h₁.close (t := r₃.address) hsecond.getElem?_start (.inr rfl) (by simp) (by simp)).whole

/-- A test behind the body of a loop. -/
theorem whileDo (hbody : (p.emit [⟨.jump, .cb, 0, r₁.address⟩]).Formed [] [] r₁)
    (htest : r₁.Formed [] [] r₂) :
    p.Formed [] [] (r₂.emit [⟨.jumpif, .cb, 1, (p.address + 1 : Nat)⟩]) := by
  have hjump := single (p := p) (Instruction.regular_jump r₁.address)
  have hjumpif := single (p := r₂) (Instruction.regular_jumpif (.inr rfl) (p.address + 1 : Nat))
  have h := ((hjump.trans hbody).trans htest).trans hjumpif
  have h₁ := h.close (t := r₁.address) ((hbody.trans htest).trans hjumpif).getElem?_start (.inr rfl)
    (by simp) (by simp)
  exact (h₁.close (t := p.address + 1) (refl _).getElem?_start (.inr rfl) (by simp) (by simp)).whole

/-- A test in the middle of a loop. -/
theorem loopWhile (hprelude : p.Formed [] [] r₁) (htest : r₁.Formed [] [] r₂)
    (hbody : (r₂.emit [⟨.jumpif, .cb, 0, (r₃.address + 1 : Nat)⟩]).Formed [] [] r₃) :
    p.Formed [] [] (r₃.emit [⟨.jump, .cb, 0, p.address⟩]) := by
  have hjumpif := single (p := r₂) (Instruction.regular_jumpif (.inl rfl) (r₃.address + 1 : Nat))
  have hjump := single (p := r₃) (Instruction.regular_jump p.address)
  have h := (((hprelude.trans htest).trans hjumpif).trans hbody).trans hjump
  have h₁ := h.close (t := r₃.address + 1) (hbody.trans hjump).getElem?_start (.inr rfl) (by simp)
    (by simp)
  exact (h₁.close (t := p.address) (refl _).getElem?_start (.inr rfl) (by simp) (by simp)).whole

/-- A jump in the body of a routine stays between the jump over it and the end. -/
theorem inside {result arguments : Int}
    (h : (p.emit [⟨.jump, .cb, 0, (r.address + 1 : Nat)⟩]).Formed [] [] r) (hi : p.address ≤ i)
    (hcode : (r.emit [⟨.return_, .cb, result, arguments⟩]).code[i]? = some instruction)
    (ht : instruction.target? = some (t : Int)) :
    i = p.address ∧ t = r.address + 1 ∨
      p.address < i ∧ i < r.address ∧ p.address < t ∧ t ≤ r.address := by
  have hle : p.address + 1 ≤ r.address := by simpa using h.le
  have hlength := (List.getElem?_eq_some_iff.1 hcode).1
  rw [code_emit, List.length_append, List.length_singleton] at hlength
  have hend : r.address = r.code.length := rfl
  by_cases hlast : i = r.address
  · subst hlast
    rw [(refl _).getElem?_start] at hcode
    cases hcode
    cases ht
  rw [code_emit, List.getElem?_append_left (by omega)] at hcode
  by_cases hfirst : i = p.address
  · subst hfirst
    rw [h.getElem?_start] at hcode
    cases hcode
    exact .inl ⟨rfl, by have := Instruction.d_of_target? ht; simp only at this; omega⟩
  · obtain ⟨t', ht', hge, hle', -⟩ := h.closed i instruction t (by simp; omega) hcode ht
      List.not_mem_nil
    simp only [address_emit, List.length_singleton] at hge
    exact .inr (by omega)

/-- The declaration of a routine with the body in between. -/
theorem routine {id : NodeId} {phrase : Phrase} {frame : Frame} {result arguments pushed : Int}
    (h : (p.emit [⟨.jump, .cb, 0, (r.address + 1 : Nat)⟩]).Formed [] [] r)
    (hreturn : Plain InRange [⟨.return_, .cb, result, arguments⟩])
    (hphrase : phrase.isRoutine = true) :
    p.Formed [] [] (((r.emit [⟨.return_, .cb, result, arguments⟩]).record
      (.routine id (p.address + 1) r.address)).visit phrase frame p.address pushed) := by
  have hle : p.address + 1 ≤ r.address := by simpa using h.le
  have hrest := h.straight hreturn
  -- the jump over the body is the only one that is closed here
  have hdone := ((single (Instruction.regular_jump (r.address + 1 : Nat))).trans hrest).close
    (t := r.address + 1) hrest.getElem?_start (.inr rfl) (by simp) (by simp)
  have hlast := (refl (r.emit [⟨.return_, .cb, result, arguments⟩])).getElem?_start
  generalize hdraft : r.emit [⟨.return_, .cb, result, arguments⟩] = done at *
  have haddress : done.address = r.address + 1 := by simp [← hdraft]
  let event : Event := .routine id (p.address + 1) r.address
  let last : Visit := ⟨phrase, frame, p.address, done.address, pushed⟩
  have hmem : last ∈ ((done.record event).visit phrase frame p.address pushed).routines :=
    mem_routines_visit hphrase frame p.address pushed
  have hadds : ∀ visit, p.Adds ((done.record event).visit phrase frame p.address pushed) visit →
      p.Adds done visit ∨ visit = last := by
    rintro visit ⟨hnew, hold⟩
    rcases mem_routines_record hnew with hnew | ⟨hsome, -⟩
    · rcases mem_routines_record hnew with hnew | ⟨hsome, -⟩
      · exact .inl ⟨hnew, hold⟩
      · cases hsome
    · cases hsome
      exact .inr rfl
  have htrace : done.trace <+: ((done.record event).visit phrase frame p.address pushed).trace :=
    (List.prefix_append _ _).trans (List.prefix_append _ _)
  refine ⟨hdone.code, hdone.trace.trans htrace, hdone.regular,
    fun i instruction target hi hcode htarget hopen => ?_, fun visit hvisit => ?_,
    fun id' entry last' hevent => ?_, fun _ hc => (List.not_mem_nil hc).elim⟩
  · obtain ⟨t, rfl, hge, hle, hspans⟩ := hdone.closed i instruction target hi hcode htarget hopen
    refine ⟨t, rfl, hge, hle, fun visit hvisit => ?_⟩
    rcases hadds visit hvisit with hvisit | rfl
    · exact hspans visit hvisit
    · have hinside := h.inside hi (hdraft ▸ hcode) htarget
      simp only [Visit.Spans, last, haddress]
      omega
  · rcases hadds visit hvisit with hvisit | rfl
    · exact hdone.routines visit hvisit
    · refine ⟨Nat.le_refl _, Nat.le_refl _, ?_, r.address, result, arguments, haddress, hle, hlast⟩
      rw [show last.stop = r.address + 1 from haddress]
      exact hrest.getElem?_start
  · rcases List.mem_append.1 hevent with hevent | hevent
    · rcases List.mem_append.1 hevent with hevent | hevent
      · exact (hdone.entries id' entry last' hevent).imp_right fun ⟨visit, hvisit, hentry⟩ =>
          ⟨visit, routines_subset htrace hvisit, hentry⟩
      · cases List.mem_singleton.1 hevent
        exact .inr ⟨last, hmem, rfl⟩
    · cases List.mem_singleton.1 hevent

end Formed

end Draft

/-! ## Phrases -/

section

variable {A : Annotations}

/-- A result is not negative in size. -/
theorem Meaning.Routine.words_nonneg {meaning : Meaning} {formals : Formals} {words : Int}
    (h : meaning.Routine formals words) (hmeaning : meaning.Proper) : 0 ≤ words := by
  obtain ⟨-, rfl⟩ | ⟨τ, rfl, rfl⟩ := h
  · exact Int.le_refl 0
  · exact Int.le_of_lt hmeaning.2.words_pos

theorem Emission.Routine.formed {m : Mark} {parameters : Parameters} {frame : Frame} {size : Int}
    {body : Frame → Draft → Int → Draft → Prop} {d : Declaration} {p q : Draft}
    (he : Emission.Routine A m parameters frame body p q) (hd : d.parameters?.isSome = true)
    (hbody : ∀ inner p words q, body inner p words q → p.Formed [] [] q ∧ 0 ≤ words) :
    p.Formed [] [] (q.visit (.declaration d) frame p.address size) := by
  obtain ⟨inner, outer, arguments, result, r₁, r₂, -, -, -, hr₁, hr₂, hle, rfl⟩ := he
  obtain ⟨hformed, hnonneg⟩ := hbody inner r₁ result r₂ hr₂
  have h : (p.emit [⟨.jump, .cb, 0, (r₂.address + 1 : Nat)⟩]).Formed [] [] r₂ :=
    hformed.congr_left hr₁.silent.1 hr₁.silent.2
  exact h.routine (.cons (by decide) ⟨hnonneg, hle⟩ .nil) hd

theorem Access.Used.plain {Γ : Context} {above : Frame} {τ : Ty} {assignable : Bool}
    {access : Access}
    {u : Use} {c : List Instruction} {y : Int} (h : access.Used Γ above τ assignable u c y)
    (hΓ : Γ.Proper) (hτ : τ.Proper) : Plain InRange c := by
  cases h with
  | fetch hcode => exact hcode.plain permits_inRange (⟨Int.le_of_lt hτ.words_pos, ·⟩)
  | store _ _ hsize hcode => exact hcode.plain permits_inRange (⟨hsize hΓ, ·⟩)
  | address _ hcode => exact hcode.plain permits_inRange

theorem Draft.Advances.formed {Γ : Context} {F : List Parameter} {p q : Draft} {x y : Int}
    (h : p.Advances A Γ F x y q) (hΓ : Γ.Proper) : p.Formed [] [] q := by
  have hstart := Draft.Formed.refl p
  cases h with
  | literal => exact hstart.straight (.literal permits_inRange _)
  | scale => exact hstart.straight (.scale permits_inRange _ _)
  | push => exact hstart.straight (.cons (by decide) ⟨by decide, by decide⟩ .nil)
  | pop _ _ _ hn => exact hstart.straight (.pop (hn hΓ))
  | stores _ _ hsize hsize' =>
    exact hstart.straight (.cons (by decide) (hsize' hΓ) (.cons (by decide) (hsize hΓ) .nil))
  | call _ _ _ _ hcode | binary _ _ _ _ hcode | unary _ _ _ _ hcode =>
    exact (hstart.use _ _ _ _).straight (hcode.plain permits_inRange)
  | closure _ _ hcode => exact (hstart.use _ _ _ _).straight (hcode.plain permits_inRange)

/-- The code of a phrase is well formed. -/
def Phrase.Formed (A : Annotations) (phrase : Phrase) : Prop :=
  ∀ ⦃Γ F frame p n q⦄, phrase.Emitted A Γ F frame p n q → Γ.Proper → p.Formed [] [] q

theorem Phrase.Progress.formed {whole : Phrase} {Γ Δ : Context} {F : List Parameter}
    {D E : List Declaration} {frame above : Frame} {p q : Draft} {x : Int} {ids : List NodeId}
    {points : List Point} (h : whole.Progress A Γ F D frame p Δ E above x ids points q)
    (ih : ∀ phrase : Phrase, sizeOf phrase < sizeOf whole → phrase.Formed A) (hΓ : Γ.Proper) :
    Δ.Proper ∧ p.Formed [] [] q := by
  induction h with
  | start => exact ⟨hΓ, .refl _⟩
  | step _ hr hq => exact ⟨hq.1, hq.2.seq (hr.formed hq.1)⟩
  | file _ _ _ _ hq => exact ⟨hq.1, hq.2.represent _ _⟩
  | expand _ _ _ hq => exact hq
  | part _ phrase hr hlt hq => exact ⟨hq.1, hq.2.seq (ih phrase hlt hr hq.1)⟩
  | access _ hvname hr hu hlt hq =>
    have hr' := hq.2.seq (ih (.vname _) hlt ⟨_, _, _, hvname, hr, rfl⟩ hq.1)
    exact ⟨hq.1, (hr'.use _ _ _ _).straight (hu.plain hq.1 (hvname.proper hq.1))⟩
  | declare _ hd hr _ hlt hq =>
    exact ⟨hd.proper hq.1, hq.2.seq (ih (.declaration _) hlt ⟨_, hd, hr⟩ hq.1)⟩
  | branch _ first second hr₂ hr₃ hlt₁ hlt₂ hq =>
    exact ⟨hΓ, Draft.Formed.branch hq.2 (ih first hlt₁ hr₂ hΓ) (ih second hlt₂ hr₃ hΓ)⟩
  | whileDo body test hr₁ hr₂ hlt₁ hlt₂ =>
    exact ⟨hΓ, Draft.Formed.whileDo (ih body hlt₁ hr₁ hΓ) (ih test hlt₂ hr₂ hΓ)⟩
  | loopWhile prelude test body hr₁ hr₂ hr₃ hlt₁ hlt₂ hlt₃ =>
    exact ⟨hΓ, Draft.Formed.loopWhile (ih prelude hlt₁ hr₁ hΓ) (ih test hlt₂ hr₂ hΓ)
      (ih body hlt₃ hr₃ hΓ)⟩

theorem Phrase.formed (phrase : Phrase) : phrase.Formed A := by
  intro Γ F frame p n q h hΓ
  cases h.composed [] with
  | parts hprogress _ _ hwhole =>
    exact (hprogress.formed (fun phrase _ => phrase.formed) hΓ).2.visit hwhole _ _ _
  | routine body _ hr hd hparameters hΔ _ hmeaning ht =>
    refine hr.formed (by rw [hparameters]; rfl) fun _ _ _ _ hbody =>
      ⟨body.formed hbody.1 (ht.proper (hd.proper hΓ)), ?_⟩
    rw [hbody.2]
    subst hΔ
    exact hmeaning.words_nonneg (hd.proper hΓ (Context.bind_self _ _ _))
termination_by sizeOf phrase

end

/-! ## Programs -/

/-- Code that fits into the code store and halts at its end.  It is laid out in the code of
routines, which jumps do not leave and calls enter at the start, with a log that tells of its
forward jumps. -/
structure ObjectCode.WellFormed (routines : List Visit) (events : List CodeEvent)
    (object : ObjectCode) : Prop where
  size : object.instructions.length ≤ 1024
  halts : ∃ front, object.instructions = front ++ [⟨.halt, .cb, 0, 0⟩] ∧
    ∀ instruction ∈ front, instruction.op ≠ .halt
  forward : ∀ label, CodeEvent.about label events = [] ∨ ∃ target : Nat, label < target ∧
    CodeEvent.about label events = [.placed label, .patched label target] ∧
    ∃ op n, (op = .jump ∨ op = .jumpif) ∧ object.instructions[label]? = some ⟨op, .cb, n, target⟩
  backward : ∀ (i : Nat) instruction target, object.instructions[i]? = some instruction →
    instruction.target? = some target → CodeEvent.about i events = [] → target ≤ i
  jumps : ∀ (i : Nat) instruction target, object.instructions[i]? = some instruction →
    instruction.target? = some target →
    ∃ t : Nat, target = t ∧ t < object.instructions.length ∧
      ∀ visit ∈ routines, (visit.Spans i ↔ visit.Spans t)
  skips : ∀ visit ∈ routines,
    visit.stop < object.instructions.length ∧ visit.Skipped object.instructions
  calls : ∀ (i : Nat) instruction, object.instructions[i]? = some instruction →
    instruction.op = .call → instruction.r = .cb →
    ∃ visit ∈ routines, instruction.d = (visit.start + 1 : Nat)
  tests : ∀ instruction ∈ object.instructions, instruction.op = .jumpif →
    instruction.n = 0 ∨ instruction.n = 1
  lengths : ∀ instruction ∈ object.instructions, 0 ≤ instruction.n ∧ instruction.n ≤ 255

section

variable {program : Program} {A : Annotations} {object : ObjectCode} {s : EncodeState} {q : Draft}

/-- What a call of a routine names is the start of one. -/
theorem Draft.Formed.calls (hformed : Draft.empty.Formed [] [] q)
    (ht : program.command.Typed A .empty) (he : program.Emits A object.instructions q.trace)
    (hcode : object.instructions[i]? = some instruction) (hop : instruction.op = .call)
    (hr : instruction.r = .cb) : ∃ visit ∈ q.routines, instruction.d = (visit.start + 1 : Nat) := by
  obtain ⟨height, -, hconsistent, -⟩ := he.exists_height ht
  obtain ⟨op, r, n, d⟩ := instruction
  obtain rfl : op = .call := hop
  obtain rfl : r = .cb := hr
  obtain ⟨id, entry, last, _, _, rfl, hevent, -⟩ := hconsistent i _ hcode
  rcases hformed.entries id entry last hevent with hnil | ⟨visit, hvisit, rfl⟩
  · exact (List.not_mem_nil hnil).elim
  · exact ⟨visit, hvisit, rfl⟩

/-- Code that was generated is well formed. -/
theorem Program.Generated.wellFormed_object {events : List CodeEvent}
    (h : program.Generated A object s q) (ht : program.command.Typed A .empty)
    (hevents : CodeEvent.Settles [] events [] s.store.code) :
    object.WellFormed q.routines events := by
  have hobject : object.instructions = q.code ++ [⟨.halt, .cb, 0, 0⟩] := by rw [h.object, h.code]
  have hlength : object.instructions.length = q.address + 1 := by
    rw [hobject, List.length_append]
    rfl
  have hΓ : Context.Proper .empty := fun _ _ h => nomatch h
  have hformed : Draft.empty.Formed [] [] q :=
    (Phrase.command program.command).formed ⟨ht, h.emits, rfl⟩ hΓ
  have hadds : ∀ visit ∈ q.routines, Draft.empty.Adds q visit := fun visit hvisit =>
    ⟨hvisit, List.not_mem_nil⟩
  have hregular : ∀ instruction ∈ q.code, instruction.Regular := by
    intro instruction hinstruction
    obtain ⟨i, hi⟩ := List.mem_iff_getElem?.1 hinstruction
    exact hformed.regular i instruction (Nat.zero_le i) hi
  have hemits : program.Emits A object.instructions q.trace := ⟨q, h.emits, hobject, rfl⟩
  -- the instruction after the command's code halts, so it is no jump
  have hjump : ∀ (i : Nat) instruction target, object.instructions[i]? = some instruction →
      instruction.target? = some target → q.code[i]? = some instruction := by
    intro i instruction target hi htarget
    rw [hobject] at hi
    by_cases hlt : i < q.code.length
    · rwa [List.getElem?_append_left hlt] at hi
    · rw [List.getElem?_append_right (Nat.not_lt.1 hlt), List.getElem?_singleton] at hi
      split at hi
      · cases hi
        cases htarget
      · cases hi
  refine ⟨?_, ⟨q.code, hobject, fun instruction hi => (hregular instruction hi).runs⟩,
    fun label => ?_, fun i instruction target hi htarget habout => ?_,
    fun i instruction target hi htarget => ?_, fun visit hvisit => ?_,
    fun i instruction hi hop hr => hformed.calls ht hemits hi hop hr, fun instruction hi => ?_,
    fun instruction hi => ?_⟩
  · have hroom := h.room
    rw [h.object, List.length_append, List.length_singleton]
    exact hroom
  · rcases hevents.others label List.not_mem_nil with
      hnil | ⟨-, target, hlt, hle, habout, op, n, hop, hi⟩
    · exact .inl hnil
    · refine .inr ⟨target, hlt, habout, op, n, hop, ?_⟩
      rw [h.object, List.getElem?_append_left (by omega), hi]
  · have hi' := hjump i instruction target hi htarget
    rw [h.code] at hi'
    exact hevents.backward i instruction target (Nat.zero_le i) hi' htarget habout
  · obtain ⟨t, rfl, -, hle, hspans⟩ := hformed.closed i instruction target (Nat.zero_le i)
      (hjump i instruction target hi htarget) htarget List.not_mem_nil
    exact ⟨t, rfl, by omega, fun visit hvisit => hspans visit (hadds visit hvisit)⟩
  · obtain ⟨-, hstop, hskipped⟩ := hformed.routines visit (hadds visit hvisit)
    rw [hlength]
    exact ⟨by omega, hskipped.mono (hobject ▸ List.prefix_append _ _)⟩
  · rw [hobject, List.mem_append, List.mem_singleton] at hi
    rcases hi with hi | rfl
    · exact (hregular instruction hi).test
    · exact nofun
  · rw [hobject, List.mem_append, List.mem_singleton] at hi
    rcases hi with hi | rfl
    · exact (hregular instruction hi).length
    · decide

end

/-- The code of a source is well formed.  It has 1024 instructions at most, and one that halts, at
the last address.  Every jump goes to an address in the code and stays in the same routine, where
the jump over a routine is not part of it and goes just past its return.  Every call of a routine
goes to the address behind the jump over one.  Lengths and tests are in range.  The routines are
those that are declared in the program.  Every forward jump was placed once and patched once, with
the address behind itself that it goes to; this is what code generation tells when it keeps a log,
and keeping one changes nothing.  A jump that the log does not tell of goes back. -/
theorem Translates.wellFormed {source : Source} {failFast folding : Bool} {program : Program}
    {A : Annotations} {object : ObjectCode}
    (h : Translates source failFast folding program A object) :
    (program.command.logged A .global).erase = program.command.encode A .global ∧
    (∃ s q, program.Generated A object s q) ∧
    ∀ s q, program.Generated A object s q →
      List.Forall₂ (fun visit point => visit.phrase = point.phrase)
        (q.trace.filterMap Event.visit?) (program.command.points []) ∧
      ∃ log, (program.command.logged A .global ⟨.empty, .empty, log⟩).1 = .ok ((), s) ∧
        object.WellFormed q.routines
          (program.command.logged A .global ⟨.empty, .empty, log⟩).2 := by
  refine ⟨program.command.erase_logged A .global, h.generated, fun s q hs => ⟨?_, ?_⟩⟩
  · have hvisits := Program.visits_explained (I := fun _ _ _ => True) h.typed h.ids_nodup hs.emits
      ⟨fun _ _ _ => trivial, fun _ _ _ _ _ => trivial, fun _ _ _ _ _ => trivial⟩ trivial
    exact hvisits.imp fun _ _ hvisit => hvisit.phrase
  · obtain ⟨log, hrun, hsettles⟩ := hs.settles
    exact ⟨log, hrun, hs.wellFormed_object h.typed hsettles⟩

theorem Translates.relay_wellFormed :
    ∃ program A object, Translates .relay false true program A object ∧
      ∃ s q, program.Generated A object s q ∧
        ∃ log, (program.command.logged A .global ⟨.empty, .empty, log⟩).1 = .ok ((), s) ∧
          object.WellFormed q.routines
            (program.command.logged A .global ⟨.empty, .empty, log⟩).2 := by
  obtain ⟨program, A, object, h⟩ := Translates.relay
  obtain ⟨-, ⟨s, q, hs⟩, hwellFormed⟩ := h.wellFormed
  exact ⟨program, A, object, h, s, q, hs, (hwellFormed s q hs).2⟩

end Triangle
