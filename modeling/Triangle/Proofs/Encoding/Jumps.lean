import Mathlib.Data.List.Nodup
import Triangle.Proofs.Encoding.Growth
import Triangle.Proofs.Encoding.Runs
import Triangle.Proofs.Encoding.Traversal

/-!
# Forward jumps are patched once

A jump to code that is not there yet is stored without a target and patched later.  The code store
does not tell afterwards which of its jumps were patched or how often, so this is a statement about
what code generation does and not about what it leaves behind: it is read off the log.

The proof goes through the steps of a phrase with the list of jumps that wait for their targets.
Placing a jump puts it on the list, and patching takes it off.  A second list has the addresses that
have been passed, which are those that other jumps can go back to.
-/

namespace Triangle

open Encode

/-! ## Settled jumps

Only what was told about its label counts for a jump, so the events are looked at label by
label. -/

/-- The address of the jump that something is told about. -/
def CodeEvent.label? : CodeEvent → Option Nat
  | placed label | patched label _ => some label
  | entered _ | consulted _ _ => none

/-- What happens to the jump at an address. -/
def CodeEvent.about (label : Nat) (events : List CodeEvent) : List CodeEvent :=
  events.filter (·.label? = some label)

/-- While code grows, the jumps that wait for their targets are patched once, and other jumps are
placed once and then patched once, with an address behind themselves.  Nothing else becomes of the
code that was there, and a new jump that is not in the log goes back. -/
structure CodeEvent.Settles (pending : List Nat) (events : List CodeEvent)
    (code code' : List Instruction) : Prop where
  le : code.length ≤ code'.length
  keeps : ∀ i < code.length, i ∉ pending → code'[i]? = code[i]?
  patches : ∀ label ∈ pending, ∃ target : Nat, code.length ≤ target ∧ target ≤ code'.length ∧
    CodeEvent.about label events = [.patched label target] ∧
    code'[label]? = code[label]?.map ({ · with d := target })
  others : ∀ label ∉ pending, CodeEvent.about label events = [] ∨
    code.length ≤ label ∧ ∃ target : Nat, label < target ∧ target ≤ code'.length ∧
      CodeEvent.about label events = [.placed label, .patched label target] ∧
      ∃ op n, (op = .jump ∨ op = .jumpif) ∧ code'[label]? = some ⟨op, .cb, n, target⟩
  backward : ∀ (i : Nat) instruction target, code.length ≤ i → code'[i]? = some instruction →
    instruction.target? = some target → CodeEvent.about i events = [] → target ≤ i

namespace CodeEvent

variable {label : Nat} {events events' : List CodeEvent} {code middle code' : List Instruction}
  {pending before after : List Nat}

theorem about_append : CodeEvent.about label (events ++ events') =
    CodeEvent.about label events ++ CodeEvent.about label events' :=
  List.filter_append _ _

theorem about_placed (events : List CodeEvent) :
    CodeEvent.about label (.placed label :: events) =
      .placed label :: CodeEvent.about label events := by
  simp [CodeEvent.about, CodeEvent.label?]

theorem about_placed_of_ne {other : Nat} (h : other ≠ label) :
    CodeEvent.about label (.placed other :: events) = CodeEvent.about label events := by
  simp [CodeEvent.about, CodeEvent.label?, h]

theorem about_patched (target : Nat) (events : List CodeEvent) :
    CodeEvent.about label (.patched label target :: events) =
      .patched label target :: CodeEvent.about label events := by
  simp [CodeEvent.about, CodeEvent.label?]

theorem about_patched_of_ne {other target : Nat} (h : other ≠ label) :
    CodeEvent.about label (.patched other target :: events) = CodeEvent.about label events := by
  simp [CodeEvent.about, CodeEvent.label?, h]

theorem about_of_quiet {event : CodeEvent} (h : event.label? = none) :
    CodeEvent.about label [event] = [] := by
  simp [CodeEvent.about, h]

namespace Settles

/-- Nothing is done, and nothing told about jumps. -/
theorem refl {event : CodeEvent} (h : event.label? = none) : Settles [] [event] code code where
  le := Nat.le_refl _
  keeps _ _ _ := rfl
  patches _ hlabel := (List.not_mem_nil hlabel).elim
  others _ _ := .inl (about_of_quiet h)
  backward i _ _ hi hcode := by
    rw [List.getElem?_eq_none hi] at hcode
    cases hcode

/-- Code is appended whose jumps go back. -/
theorem nil {new : List Instruction} (h : ∀ (i : Nat) instruction target,
      new[i]? = some instruction → instruction.target? = some target → target ≤ code.length + i) :
    Settles [] [] code (code ++ new) := by
  refine ⟨by simp, fun i hi _ => List.getElem?_append_left hi, fun _ hlabel => ?_,
    fun _ _ => .inl rfl, fun i instruction target hi hcode htarget _ => ?_⟩
  · exact (List.not_mem_nil hlabel).elim
  · rw [List.getElem?_append_right hi] at hcode
    have := h (i - code.length) instruction target hcode htarget
    omega

/-- A jump that was placed before is none of those that are placed later. -/
theorem about_eq_nil (h : Settles pending events code code') (hlabel : label ∉ pending)
    (hlt : label < code.length) : CodeEvent.about label events = [] := by
  rcases h.others label hlabel with hnil | ⟨hle, -⟩
  · exact hnil
  · omega

/-- What is pending may wait for the second part, if it was placed before the first. -/
theorem append (h₁ : Settles [] events code middle) (h₂ : Settles pending events' middle code')
    (hpending : ∀ label ∈ pending, label < code.length) :
    Settles pending (events ++ events') code code' := by
  have hle₁ := h₁.le
  have hle₂ := h₂.le
  refine ⟨by omega, fun i hi hnot => ?_, fun label hlabel => ?_, fun label hlabel => ?_,
    fun i instruction target hi hcode htarget habout => ?_⟩
  · rw [h₂.keeps i (by omega) hnot, h₁.keeps i hi List.not_mem_nil]
  · have hlt := hpending label hlabel
    obtain ⟨target, hmiddle, hstop, habout, hcode⟩ := h₂.patches label hlabel
    refine ⟨target, by omega, hstop, ?_, ?_⟩
    · rw [about_append, h₁.about_eq_nil List.not_mem_nil hlt, habout, List.nil_append]
    · rw [hcode, h₁.keeps label hlt List.not_mem_nil]
  · rw [about_append]
    rcases h₁.others label List.not_mem_nil with
      hnil | ⟨hstart, target, hlt, htarget, habout, op, n, hop, hcode⟩
    · rw [hnil, List.nil_append]
      rcases h₂.others label hlabel with hnil | ⟨hmiddle, hplaced⟩
      · exact .inl hnil
      · exact .inr ⟨by omega, hplaced⟩
    · refine .inr ⟨hstart, target, hlt, by omega, ?_, op, n, hop, ?_⟩
      · rw [habout, h₂.about_eq_nil hlabel (by omega), List.append_nil]
      · rw [h₂.keeps label (by omega) hlabel, hcode]
  · rw [about_append, List.append_eq_nil_iff] at habout
    by_cases hmiddle : i < middle.length
    · have hnot : i ∉ pending := fun hmem => by
        have := hpending i hmem
        omega
      rw [h₂.keeps i hmiddle hnot] at hcode
      exact h₁.backward i instruction target hi hcode htarget habout.1
    · exact h₂.backward i instruction target (by omega) hcode htarget habout.2

/-- A jump is placed at the end of the code, and waits from then on. -/
theorem placed {op : Opcode} {n d : Int} (hop : op = .jump ∨ op = .jumpif)
    (h : Settles (code.length :: pending) events (code ++ [⟨op, .cb, n, d⟩]) code')
    (hpending : ∀ label ∈ pending, label < code.length) :
    Settles pending (.placed code.length :: events) code code' := by
  have hlength : (code ++ [(⟨op, .cb, n, d⟩ : Instruction)]).length = code.length + 1 := by simp
  have hle := h.le
  refine ⟨by omega, fun i hi hnot => ?_, fun label hlabel => ?_, fun label hlabel => ?_,
    fun i instruction target hi hcode htarget habout => ?_⟩
  · rw [h.keeps i (by omega) (by simp [hnot, Nat.ne_of_lt hi]), List.getElem?_append_left hi]
  · have hlt := hpending label hlabel
    obtain ⟨target, hstart, hstop, habout, hcode⟩ := h.patches label (List.mem_cons_of_mem _ hlabel)
    refine ⟨target, by omega, hstop, ?_, ?_⟩
    · rw [about_placed_of_ne (Nat.ne_of_gt hlt), habout]
    · rw [hcode, List.getElem?_append_left hlt]
  · by_cases heq : code.length = label
    · subst heq
      obtain ⟨target, hstart, hstop, habout, hcode⟩ := h.patches code.length List.mem_cons_self
      refine .inr ⟨Nat.le_refl _, target, by omega, hstop, by rw [about_placed, habout],
        op, n, hop, ?_⟩
      rw [hcode, List.getElem?_concat_length, Option.map_some]
    · rw [about_placed_of_ne heq]
      rcases h.others label (by simp [hlabel, Ne.symm heq]) with hnil | ⟨hstart, hplaced⟩
      · exact .inl hnil
      · exact .inr ⟨by omega, hplaced⟩
  · by_cases heq : code.length = i
    · subst heq
      rw [about_placed] at habout
      cases habout
    · rw [about_placed_of_ne heq] at habout
      exact h.backward i instruction target (by omega) hcode htarget habout

/-- A jump gets the end of the code for its target, and waits no more. -/
theorem patched (h : Settles (before ++ after) events
      (code.modify label ({ · with d := code.length })) code')
    (hnodup : (before ++ label :: after).Nodup) (hlt : label < code.length) :
    Settles (before ++ label :: after) (.patched label code.length :: events) code code' := by
  have hlength : (code.modify label ({ · with d := code.length })).length = code.length :=
    List.length_modify ..
  have hle := h.le
  have hnot : label ∉ before ++ after := (List.nodup_middle.1 hnodup).notMem
  have hmem : ∀ other, other ∈ before ++ label :: after ↔ other = label ∨
      other ∈ before ++ after := by
    intro other
    simp only [List.mem_append, List.mem_cons]
    tauto
  refine ⟨by omega, fun i hi hother => ?_, fun other hother => ?_, fun other hother => ?_,
    fun i instruction target hi hcode htarget habout => ?_⟩
  · rw [hmem, not_or] at hother
    rw [h.keeps i (by omega) hother.2, List.getElem?_modify_ne _ _ (Ne.symm hother.1)]
  · by_cases heq : label = other
    · subst heq
      refine ⟨code.length, Nat.le_refl _, by omega, ?_, ?_⟩
      · rw [about_patched, h.about_eq_nil hnot (by omega)]
      · rw [h.keeps label (by omega) hnot, List.getElem?_modify_eq]
        rfl
    · rcases (hmem other).1 hother with rfl | hother
      · exact absurd rfl heq
      obtain ⟨target, hstart, hstop, habout, hcode⟩ := h.patches other hother
      refine ⟨target, by omega, hstop, ?_, ?_⟩
      · rw [about_patched_of_ne heq, habout]
      · rw [hcode, List.getElem?_modify_ne _ _ heq]
  · rw [hmem, not_or] at hother
    rw [about_patched_of_ne (Ne.symm hother.1)]
    rcases h.others other hother.2 with hnil | ⟨hstart, hplaced⟩
    · exact .inl hnil
    · exact .inr ⟨by omega, hplaced⟩
  · rw [about_patched_of_ne (by omega)] at habout
    exact h.backward i instruction target (by omega) hcode htarget habout

end Settles

end CodeEvent

/-! ## Steps -/

section

variable {α β : Type}

/-- Good runs append code that does not jump. -/
def Appending (x : Encode α) : Prop :=
  ∀ ⦃s a s'⦄, Yields x s a s' → s'.Good → s.Good ∧
    ∃ new, s'.store.code = s.store.code ++ new ∧ Plain (fun _ => True) new

theorem Emitting.appending {x : Encode α} {P : α → List Instruction → Prop} (h : Emitting x P)
    (hplain : ∀ a code, P a code → Plain (fun _ => True) code) : Appending x := by
  intro s a s' hrun hgood
  obtain ⟨hgood', code, hP, hcode, -⟩ := h hrun hgood
  exact ⟨hgood', code, hcode, hplain a code hP⟩

namespace Encode

theorem appending_pure (a : α) : Appending (pure a) :=
  (emitting_pure a).appending fun _ _ h => h.2 ▸ .nil

theorem appending_lift (x : Checked α) : Appending (liftM x) :=
  (emitting_lift x).appending fun _ _ h => h.2 ▸ .nil

theorem appending_emit {op : Opcode} (hop : op.IsPlain) (r : Register) (n d : Int) :
    Appending (emit op r n d) :=
  (emitting_emit op r n d).appending fun _ _ h => h ▸ .cons hop trivial .nil

theorem appending_entityOf (A : Annotations) (name : Terminal) : Appending (entityOf A name) := by
  intro s entity s' h hgood
  obtain ⟨-, rfl⟩ := yields_entityOf h
  exact ⟨hgood, [], (List.append_nil _).symm, .nil⟩

theorem appending_represent (id : NodeId) (entity : Entity) : Appending (represent id entity) := by
  intro s u s' h hgood
  obtain rfl := yields_modify.1 h
  exact ⟨⟨hgood.clean, hgood.fits⟩, [], (List.append_nil _).symm, .nil⟩

theorem appending_restrict (span : Span) (restriction : Restriction) :
    Appending (restrict span restriction) :=
  fun _ _ _ h hgood => absurd hgood (not_good_of_restrict h)

theorem appending_display (frame : Frame) (address : Address) (span : Span) :
    Appending (display frame address span) := by
  rw [display]
  split
  · exact appending_pure _
  · intro s register s' h hgood
    obtain ⟨_, s₁, h₁, h₂⟩ := yields_bind.1 h
    obtain ⟨-, rfl⟩ := yields_pure.1 h₂
    exact absurd hgood (not_good_of_restrict h₁)

end Encode

/-- In the log of a step the jumps that wait are patched and the others placed and patched.  Certain
addresses have been passed when it starts. -/
structure Logged.Settling (passed pending : List Nat) (Q : α → Prop) (t : Logged α) : Prop where
  gives : ∀ s a s', Yields t.erase s a s' → Q a
  good : ∀ s a s', Yields t.erase s a s' → s'.Good →
    s.Good ∧ s.store.code.length ≤ s'.store.code.length
  settles : ∀ s a s', Yields t.erase s a s' → s'.Good → pending.Nodup →
    (∀ label ∈ pending, label < s.store.code.length) →
    (∀ address ∈ passed, address ≤ s.store.code.length) →
    CodeEvent.Settles pending (t s).2 s.store.code s'.store.code

namespace Logged.Settling

variable {passed pending : List Nat} {Q : α → Prop} {R : β → Prop} {t : Logged α}
  {f : α → Logged β} {x : Encode α}

/-- A step that tells nothing and appends code whose jumps go back. -/
theorem of_lift (hQ : ∀ s a s', Yields x s a s' → Q a)
    (h : ∀ s a s', Yields x s a s' → s'.Good → s.Good ∧
      ∃ new, s'.store.code = s.store.code ++ new ∧
        ((∀ address ∈ passed, address ≤ s.store.code.length) →
          ∀ (i : Nat) instruction target, new[i]? = some instruction →
            instruction.target? = some target → target ≤ s.store.code.length + i)) :
    Settling passed [] Q (liftM x) := by
  refine ⟨hQ, fun s a s' hrun hgood => ?_, fun s a s' hrun hgood _ _ hpassed => ?_⟩
  · obtain ⟨hgood', new, hcode, -⟩ := h s a s' hrun hgood
    rw [hcode, List.length_append]
    exact ⟨hgood', Nat.le_add_right _ _⟩
  · obtain ⟨-, new, hcode, hback⟩ := h s a s' hrun hgood
    rw [hcode]
    exact .nil (hback hpassed)

theorem lift (h : Appending x) (hQ : ∀ s a s', Yields x s a s' → Q a) :
    Settling passed [] Q (liftM x) := by
  refine of_lift hQ fun s a s' hrun hgood => ?_
  obtain ⟨hgood', new, hcode, hplain⟩ := h hrun hgood
  refine ⟨hgood', new, hcode, fun _ i instruction target hi htarget => ?_⟩
  rw [(hplain instruction (List.mem_of_getElem? hi)).1.target?] at htarget
  cases htarget

theorem checked {x : Checked α} (hQ : ∀ a, x = .ok a → Q a) :
    Settling passed [] Q (liftM x) :=
  lift (appending_lift x) fun _ a _ h => hQ a (yields_lift.1 h).1

theorem pure {a : α} (ha : Q a) : Settling passed [] Q (pure a) :=
  lift (appending_pure a) fun _ _ _ h => (yields_pure.1 h).1 ▸ ha

/-- A jump back to an address that has been passed. -/
theorem back {op : Opcode} {r : Register} {n : Int} {start : Nat} (hstart : start ∈ passed) :
    Settling passed [] (fun _ => True) (liftM (emit op r n start)) := by
  refine of_lift (fun _ _ _ _ => trivial) fun s a s' hrun hgood => ?_
  obtain ⟨hgood', _, rfl, hcode, -⟩ := emitting_emit _ _ _ _ hrun hgood
  refine ⟨hgood', _, hcode, fun hpassed i instruction target hi htarget => ?_⟩
  have hle := hpassed start hstart
  rw [List.getElem?_singleton] at hi
  split at hi
  · cases hi
    rw [← Instruction.d_of_target? htarget]
    show (start : Int) ≤ s.store.code.length + i
    omega
  · cases hi

/-- Something is told that is not about jumps. -/
theorem note {event : CodeEvent} (h : event.label? = none) :
    Settling passed [] (fun _ => True) (Logged.note event) := by
  refine ⟨fun _ _ _ _ => trivial, fun s _ s' hrun hgood => ?_, fun s _ s' hrun _ _ _ _ => ?_⟩
  · obtain ⟨-, rfl⟩ := yields_pure.1 hrun
    exact ⟨hgood, Nat.le_refl _⟩
  · obtain ⟨-, rfl⟩ := yields_pure.1 hrun
    exact .refl h

theorem bind (ht : Settling passed [] Q t) (hf : ∀ a, Q a → Settling passed pending R (f a)) :
    Settling passed pending R (t >>= f) := by
  refine ⟨fun s b s' hrun => ?_, fun s b s' hrun hgood => ?_,
    fun s b s' hrun hgood hnodup hpending hpassed => ?_⟩
  all_goals
    rw [Logged.erase_bind] at hrun
    obtain ⟨a, s₁, h₁, h₂⟩ := yields_bind.1 hrun
    have ha := ht.gives _ _ _ h₁
  · exact (hf a ha).gives _ _ _ h₂
  · obtain ⟨hgood₁, hle₂⟩ := (hf a ha).good _ _ _ h₂ hgood
    obtain ⟨hgood₀, hle₁⟩ := ht.good _ _ _ h₁ hgood₁
    exact ⟨hgood₀, Nat.le_trans hle₁ hle₂⟩
  · obtain ⟨hgood₁, -⟩ := (hf a ha).good _ _ _ h₂ hgood
    obtain ⟨-, hle⟩ := ht.good _ _ _ h₁ hgood₁
    have hfirst := ht.settles _ _ _ h₁ hgood₁ List.nodup_nil
      (fun _ hlabel => (List.not_mem_nil hlabel).elim) hpassed
    have hsecond := (hf a ha).settles _ _ _ h₂ hgood hnodup
      (fun label hlabel => Nat.lt_of_lt_of_le (hpending label hlabel) hle)
      fun address haddress => Nat.le_trans (hpassed address haddress) hle
    rw [Logged.bind_ok h₁]
    exact hfirst.append hsecond hpending

/-- A jump that is placed waits for its target. -/
theorem forward {op : Opcode} {n : Int} (hop : op = .jump ∨ op = .jumpif) {f : Nat → Logged β}
    (hf : ∀ label, Settling passed (label :: pending) R (f label)) :
    Settling passed pending R (Logged.forward op n >>= f) := by
  have hevents : ∀ {s s₁ label}, Yields (Encode.forward op n) s label s₁ →
      ((Logged.forward op n >>= f) s).2 = .placed label :: (f label s₁).2 := by
    intro s s₁ label h
    cases h
    rfl
  refine ⟨fun s b s' hrun => ?_, fun s b s' hrun hgood => ?_,
    fun s b s' hrun hgood hnodup hpending hpassed => ?_⟩
  all_goals
    rw [Logged.erase_bind, Logged.erase_forward] at hrun
    obtain ⟨label, s₁, h₁, h₂⟩ := yields_bind.1 hrun
  · exact (hf label).gives _ _ _ h₂
  · obtain ⟨hgood₁, hle⟩ := (hf label).good _ _ _ h₂ hgood
    obtain ⟨-, hgood₀, hcode, -⟩ := yields_forward h₁ hgood₁
    rw [hcode, List.length_append] at hle
    exact ⟨hgood₀, by omega⟩
  · obtain ⟨hgood₁, -⟩ := (hf label).good _ _ _ h₂ hgood
    rw [hevents h₁]
    obtain ⟨rfl, -, hcode, -⟩ := yields_forward h₁ hgood₁
    have hnot : s.store.code.length ∉ pending := fun hmem => Nat.lt_irrefl _ (hpending _ hmem)
    have hlt : ∀ label ∈ s.store.code.length :: pending, label < s₁.store.code.length := by
      intro label hlabel
      rw [hcode, List.length_append, List.length_singleton]
      rcases List.mem_cons.1 hlabel with rfl | hlabel
      · omega
      · have := hpending label hlabel
        omega
    have hpassed' : ∀ address ∈ passed, address ≤ s₁.store.code.length := by
      intro address haddress
      have := hpassed address haddress
      rw [hcode, List.length_append]
      omega
    have hnew := (hf _).settles _ _ _ h₂ hgood (List.nodup_cons.2 ⟨hnot, hnodup⟩) hlt hpassed'
    rw [hcode] at hnew
    exact hnew.placed hop hpending

/-- The next address has been passed from then on. -/
theorem address {f : Nat → Logged β}
    (hf : ∀ start, Settling (start :: passed) pending R (f start)) :
    Settling passed pending R (liftM nextAddress >>= f) := by
  refine ⟨fun s b s' hrun => ?_, fun s b s' hrun hgood => ?_,
    fun s b s' hrun hgood hnodup hpending hpassed => ?_⟩
  all_goals
    rw [Logged.erase_bind, Logged.erase_lift] at hrun
    obtain ⟨start, s₁, h₁, h₂⟩ := yields_bind.1 hrun
    obtain ⟨rfl, rfl⟩ := yields_nextAddress h₁
  · exact (hf _).gives _ _ _ h₂
  · exact (hf _).good _ _ _ h₂ hgood
  · refine (hf _).settles _ _ _ h₂ hgood hnodup hpending fun address haddress => ?_
    rcases List.mem_cons.1 haddress with rfl | haddress
    · exact Nat.le_refl _
    · exact hpassed address haddress

/-- A jump that is patched waits no more. -/
theorem patch (before after : List Nat) {label : Nat} {t : Logged β}
    (ht : Settling passed (before ++ after) R t) :
    Settling passed (before ++ label :: after) R (Logged.patch label >>= fun _ => t) := by
  have hpatch : ∀ {s s' : EncodeState} {u : Unit}, Yields (Encode.patch label) s u s' →
      s'.store.code = s.store.code.modify label ({ · with d := s.store.code.length }) ∧
        ((Logged.patch label >>= fun _ => t) s).2 =
          .patched label s.store.code.length :: (t s').2 := by
    intro s s' u h
    cases h
    exact ⟨rfl, rfl⟩
  refine ⟨fun s b s' hrun => ?_, fun s b s' hrun hgood => ?_,
    fun s b s' hrun hgood hnodup hpending hpassed => ?_⟩
  all_goals
    rw [Logged.erase_bind, Logged.erase_patch] at hrun
    obtain ⟨_, s₁, h₁, h₂⟩ := yields_bind.1 hrun
    obtain ⟨hcode, hevents⟩ := hpatch h₁
  · exact ht.gives _ _ _ h₂
  · obtain ⟨hgood₁, hle⟩ := ht.good _ _ _ h₂ hgood
    rw [hcode, List.length_modify] at hle
    exact ⟨good_of_patch h₁ hgood₁, hle⟩
  · have hnodup' : (before ++ after).Nodup := (List.nodup_cons.1 (List.nodup_middle.1 hnodup)).2
    have hlt : ∀ other ∈ before ++ after, other < s₁.store.code.length := by
      intro other hother
      rw [hcode, List.length_modify]
      refine hpending other ?_
      simp only [List.mem_append, List.mem_cons] at hother ⊢
      exact hother.imp_right .inr
    have hpassed' : ∀ address ∈ passed, address ≤ s₁.store.code.length := by
      rw [hcode, List.length_modify]
      exact hpassed
    have hnew := ht.settles _ _ _ h₂ hgood hnodup' hlt hpassed'
    rw [hcode] at hnew
    rw [hevents]
    exact hnew.patched hnodup (hpending label (by simp))

/-- The frames of routines are made without code. -/
theorem push {level : Nat} {frame : Frame} {size : Int} (hframe : frame.At level)
    (hlt : level < Machine.maxRoutineLevel) :
    Settling passed [] (Frame.At (level + 1)) (Logged.push frame size) :=
  (checked fun _ => hframe.push hlt).bind fun _ hinner => (note rfl).bind fun _ _ => pure hinner

end Logged.Settling

end

/-! ## Phrases -/

theorem Logged.closed_settling (A : Annotations) :
    Logged.Closed A (fun _ => True) (fun _ _ => True) @Logged.Settling where
  pure := .pure
  bind := .bind
  checked := .checked
  emit hop := .lift (appending_emit hop _ _ _) fun _ _ _ _ => trivial
  back := .back
  address := .address
  forward hop := .forward hop
  patch := .patch
  restrict _ := .lift (appending_restrict _ _) fun _ _ _ _ => trivial
  represent _ _ := .lift (appending_represent _ _) fun _ _ _ _ => trivial
  entityOf _ := .lift (appending_entityOf _ _) fun _ _ _ _ => trivial
  display _ _ _ := .bind (.note rfl) fun _ _ =>
    .lift (appending_display _ _ _) fun _ _ _ _ => trivial
  push := .push

/-- While the code of a program is generated, each forward jump is placed once and patched once. -/
theorem Program.Generated.settles {program : Program} {A : Annotations} {object : ObjectCode}
    {s : EncodeState} {q : Draft} (h : program.Generated A object s q) :
    ∃ log, (program.command.logged A .global ⟨.empty, .empty, log⟩).1 = .ok ((), s) ∧
      CodeEvent.Settles [] (program.command.logged A .global ⟨.empty, .empty, log⟩).2 []
        s.store.code := by
  obtain ⟨log, hrun⟩ := h.run
  have hclosed : Logged.Settling [] [] (fun _ => True) (program.command.logged A .global) :=
    program.closed_command (Logged.closed_settling A) fun _ _ => trivial
  rw [← program.command.erase_logged A .global] at hrun
  exact ⟨log, hrun, hclosed.settles _ _ _ hrun h.good List.nodup_nil
    (fun _ hlabel => (List.not_mem_nil hlabel).elim) fun _ hmem => (List.not_mem_nil hmem).elim⟩

end Triangle
