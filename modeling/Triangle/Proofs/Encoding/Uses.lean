import Triangle.Proofs.Encoding.Entities
import Triangle.Proofs.Encoding.Translation

/-!
# No use of a name is dropped

The steps of code generation do nothing where they meet an entity that they have no code for.  For a
well-typed program that never happens: what is called is a routine, what is fetched is a value or a
variable, what is stored into is a variable.  A value that is part of the code has no parts, so
nothing is ever selected from it.
-/

namespace Triangle

variable {vname : Vname} {Γ Δ : Context} {τ result : Ty} {p q : Draft} {entities : NodeMap Entity}
  {meaning : Meaning} {formals : Formals} {words : Int} {s : Standard}

/-! ## What there is code for -/

/-- There is code for what is done with an entity. -/
def Use.handled : Use → Bool
  | .call (.knownRoutine _) | .call (.unknownRoutine _) | .call (.primitive _)
  | .call (.equality _) => true
  | .closure (.knownRoutine _) | .closure (.unknownRoutine _) | .closure (.primitive _) => true
  | .fetch ⟨.knownValue _, offset, indexed⟩ => offset = 0 && !indexed
  | .fetch ⟨.unknownValue _, _, _⟩ | .fetch ⟨.knownAddress _, _, _⟩
  | .fetch ⟨.unknownAddress _, _, _⟩ => true
  | .store ⟨.knownAddress _, _, _⟩ | .store ⟨.unknownAddress _, _, _⟩ => true
  | .address ⟨.unknownValue _, _, _⟩ | .address ⟨.knownAddress _, _, _⟩
  | .address ⟨.unknownAddress _, _, _⟩ => true
  | _ => false

/-- The entity that is used. -/
def Use.entity : Use → Entity
  | .call entity | .closure entity => entity
  | .fetch access | .store access | .address access => access.entity

/-- There is code for all that is used. -/
def Event.handled : Event → Bool
  | .use _ u _ _ _ => u.handled
  | _ => true

/-- What there is code for is represented. -/
theorem Use.entity_ne_unrepresented {u : Use} (h : u.handled = true) :
    u.entity ≠ .unrepresented := by
  cases u with
  | call entity | closure entity =>
    rintro rfl
    cases h
  | fetch access | store access | address access =>
    obtain ⟨entity, offset, indexed⟩ := access
    rintro rfl
    cases h

/-- Nothing was dropped so far. -/
def Draft.Handled (p : Draft) : Prop := ∀ event ∈ p.trace, event.handled = true

theorem Draft.Handled.record {p : Draft} {event : Event} (h : p.Handled)
    (hevent : event.handled = true) : (p.record event).Handled := by
  intro other hother
  obtain hother | hother := List.mem_append.1 hother
  · exact h other hother
  · rw [List.mem_singleton.1 hother]
    exact hevent

variable {frame : Frame} {F : List Parameter}

theorem Draft.Handled.visit {p : Draft} (h : p.Handled) {phrase : Phrase} {start : Nat}
    {pushed : Int} : (p.visit phrase frame start pushed).Handled :=
  h.record rfl

theorem Draft.Handled.use {p : Draft} {name : Terminal} {u : Use} {formals : List Parameter}
    (h : p.Handled) (hu : u.handled = true) : (p.use name u formals frame).Handled :=
  h.record hu

theorem Draft.Handled.emit {p : Draft} (h : p.Handled) (code : List Instruction) :
    (p.emit code).Handled := h

theorem Draft.Handled.represent {p : Draft} (h : p.Handled) (id : NodeId) (entity : Entity) :
    (p.represent id entity).Handled := h

/-! ## What the name in front of a V-name stands for -/

section

variable {A : Annotations} {R : Facts}

/-- A V-name stands for a part of what the name in front stands for, and for the whole of it if that
has no parts. -/
theorem Vname.Emits.access : {vname : Vname} → {τ : Ty} → {Γ : Context} → {assignable : Bool} →
    {F : List Parameter} → {frame : Frame} → {p q : Draft} → {access : Access} →
    vname.Typed A Γ τ assignable → vname.Emits A F frame p access q →
    access.entity = A.entityOf p.entities vname.root ∧
    ∃ σ, A.Means Γ vname.root (if assignable then .var σ else .const σ) ∧
      (σ.Simple → σ = τ ∧ access.offset = 0 ∧ access.indexed = false)
  | .dot _ record _, _, _, _, _, _, _, _, _, ht, he => by
    obtain ⟨-, _, _, hrecord, -⟩ := ht
    obtain ⟨_, _, _, _, hr, -, -, rfl, -⟩ := he
    obtain ⟨hentity, σ, hmeans, hsimple⟩ := Vname.Emits.access hrecord hr
    refine ⟨hentity, σ, hmeans, fun hσ => ?_⟩
    obtain ⟨rfl, -⟩ := hsimple hσ
    obtain h | h | h := hσ <;> cases h
  | .simple _ _, τ, _, _, _, _, _, _, _, ht, he => by
    obtain ⟨rfl, -⟩ := he
    exact ⟨rfl, τ, ht.2, fun _ => ⟨rfl, rfl, rfl⟩⟩
  | .subscript _ array index, _, _, _, _, _, _, _, access, ht, he => by
    obtain ⟨-, _, harray, -⟩ := ht
    obtain ⟨whole, _, _, _, hr, -, hr', -⟩ := he
    obtain ⟨hentity, σ, hmeans, hsimple⟩ := Vname.Emits.access harray hr
    have hwhole : access.entity = whole.entity := by
      split at hr'
      · obtain ⟨-, _, _, -, -, rfl⟩ := hr'
        rfl
      · obtain ⟨_, _, _, -, -, rfl, -⟩ := hr'
        rfl
    refine ⟨hwhole.trans hentity, σ, hmeans, fun hσ => ?_⟩
    obtain ⟨rfl, -⟩ := hsimple hσ
    obtain h | h | h := hσ <;> cases h

/-- What a V-name stands for can be fetched. -/
theorem Vname.Emits.handled_fetch {assignable : Bool} {access : Access}
    (ht : vname.Typed A Γ τ assignable) (he : vname.Emits A F frame p access q)
    (hfiled : Γ.Filed R p.entities) : (Use.fetch access).handled = true := by
  obtain ⟨hentity, σ, hmeans, hsimple⟩ := he.access ht
  obtain ⟨entity, offset, indexed⟩ := access
  obtain rfl : entity = _ := hentity
  cases assignable with
  | true => obtain ⟨_, h⟩ | ⟨_, h⟩ := hmeans.var hfiled <;> rw [h] <;> rfl
  | false =>
    obtain ⟨_, h, hσ⟩ | ⟨_, h⟩ := hmeans.const hfiled
    · obtain ⟨-, rfl, rfl⟩ := hsimple hσ
      rw [h]
      rfl
    · rw [h]
      rfl

/-- A variable can be stored into, and its address can be taken. -/
theorem Vname.Emits.handled_variable {access : Access} (ht : vname.Typed A Γ τ true)
    (he : vname.Emits A F frame p access q) (hfiled : Γ.Filed R p.entities) :
    (Use.store access).handled = true ∧ (Use.address access).handled = true := by
  obtain ⟨hentity, σ, hmeans, -⟩ := he.access ht
  obtain ⟨entity, offset, indexed⟩ := access
  obtain rfl : entity = _ := hentity
  obtain ⟨_, h⟩ | ⟨_, h⟩ := Annotations.Means.var hmeans hfiled <;> rw [h] <;> exact ⟨rfl, rfl⟩

/-- A routine can be called, and its closure can be pushed. -/
theorem Annotations.Means.handled_routine {name : Terminal} (h : A.Means Γ name meaning)
    (hroutine : meaning.Routine formals words) (hfiled : Γ.Filed R entities) :
    (Use.call (A.entityOf entities name)).handled = true ∧
      (Use.closure (A.entityOf entities name)).handled = true := by
  obtain ⟨_, _, h, -⟩ | ⟨_, _, -, -, h⟩ | ⟨_, _, -, -, h⟩ := h.routine hroutine hfiled <;>
    rw [h] <;> exact ⟨rfl, rfl⟩

/-- An operator can be applied. -/
theorem Annotations.handled_operator {operator : Terminal}
    (h : A.referentOf? operator.mark.id = some (.standard s)) (hs : s.primitive? ≠ none) :
    (Use.call (A.entityOf entities operator)).handled = true := by
  rw [entityOf_standard h]
  cases s <;> first | rfl | exact absurd rfl hs

end

theorem Standard.primitive?_of_binary {left right : Ty} (h : s.Operates left right result) :
    s.primitive? ≠ none := by
  rcases h with h | ⟨h, -⟩ <;> cases s <;> first | (cases h; done) | exact Option.some_ne_none _

theorem Standard.primitive?_of_unary {operand : Ty} (h : s.meaning = .unary operand result) :
    s.primitive? ≠ none := by
  cases s <;> first | (cases h; done) | exact Option.some_ne_none _

/-! ## All uses -/

/-- Here nothing has to be known about the code of a routine. -/
abbrev Context.Named (Γ : Context) (entities : NodeMap Entity) : Prop :=
  Γ.Filed (fun _ _ _ _ => True) entities

variable {A : Annotations}

theorem Declaration.Emits.named {declaration : Declaration} {size : Int}
    (ht : declaration.Typed A Γ Δ) (he : declaration.Emits A F frame p size q)
    (hnamed : Γ.Named p.entities) : Δ.Named q.entities :=
  he.filed ht (fun _ _ _ _ _ _ _ => trivial) hnamed

/-- The body of a routine starts with the routine and its parameters filed. -/
theorem Emission.Routine.handled {m : Mark} {parameters : Parameters}
    {body : Frame → Draft → Int → Draft → Prop} (hmeaning : meaning.Routine formals words)
    (ht : parameters.Typed A (Γ.bind m.id meaning) formals Δ)
    (hbody : ∀ inner p words q, body inner p words q → Δ.Named p.entities → p.Handled → q.Handled)
    (he : Emission.Routine A m parameters frame body p q) (hnamed : Γ.Named p.entities)
    (hp : p.Handled) : q.Handled := by
  obtain ⟨inner, outer, arguments, result, r₁, r₂, -, -, -, hr₁, hr₂, -, rfl⟩ := he
  have hfits : (Entity.knownRoutine ⟨frame.level, (p.address + 1 : Nat)⟩).Fits
      (fun _ _ _ _ => True) m.id meaning := by
    obtain ⟨rfl, -⟩ | ⟨τ, rfl, -⟩ := hmeaning
    · exact .procedure trivial
    · exact .function trivial
  have hp₁ : r₁.Handled := by
    rw [Draft.Handled, hr₁.silent.2]
    exact hp
  have hp₂ := hbody _ _ _ _ hr₂ (hr₁.filed ht (hnamed.represent hfits)) hp₁
  exact (hp₂.emit _).record rfl

/-- There is code for what is done with a V-name. -/
theorem Access.Used.handled {u : Use} {c : List Instruction} {access : Access} {assignable : Bool}
    {above : Frame} {y : Int} (h : access.Used Γ above τ assignable u c y)
    (ht : vname.Typed A Γ τ assignable) (he : vname.Emits A F frame p access q)
    (hnamed : Γ.Named p.entities) : u.handled = true := by
  cases h with
  | fetch => exact he.handled_fetch ht hnamed
  | store _ ha =>
    subst ha
    exact (he.handled_variable ht hnamed).1
  | address ha =>
    subst ha
    exact (he.handled_variable ht hnamed).2

theorem Draft.Advances.handled {x y : Int} (h : p.Advances A Γ F x y q)
    (hnamed : Γ.Named p.entities)
    (hp : p.Handled) : q.Handled := by
  cases h with
  | literal | scale | push | pop | stores => exact hp.emit _
  | call _ _ hname hroutine => exact (hp.use (hname.handled_routine hroutine hnamed).1).emit _
  | binary _ _ hoperator hs =>
    exact (hp.use (Annotations.handled_operator hoperator
      (Standard.primitive?_of_binary hs))).emit _
  | unary _ _ hoperator hs =>
    exact (hp.use (Annotations.handled_operator hoperator (Standard.primitive?_of_unary hs))).emit _
  | closure hname hroutine => exact (hp.use (hname.handled_routine hroutine hnamed).2).emit _

/-- Nothing is dropped in a phrase. -/
def Phrase.Handled (A : Annotations) (phrase : Phrase) : Prop :=
  ∀ ⦃Γ F frame p n q⦄, phrase.Emitted A Γ F frame p n q → Γ.Named p.entities → p.Handled → q.Handled

theorem Phrase.Progress.handled {whole : Phrase} {D E : List Declaration} {above : Frame} {x : Int}
    {ids : List NodeId} {points : List Point}
    (h : whole.Progress A Γ F D frame p Δ E above x ids points q)
    (ih : ∀ phrase : Phrase, sizeOf phrase < sizeOf whole → phrase.Handled A)
    (hnamed : Γ.Named p.entities) (hp : p.Handled) : Δ.Named q.entities ∧ q.Handled := by
  induction h with
  | start => exact ⟨hnamed, hp⟩
  | step _ hr hq => exact ⟨(hr.grows _).filed hq.1, hr.handled hq.1 hq.2⟩
  | file _ id entity hid hq =>
    exact ⟨((Draft.Grows.refl _ _).represent hid entity).filed hq.1, hq.2.represent _ _⟩
  | expand _ _ _ hq => exact hq
  | part _ phrase hr hlt hq => exact ⟨(phrase.files hr).1.filed hq.1, ih phrase hlt hr hq.1 hq.2⟩
  | access _ hvname hr hu hlt hq =>
    have hr' := ih (.vname _) hlt ⟨_, _, _, hvname, hr, rfl⟩ hq.1 hq.2
    have hnamed' := (hr.grows hvname).filed hq.1
    exact ⟨hnamed', (hr'.use (hu.handled hvname hr hq.1)).emit _⟩
  | declare _ hd hr _ hlt hq =>
    exact ⟨hr.named hd hq.1, ih (.declaration _) hlt ⟨_, hd, hr⟩ hq.1 hq.2⟩
  | branch _ first second hr₂ hr₃ hlt₁ hlt₂ hq =>
    have hnamed₂ := (first.files hr₂).1.filed hq.1
    have hp₂ := ih first hlt₁ hr₂ hq.1 (hq.2.emit _)
    exact ⟨(second.files hr₃).1.filed hnamed₂, ih second hlt₂ hr₃ hnamed₂ (hp₂.emit _)⟩
  | whileDo body test hr₁ hr₂ hlt₁ hlt₂ =>
    have hnamed₁ := (body.files hr₁).1.filed hnamed
    have hp₁ := ih body hlt₁ hr₁ hnamed (hp.emit _)
    exact ⟨(test.files hr₂).1.filed hnamed₁, (ih test hlt₂ hr₂ hnamed₁ hp₁).emit _⟩
  | loopWhile prelude test body hr₁ hr₂ hr₃ hlt₁ hlt₂ hlt₃ =>
    have hnamed₁ := (prelude.files hr₁).1.filed hnamed
    have hnamed₂ := (test.files hr₂).1.filed hnamed₁
    have hp₂ := ih test hlt₂ hr₂ hnamed₁ (ih prelude hlt₁ hr₁ hnamed hp)
    exact ⟨(body.files hr₃).1.filed hnamed₂, (ih body hlt₃ hr₃ hnamed₂ (hp₂.emit _)).emit _⟩

theorem Phrase.handled (phrase : Phrase) : phrase.Handled A := by
  intro Γ F frame p n q h hnamed hp
  cases h.composed [] with
  | parts hprogress => exact (hprogress.handled (fun phrase _ => phrase.handled) hnamed hp).2.visit
  | routine body hn hr hd hparameters hΔ hfresh hmeaning ht hpoints hlt =>
    subst hΔ
    exact (hr.handled hmeaning ht (fun _ _ _ _ h => body.handled h.1) hnamed hp).visit
termination_by sizeOf phrase

/-- Nothing is dropped in the code of a well-typed program. -/
theorem Program.Emits.handled {program : Program} {code : List Instruction} {trace : List Event}
    (ht : program.command.Typed A .empty) (he : program.Emits A code trace) :
    ∀ event ∈ trace, event.handled = true := by
  obtain ⟨q, hq, -, rfl⟩ := he
  exact (Phrase.command program.command).handled ⟨ht, hq, rfl⟩ (.empty _ _) fun _ h => nomatch h

/-- Wherever the code of a source uses a name, there is code for the use, and what is used is
represented. -/
theorem Translates.uses_handled {source : Source} {failFast folding : Bool} {program : Program}
    {object : ObjectCode} (h : Translates source failFast folding program A object) :
    (∃ trace, program.Emits A object.instructions trace) ∧
      ∀ trace, program.Emits A object.instructions trace →
        ∀ name u formals frame address, Event.use name u formals frame address ∈ trace →
          u.handled = true ∧ u.entity ≠ .unrepresented := by
  refine ⟨h.emits, fun trace htrace name u formals frame address hevent => ?_⟩
  have hu : u.handled = true := htrace.handled h.typed _ hevent
  exact ⟨hu, Use.entity_ne_unrepresented hu⟩

theorem Translates.relay_uses_handled :
    ∃ program A object, Translates .relay false true program A object ∧
      ∃ trace, program.Emits A object.instructions trace ∧
        ∀ name u formals frame address, Event.use name u formals frame address ∈ trace →
          u.handled = true ∧ u.entity ≠ .unrepresented := by
  obtain ⟨program, A, object, h⟩ := Translates.relay
  obtain ⟨⟨trace, htrace⟩, hhandled⟩ := h.uses_handled
  exact ⟨program, A, object, h, trace, htrace, hhandled trace htrace⟩

end Triangle
