import Triangle.Proofs.Diagnostic.Errors
import Triangle.Proofs.Encoding.Emission
import Triangle.Proofs.Runs

/-!
# Runs of code generation

A run of code generation that reports nothing and does not fill the code store appends the code that
the relation of `Encoding.Emission` describes.  The relation knows the targets of jumps when the
jumps are stored, and a run does not; so while a run goes on the draft and the code store differ in
the jumps that are still to be patched.  They agree in how long the code is, and that is all a
phrase can see of what comes before it.  Hence `Generates` speaks of *every* draft that is as long
as the code store.

The induction goes through each run from its end to its start, because it is the end that is known
to be good.
-/

namespace Triangle

variable {s s' : EncodeState} {op : Opcode} {n size : Int} {name : Terminal} {entity : Entity}
  {label : Nat} {S R₂ : Draft → Int → Draft → Prop} {id : NodeId} {R₁ : Draft → Unit → Draft → Prop}
  {program : Program} {log log' : Log Problem} {object : ObjectCode}

/-- Nothing was reported and nothing was dropped. -/
structure EncodeState.Good (s : EncodeState) : Prop where
  clean : s.log.errors = 0
  fits : s.store.overflowed = false

/-- A draft that is as long as the code store, with the same entities. -/
structure Tracks (s : EncodeState) (p : Draft) : Prop where
  address : p.address = s.store.code.length
  entities : p.entities = s.entities

variable {α β : Type}

/-- Good runs append code of which a property holds. -/
def Emitting (x : Encode α) (P : α → List Instruction → Prop) : Prop :=
  ∀ ⦃s a s'⦄, Yields x s a s' → s'.Good → s.Good ∧
    ∃ code, P a code ∧ s'.store.code = s.store.code ++ code ∧ s'.entities = s.entities

/-- Good runs append code that takes a draft over into another. -/
def Generates (x : Encode α) (R : Draft → α → Draft → Prop) : Prop :=
  ∀ ⦃s a s'⦄, Yields x s a s' → s'.Good → s.Good ∧
    ∃ new, s'.store.code = s.store.code ++ new ∧
      ∀ p, Tracks s p → ∃ q, R p a q ∧ q.code = p.code ++ new ∧ q.entities = s'.entities

/-- Code put at the end of both keeps a draft in step with the store. -/
theorem Tracks.of_append {p q : Draft} {new : List Instruction} (h : Tracks s p)
    (hs' : s'.store.code = s.store.code ++ new) (hq : q.code = p.code ++ new)
    (hentities : q.entities = s'.entities) : Tracks s' q := by
  refine ⟨?_, hentities⟩
  have := h.address
  simp only [Draft.address, hq, hs', List.length_append] at this ⊢
  omega

/-! ## Steps -/

variable {u : Unit} {A : Annotations} {frame : Frame}

namespace Encode

/-- An instruction that was not dropped had room in the code store. -/
theorem room_of_emit {r : Register} {d : Int} (h : Yields (emit op r n d) s u s')
    (hgood : s'.Good) : s.store.code.length < Machine.codeSize := by
  obtain rfl := yields_modify.1 h
  have hfits := hgood.fits
  simp only [CodeStore.emit] at hfits
  split at hfits
  · assumption
  · cases hfits

theorem emitting_emit (op : Opcode) (r : Register) (n d : Int) :
    Emitting (emit op r n d) fun _ code => code = [⟨op, r, n, d⟩] := by
  intro s u s' h hgood
  have hroom := room_of_emit h hgood
  obtain rfl := yields_modify.1 h
  have hfits := hgood.fits
  simp only [CodeStore.emit, if_pos hroom] at hfits
  refine ⟨⟨hgood.clean, hfits⟩, _, rfl, ?_, rfl⟩
  simp only [CodeStore.emit, if_pos hroom]

theorem emitting_literal (value : Int) :
    Emitting (literal value) fun _ code => code = literalCode value :=
  emitting_emit _ _ _ _

theorem emitting_pure (a : α) : Emitting (pure a) fun b code => a = b ∧ code = [] := by
  intro s b s' h hgood
  obtain ⟨rfl, rfl⟩ := yields_pure.1 h
  exact ⟨hgood, [], ⟨rfl, rfl⟩, by simp, rfl⟩

theorem emitting_lift (x : Checked α) :
    Emitting (liftM x : Encode α) fun a code => x = .ok a ∧ code = [] := by
  intro s a s' h hgood
  obtain ⟨hx, rfl⟩ := yields_lift.1 h
  exact ⟨hgood, [], ⟨hx, rfl⟩, by simp, rfl⟩

end Encode

section

variable {x : Encode α} {f : α → Encode β} {P P' : α → List Instruction → Prop}
  {Q : β → List Instruction → Prop} {c : List Instruction}

theorem Emitting.imp (hx : Emitting x P) (h : ∀ a code, P a code → P' a code) : Emitting x P' := by
  intro s a s' hrun hgood
  obtain ⟨hgood₀, code, hP, hcode, hentities⟩ := hx hrun hgood
  exact ⟨hgood₀, code, h a code hP, hcode, hentities⟩

/-- The code of two steps is that of the first, then that of the second. -/
theorem Emitting.bind (hx : Emitting x P)
    (hf : ∀ a, Emitting (f a) fun b code => ∀ c, P a c → Q b (c ++ code)) :
    Emitting (x >>= f) Q := by
  intro s b s' h hgood
  obtain ⟨a, t, h₁, h₂⟩ := yields_bind.1 h
  obtain ⟨hgood₁, c₂, hQ, hcode₂, hentities₂⟩ := hf a h₂ hgood
  obtain ⟨hgood₀, c₁, hP, hcode₁, hentities₁⟩ := hx h₁ hgood₁
  refine ⟨hgood₀, c₁ ++ c₂, hQ c₁ hP, ?_, hentities₂.trans hentities₁⟩
  rw [hcode₂, hcode₁, List.append_assoc]

/-- The code of a step is known, and more code follows. -/
theorem Emitting.then (hx : Emitting x fun _ code => code = c)
    (hf : ∀ a, Emitting (f a) fun b code => Q b (c ++ code)) : Emitting (x >>= f) Q :=
  hx.bind fun a => (hf a).imp fun _ _ h _ hc => hc ▸ h

/-- The code of the last step is known. -/
theorem Emitting.last (hx : Emitting x fun _ code => code = c) (h : ∀ a, P a c) : Emitting x P :=
  hx.imp fun a _ hc => hc ▸ h a

end

namespace Encode

theorem emitting_nothing : Emitting (pure () : Encode Unit) fun _ code => code = [] :=
  (emitting_pure ()).imp fun _ _ h => h.2

theorem emitting_lift_bind {x : Checked α} {f : α → Encode β} {Q : β → List Instruction → Prop}
    (hf : ∀ a, x = .ok a → Emitting (f a) Q) : Emitting (liftM x >>= f) Q := by
  intro s b s' h
  obtain ⟨a, _, h₁, h₂⟩ := yields_bind.1 h
  obtain ⟨hx, rfl⟩ := yields_lift.1 h₁
  exact hf a hx h₂

/-- After a restriction was reported there is an error. -/
theorem not_good_of_restrict {span : Span} {restriction : Restriction}
    (h : Yields (restrict span restriction) s u s') : ¬ s'.Good := by
  obtain rfl := yields_modify.1 h
  exact fun hgood => Log.errors_report_ne_zero _ _ _ hgood.clean

theorem emitting_limit (size : Int) (span : Span) :
    Emitting (limit size span) fun n code => n = size ∧ size ≤ Machine.maxLength ∧ code = [] := by
  intro s n s' h hgood
  rw [limit] at h
  split at h
  · simp only [yields_bind, yields_pure] at h
    obtain ⟨_, t, h₁, -, rfl⟩ := h
    exact absurd hgood (not_good_of_restrict h₁)
  · rename_i hle
    obtain ⟨rfl, rfl⟩ := yields_pure.1 h
    exact ⟨hgood, [], ⟨rfl, by omega, rfl⟩, by simp, rfl⟩

variable {address : Address} {span : Span} {Q : β → List Instruction → Prop}

/-- A register is looked up, and there is one. -/
theorem emitting_display_bind {f : Register → Encode β}
    (hf : ∀ r, Emitting (f r) fun b code => frame.display? address = some r → Q b code) :
    Emitting (display frame address span >>= f) Q := by
  intro s b s' h hgood
  obtain ⟨register, t, h₁, h₂⟩ := yields_bind.1 h
  obtain ⟨hgood₁, code, hQ, hcode, hentities⟩ := hf register h₂ hgood
  rw [display] at h₁
  split at h₁
  · rename_i found hfound
    obtain ⟨rfl, rfl⟩ := yields_pure.1 h₁
    exact ⟨hgood₁, code, hQ hfound, hcode, hentities⟩
  · simp only [yields_bind, yields_pure] at h₁
    obtain ⟨_, t, h₁, -, rfl⟩ := h₁
    exact absurd hgood₁ (not_good_of_restrict h₁)

theorem emitting_callPrimitive (routine : Primitive) :
    Emitting (callPrimitive routine) fun _ code => code = primitiveCode routine := by
  rw [callPrimitive, primitiveCode]
  split
  · exact emitting_nothing
  · exact emitting_emit _ _ _ _

theorem emitting_call (entity : Entity) (frame : Frame) (arguments : Int) (span : Span) :
    Emitting (call entity frame arguments span) fun _ => entity.Called frame arguments := by
  cases entity with
  | knownRoutine address =>
    exact emitting_display_bind fun link =>
      (emitting_emit _ _ _ _).last fun _ hlink => ⟨link, hlink, rfl⟩
  | unknownRoutine address =>
    exact emitting_display_bind fun register => (emitting_emit _ _ _ _).then fun _ =>
      (emitting_emit _ _ _ _).last fun _ hregister => ⟨register, hregister, rfl⟩
  | primitive routine => exact emitting_callPrimitive routine
  | equality routine =>
    exact (emitting_literal _).then fun _ => (emitting_callPrimitive routine).last fun _ => rfl
  | _ => exact emitting_nothing

theorem emitting_fetchRoutine (entity : Entity) (frame : Frame) (span : Span) :
    Emitting (fetchRoutine entity frame span) fun _ => entity.Closed frame := by
  cases entity with
  | knownRoutine address =>
    exact emitting_display_bind fun link => (emitting_emit _ _ _ _).then fun _ =>
      (emitting_emit _ _ _ _).last fun _ hlink => ⟨link, hlink, rfl⟩
  | unknownRoutine address =>
    exact emitting_display_bind fun register =>
      (emitting_emit _ _ _ _).last fun _ hregister => ⟨register, hregister, rfl⟩
  | primitive routine =>
    exact (emitting_emit _ _ _ _).then fun _ => (emitting_emit _ _ _ _).last fun _ => rfl
  | _ => exact emitting_nothing

theorem emitting_addOffset (offset : Int) :
    Emitting (if offset ≠ 0 then do literal offset; callPrimitive .add else pure ())
      fun _ code => code = if offset ≠ 0 then literalCode offset ++ primitiveCode .add else [] := by
  split
  · exact (emitting_literal _).then fun _ => (emitting_callPrimitive _).last fun _ => rfl
  · exact emitting_nothing

theorem emitting_indirectAddress (access : Access) (address : Address) (frame : Frame)
    (span : Span) :
    Emitting (indirectAddress access address frame span) fun _ => access.Pointed address frame := by
  obtain ⟨entity, offset, indexed⟩ := access
  refine emitting_display_bind fun register => (emitting_emit _ _ _ _).then fun _ => ?_
  cases indexed with
  | false => exact (emitting_addOffset offset).last fun _ hregister => ⟨register, hregister, rfl⟩
  | true =>
    exact (emitting_callPrimitive .add).then fun _ =>
      (emitting_addOffset offset).last fun _ hregister => ⟨register, hregister, rfl⟩

theorem emitting_move (direct indirect : Opcode) (access : Access) (address : Address) (size : Int)
    (frame : Frame) (span : Span) :
    Emitting (move direct indirect access address size frame span)
      fun _ => access.Moved direct indirect address size frame := by
  obtain ⟨entity, offset, indexed⟩ := access
  refine emitting_display_bind fun register => emitting_lift_bind fun displacement hsum => ?_
  cases indexed with
  | false =>
    exact (emitting_emit _ _ _ _).last fun _ hregister =>
      ⟨register, displacement, hregister, hsum, rfl⟩
  | true =>
    exact (emitting_emit _ _ _ _).then fun _ => (emitting_callPrimitive .add).then fun _ =>
      (emitting_emit _ _ _ _).last fun _ hregister => ⟨register, displacement, hregister, hsum, rfl⟩

/-- Code for a value that one instruction can move. -/
theorem emitting_limited {f : Int → Encode Unit} {Q : Int → List Instruction → Prop}
    (hf : ∀ n, Emitting (f n) fun _ => Q n) :
    Emitting (limit size span >>= f) fun _ code => size ≤ Machine.maxLength ∧ Q size code :=
  (emitting_limit size span).bind fun n => (hf n).imp fun _ _ hcode _ h => by
    obtain ⟨rfl, hle, rfl⟩ := h
    exact ⟨hle, hcode⟩

/-- Code that goes through the address of a variable. -/
theorem emitting_indirect (access : Access) (address : Address) (frame : Frame) (span : Span)
    (op : Opcode) (n : Int) :
    Emitting (do
      indirectAddress access address frame span
      emit op .cb n 0) fun _ code =>
      ∃ pointer, access.Pointed address frame pointer ∧ code = pointer ++ [⟨op, .cb, n, 0⟩] :=
  (emitting_indirectAddress _ _ _ _).bind fun _ =>
    (emitting_emit _ _ _ _).last fun _ pointer hpointed => ⟨pointer, hpointed, rfl⟩

theorem emitting_fetch (access : Access) (size : Int) (frame : Frame) (span : Span) :
    Emitting (fetch access size frame span) fun _ => access.Fetched size frame := by
  obtain ⟨entity, offset, indexed⟩ := access
  cases entity with
  | knownValue value => exact emitting_limited fun n => emitting_literal value
  | unknownValue address => exact emitting_limited fun n => emitting_move _ _ _ _ n _ _
  | knownAddress address => exact emitting_limited fun n => emitting_move _ _ _ _ n _ _
  | unknownAddress address => exact emitting_limited fun n => emitting_indirect _ _ _ _ _ n
  | _ => exact emitting_limited fun n => emitting_nothing

theorem emitting_store (access : Access) (size : Int) (frame : Frame) (span : Span) :
    Emitting (store access size frame span) fun _ => access.Stored size frame := by
  obtain ⟨entity, offset, indexed⟩ := access
  cases entity with
  | knownAddress address => exact emitting_limited fun n => emitting_move _ _ _ _ n _ _
  | unknownAddress address => exact emitting_limited fun n => emitting_indirect _ _ _ _ _ n
  | _ => exact emitting_limited fun n => emitting_nothing

/-- Pushing an address that is known up to an index. -/
theorem emitting_directAddress (access : Access) (address : Address) (frame : Frame)
    (span : Span) :
    Emitting (do
      let register ← display frame address span
      emit .loada register 0 (← Word.add address.displacement access.offset)
      if access.indexed then
        callPrimitive .add) fun _ code =>
      ∃ register displacement, frame.display? address = some register ∧
        Word.add address.displacement access.offset = .ok displacement ∧
        code = [⟨.loada, register, 0, displacement⟩] ++
          if access.indexed then primitiveCode .add else [] := by
  obtain ⟨entity, offset, indexed⟩ := access
  refine emitting_display_bind fun register => emitting_lift_bind fun displacement hsum =>
    (emitting_emit _ _ _ _).then fun _ => ?_
  cases indexed with
  | false => exact emitting_nothing.last fun _ hregister =>
      ⟨register, displacement, hregister, hsum, rfl⟩
  | true =>
    exact (emitting_callPrimitive .add).last fun _ hregister =>
      ⟨register, displacement, hregister, hsum, rfl⟩

theorem emitting_fetchAddress (access : Access) (frame : Frame) (span : Span) :
    Emitting (fetchAddress access frame span) fun _ => access.Addressed frame := by
  obtain ⟨entity, offset, indexed⟩ := access
  cases entity with
  | unknownValue address | knownAddress address =>
    exact emitting_directAddress ⟨_, offset, indexed⟩ address frame span
  | unknownAddress address => exact emitting_indirectAddress ⟨_, offset, indexed⟩ address frame span
  | _ => exact emitting_nothing

theorem yields_entityOf (h : Yields (entityOf A name) s entity s') :
    entity = A.entityOf s.entities name ∧ s' = s := by
  rw [entityOf] at h
  rw [Annotations.entityOf]
  cases hreferent : A.referentOf? name.mark.id with
  | none =>
    rw [hreferent] at h
    obtain ⟨rfl, rfl⟩ := yields_pure.1 h
    exact ⟨rfl, rfl⟩
  | some referent =>
    rw [hreferent] at h
    cases referent with
    | node id =>
      simp only [yields_bind, yields_get, yields_pure] at h
      obtain ⟨_, _, ⟨rfl, rfl⟩, rfl, rfl⟩ := h
      exact ⟨rfl, rfl⟩
    | standard declaration =>
      obtain ⟨rfl, rfl⟩ := yields_pure.1 h
      exact ⟨rfl, rfl⟩

theorem yields_nextAddress {address : Nat} (h : Yields nextAddress s address s') :
    address = s.store.code.length ∧ s' = s := by
  simp only [nextAddress, yields_bind, yields_get, yields_pure] at h
  obtain ⟨_, _, ⟨rfl, rfl⟩, rfl, rfl⟩ := h
  exact ⟨rfl, rfl⟩

/-- A jump whose target comes later is stored at the label. -/
theorem yields_forward (h : Yields (forward op n) s label s') (hgood : s'.Good) :
    label = s.store.code.length ∧ s.Good ∧ s'.store.code = s.store.code ++ [⟨op, .cb, n, 0⟩] ∧
      s'.entities = s.entities := by
  simp only [forward, yields_bind, yields_pure] at h
  obtain ⟨_, _, h₁, _, t, h₂, rfl, rfl⟩ := h
  obtain ⟨rfl, rfl⟩ := yields_nextAddress h₁
  obtain ⟨hgood₀, _, rfl, hcode, hentities⟩ := emitting_emit _ _ _ _ h₂ hgood
  exact ⟨rfl, hgood₀, hcode, hentities⟩

/-- Patching makes no complaint and the code no longer. -/
theorem good_of_patch (h : Yields (patch label) s u s') (hgood : s'.Good) : s.Good := by
  obtain rfl := yields_modify.1 h
  exact ⟨hgood.clean, hgood.fits⟩

/-- Patching gives the jump at the label its target. -/
theorem yields_patch {before after : List Instruction} {jump : Instruction}
    (h : Yields (patch before.length) s u s') (hcode : s.store.code = before ++ jump :: after) :
    s'.store.code = before ++ { jump with d := s.store.code.length } :: after ∧
      s'.entities = s.entities := by
  obtain rfl := yields_modify.1 h
  refine ⟨?_, rfl⟩
  simp only [CodeStore.patch, CodeStore.nextAddress, hcode, List.modify_eq_take_drop]
  simp

end Encode

open Encode

/-! ## Drafts -/

section

variable {x : Encode α} {f : α → Encode β} {P : α → List Instruction → Prop}
  {R : Draft → α → Draft → Prop} {Q : Draft → β → Draft → Prop}

/-- What the trace of a draft says is of no consequence for the code. -/
theorem Generates.traced (hx : Generates x fun p a r =>
    ∃ q, R p a q ∧ q.code = r.code ∧ q.entities = r.entities) : Generates x R := by
  intro s a s' hrun hgood
  obtain ⟨hgood₀, new, hcode, hdraft⟩ := hx hrun hgood
  refine ⟨hgood₀, new, hcode, fun p hp => ?_⟩
  obtain ⟨r, ⟨q, hq, hqcode, hqentities⟩, hrcode, hrentities⟩ := hdraft p hp
  exact ⟨q, hq, hqcode.trans hrcode, hqentities.trans hrentities⟩

/-- The draft between two steps is the one that the first leads to. -/
theorem Generates.bind (hx : Generates x R)
    (hf : ∀ a, Generates (f a) fun r b q => ∀ p, R p a r → Q p b q) :
    Generates (x >>= f) Q := by
  intro s b s' h hgood
  obtain ⟨a, t, h₁, h₂⟩ := yields_bind.1 h
  obtain ⟨hgood₁, new₂, hcode₂, hdraft₂⟩ := hf a h₂ hgood
  obtain ⟨hgood₀, new₁, hcode₁, hdraft₁⟩ := hx h₁ hgood₁
  refine ⟨hgood₀, new₁ ++ new₂, by rw [hcode₂, hcode₁, List.append_assoc], fun p hp => ?_⟩
  obtain ⟨r, hr, hrcode, hrentities⟩ := hdraft₁ p hp
  obtain ⟨q, hq, hqcode, hqentities⟩ := hdraft₂ r (hp.of_append hcode₁ hrcode hrentities)
  exact ⟨q, hq p hr, by rw [hqcode, hrcode, List.append_assoc], hqentities⟩

theorem Generates.imp {S : Draft → α → Draft → Prop} (hx : Generates x S)
    (h : ∀ p a q, S p a q → R p a q) : Generates x R := by
  intro s a s' hrun hgood
  obtain ⟨hgood₀, new, hcode, hdraft⟩ := hx hrun hgood
  refine ⟨hgood₀, new, hcode, fun p hp => ?_⟩
  obtain ⟨q, hq, hq'⟩ := hdraft p hp
  exact ⟨q, h p a q hq, hq'⟩

theorem Emitting.generates (hx : Emitting x P) :
    Generates x fun p a q => ∃ code, P a code ∧ q = p.emit code := by
  intro s a s' h hgood
  obtain ⟨hgood₀, code, hP, hcode, hentities⟩ := hx h hgood
  exact ⟨hgood₀, code, hcode, fun p hp =>
    ⟨_, ⟨code, hP, rfl⟩, rfl, hp.entities.trans hentities.symm⟩⟩

theorem Emitting.step (hx : Emitting x P)
    (hf : ∀ a, Generates (f a) fun r b q => ∀ p code, P a code → r = p.emit code → Q p b q) :
    Generates (x >>= f) Q := by
  refine hx.generates.bind fun a => (hf a).imp fun r b q h p => ?_
  rintro ⟨code, hcode, hr⟩
  exact h p code hcode hr

theorem Emitting.ends (hx : Emitting x P) (h : ∀ p a code, P a code → R p a (p.emit code)) :
    Generates x R := by
  refine hx.generates.imp ?_
  rintro p a _ ⟨code, hcode, rfl⟩
  exact h p a code hcode

theorem generates_pure {a : α} (h : ∀ p, R p a p) : Generates (pure a) R := by
  intro s b s' hrun hgood
  obtain ⟨rfl, rfl⟩ := yields_pure.1 hrun
  exact ⟨hgood, [], by simp, fun p hp => ⟨p, h p, by simp, hp.entities⟩⟩

theorem generates_lift {y : Checked α} (h : ∀ p a, y = .ok a → R p a p) :
    Generates (liftM y : Encode α) R := by
  intro s a s' hrun hgood
  obtain ⟨hy, rfl⟩ := yields_lift.1 hrun
  exact ⟨hgood, [], by simp, fun p hp => ⟨p, h p a hy, by simp, hp.entities⟩⟩

theorem generates_lift_bind {y : Checked α} (hf : ∀ a, y = .ok a → Generates (f a) Q) :
    Generates (liftM y >>= f) Q := by
  intro s b s' h
  obtain ⟨a, _, h₁, h₂⟩ := yields_bind.1 h
  obtain ⟨hy, rfl⟩ := yields_lift.1 h₁
  exact hf a hy h₂

theorem generates_entityOf {f : Entity → Encode β} (hf : ∀ entity,
    Generates (f entity) fun p b q => entity = A.entityOf p.entities name → Q p b q) :
    Generates (entityOf A name >>= f) Q := by
  intro s b s' h hgood
  obtain ⟨entity, _, h₁, h₂⟩ := yields_bind.1 h
  obtain ⟨hentity, rfl⟩ := yields_entityOf h₁
  obtain ⟨hgood₀, new, hcode, hdraft⟩ := hf entity h₂ hgood
  refine ⟨hgood₀, new, hcode, fun p hp => ?_⟩
  obtain ⟨q, hq, hq'⟩ := hdraft p hp
  exact ⟨q, hq (hp.entities ▸ hentity), hq'⟩

theorem generates_represent {f : Unit → Encode β}
    (hf : Generates (f ()) fun r b q => ∀ p, r = p.represent id entity → Q p b q) :
    Generates (represent id entity >>= f) Q := by
  have hx : Generates (represent id entity) fun p _ q => q = p.represent id entity := by
    intro s u s' h hgood
    obtain rfl := yields_modify.1 h
    exact ⟨⟨hgood.clean, hgood.fits⟩, [], by simp, fun p hp =>
      ⟨_, rfl, by simp, by simp [hp.entities]⟩⟩
  exact hx.bind fun _ => hf

end

/-- Two phrases side by side, the second one above what the first one has pushed. -/
theorem generates_sum {x : Encode Int} {y : Frame → Encode Int} {R : Draft → Int → Draft → Prop}
    {Q : Frame → Draft → Int → Draft → Prop} (hx : Generates x R)
    (hy : ∀ above, Generates (y above) (Q above))
    (h : ∀ {p size q first above second r}, R p first r → frame.expand first = .ok above →
      Q above r second q → Word.add first second = .ok size →
      ∃ q', S p size q' ∧ q'.code = q.code ∧ q'.entities = q.entities) :
    Generates (do
        let first ← x
        let second ← y (← frame.expand first)
        Word.add first second) S :=
  .traced <| hx.bind fun _ => generates_lift_bind fun above habove => (hy above).bind fun _ =>
    generates_lift fun _ _ hsum _ hq _ hr => h hr habove hq hsum

/-- A call with the arguments that a phrase has pushed. -/
theorem generates_call {x : Encode Int} {R : Draft → Int → Draft → Prop} (hx : Generates x R) :
    Generates (do
        let size ← x
        let entity ← entityOf A name
        Encode.call entity (← frame.expand size) size name.mark.span)
      fun p _ q => ∃ size above r code, R p size r ∧ frame.expand size = .ok above ∧
        (A.entityOf r.entities name).Called above size code ∧ q = r.emit code :=
  hx.bind fun size => generates_entityOf fun entity => generates_lift_bind fun above habove =>
    (emitting_call entity above size _).ends fun r _ code hcalled hentity _ hr =>
    ⟨size, above, r, code, hr, habove, hentity ▸ hcalled, rfl⟩

/-- A call for the value of an expression. -/
theorem generates_result {x : Encode Int} {R : Draft → Int → Draft → Prop} (hx : Generates x R)
    (h : ∀ {p size q}, (∃ words above r code, R p words r ∧
      frame.expand words = .ok above ∧ (A.entityOf r.entities name).Called above words code ∧
      q = r.emit code) → A.sizeOf id = .ok size → S p size q) :
    Generates (do
        let words ← x
        let entity ← entityOf A name
        Encode.call entity (← frame.expand words) words name.mark.span
        A.sizeOf id) S :=
  hx.bind fun words => generates_entityOf fun entity => generates_lift_bind fun above habove =>
    (emitting_call entity above words _).step fun _ =>
    generates_lift fun _ _ hsize r code hcalled hq hentity _ hr =>
    h ⟨words, above, r, code, hr, habove, hentity ▸ hcalled, hq⟩ hsize

/-! ## Parameters -/

/-- A parameter of a known size gets its address. -/
theorem generates_place {entity : Address → Entity} {R : Draft → Int → Draft → Prop}
    (h : ∀ {p q}, (∃ address, frame.parameter size = .ok address ∧
      q = p.represent id (entity address)) → R p size q) :
    Generates (do
        represent id (entity (← frame.parameter size))
        return size) R :=
  generates_lift_bind fun address haddress => generates_represent <|
    generates_pure fun _ _ hr => h ⟨address, haddress, hr⟩

theorem Parameter.generates (A : Annotations) (frame : Frame) (parameter : Parameter) :
    Generates (parameter.encode A frame) fun p size q => parameter.Placed A frame p size q := by
  cases parameter with
  | const m name of =>
    exact generates_lift_bind fun size hsize => generates_place fun h => ⟨hsize, h⟩
  | var m name of => exact generates_place fun h => ⟨rfl, h⟩
  | proc m name parameters | func m name parameters result =>
    exact generates_place fun h => ⟨rfl, h⟩

theorem Parameters.generates (A : Annotations) (frame : Frame) (parameters : Parameters) :
    Generates (parameters.encode A frame) fun p size q => parameters.Placed A frame p size q := by
  cases parameters with
  | empty _ => exact generates_pure fun _ => ⟨rfl, rfl⟩
  | single _ parameter => exact parameter.generates A frame
  | multiple _ first rest =>
    exact (rest.generates A frame).bind fun after => generates_lift_bind fun above habove =>
      (first.generates A above).bind fun size => generates_lift fun _ _ hsum r hq _ hr =>
      ⟨after, r, above, size, hr, habove, hq, hsum⟩

/-! ## Phrases -/

/-- A jump around the body, the body in a frame of its own, and the return. -/
theorem Emission.routine_generates {m : Mark} {parameters : Parameters} {body : Frame → Encode Int}
    {R : Frame → Draft → Int → Draft → Prop} (hbody : ∀ inner, Generates (body inner) (R inner)) :
    Generates (Encode.routine A m parameters frame body) fun p size q =>
      Emission.Routine A m parameters frame R p q ∧ size = 0 := by
  intro s size s' h hgood
  simp only [Encode.routine, yields_bind] at h
  obtain ⟨label, t₁, h₁, entry, _, h₂, _, _, h₃, h⟩ := h
  obtain ⟨rfl, rfl⟩ := yields_nextAddress h₂
  obtain rfl := yields_modify.1 h₃
  split at h
  · simp only [yields_bind, yields_pure] at h
    obtain ⟨_, t₃, h₄, _, _, ⟨rfl, rfl⟩, _, t₅, h₅, _, t₆, h₆, _, t₇, h₇, rfl, rfl⟩ := h
    have hgood₆ := good_of_patch h₇ hgood
    have hgood₅ := (emitting_emit _ _ _ _ h₆ hgood₆).1
    exact absurd (emitting_limit _ _ h₅ hgood₅).1 (not_good_of_restrict h₄)
  · rename_i hlevel
    simp only [yields_bind, yields_pure, yields_lift] at h
    obtain ⟨outer, _, ⟨houter, rfl⟩, arguments, t₂, h₄, inner, _, ⟨hinner, rfl⟩, _, t₃, h₅, _, _,
      ⟨rfl, rfl⟩, result, t₅, h₆, _, t₆, h₇, _, t₇, h₈, rfl, rfl⟩ := h
    have hgood₆ := good_of_patch h₈ hgood
    obtain ⟨hgood₅, _, rfl, hcode₆, hentities₆⟩ := emitting_emit _ _ _ _ h₇ hgood₆
    obtain ⟨hgood₃, _, ⟨rfl, hresult, rfl⟩, hcode₅, hentities₅⟩ := emitting_limit _ _ h₆ hgood₅
    obtain ⟨hgood₂, new₃, hcode₃, hdraft₃⟩ := hbody inner h₅ hgood₃
    obtain ⟨hgood₁, new₂, hcode₂, hdraft₂⟩ := parameters.generates A outer h₄ hgood₂
    obtain ⟨rfl, hgood₀, hcode₁, hentities₁⟩ := yields_forward h₁ ⟨hgood₁.clean, hgood₁.fits⟩
    have hcode : t₆.store.code = s.store.code ++
        ⟨.jump, .cb, 0, 0⟩ :: (new₂ ++ new₃ ++ [⟨.return_, .cb, result, arguments⟩]) := by
      simp [hcode₆, hcode₅, hcode₃, hcode₂, hcode₁]
    obtain ⟨hcode', hentities'⟩ := yields_patch h₈ hcode
    refine ⟨hgood₀, _, hcode', fun p hp => ?_⟩
    -- The jump over the routine goes to the end of the code that is about to come.
    have hlength : t₆.store.code.length = p.address + 1 + new₂.length + new₃.length + 1 := by
      simp only [hcode, List.length_append, List.length_cons, List.length_nil, hp.address]
      omega
    obtain ⟨r₁, hr₁, hr₁code, hr₁entities⟩ := hdraft₂
      ((p.emit [⟨.jump, .cb, 0,
        (p.address + 1 + new₂.length + new₃.length + 1 : Nat)⟩]).represent m.id
        (.knownRoutine ⟨frame.level, (p.address + 1 : Nat)⟩))
      ⟨by simp [hcode₁, hp.address], by simp [hp.entities, hentities₁, hcode₁, hp.address]⟩
    have htracks₁ : Tracks t₂ r₁ := by
      refine ⟨?_, hr₁entities⟩
      simp [Draft.address, hr₁code, hcode₂, hcode₁, ← hp.address]
    obtain ⟨r₂, hr₂, hr₂code, hr₂entities⟩ := hdraft₃ r₁ htracks₁
    have hr₂address : r₂.address = p.address + 1 + new₂.length + new₃.length := by
      simp only [Draft.address, hr₂code, hr₁code, Draft.code_represent, Draft.code_emit,
        List.length_append, List.length_cons, List.length_nil]
    refine ⟨_, ⟨⟨inner, outer, arguments, result, r₁, r₂, by omega, houter, hinner, ?_,
      hr₂, hresult, rfl⟩, rfl⟩, ?_, ?_⟩
    · rw [hr₂address]
      exact hr₁
    · simp [hr₂code, hr₁code, hlength]
    · simp [hr₂entities, hentities', hentities₆, hentities₅]

/-- The frame above the index that is already on the stack, if there is one. -/
theorem generates_above {indexed : Bool} {f : Frame → Encode α} {Q : Draft → α → Draft → Prop}
    (hf : ∀ above, (if indexed then frame.expand Machine.primitiveSize else .ok frame) =
      .ok above → Generates (f above) Q) :
    Generates (if indexed = true then liftM (frame.expand Machine.primitiveSize) >>= f else f frame)
      Q := by
  cases indexed with
  | false => exact hf frame rfl
  | true => exact generates_lift_bind hf

/-- An index is scaled by the size of the elements and added to the index before it. -/
theorem emitting_scale (whole : Access) (element : Int) :
    Emitting (do
        if element ≠ 1 then
          Encode.literal element
          callPrimitive .mult
        if whole.indexed then
          callPrimitive .add
        return ({ whole with indexed := true } : Access))
      fun access code =>
        { whole with indexed := true } = access ∧ code = scaleCode element whole.indexed := by
  have hpure : Emitting (pure { whole with indexed := true }) fun access code =>
      { whole with indexed := true } = access ∧ code = [] := emitting_pure _
  unfold scaleCode
  split <;> split
  · exact (emitting_literal element).then fun _ => (emitting_callPrimitive .mult).then fun _ =>
      (emitting_callPrimitive .add).then fun _ => hpure.imp fun _ _ h => ⟨h.1, by simp [h.2]⟩
  · exact (emitting_callPrimitive .add).then fun _ => hpure.imp fun _ _ h => ⟨h.1, by simp [h.2]⟩
  · exact (emitting_literal element).then fun _ => (emitting_callPrimitive .mult).then fun _ =>
      hpure.imp fun _ _ h => ⟨h.1, by simp [h.2]⟩
  · exact hpure

/-- A branch: a test, a jump over the first phrase, the first phrase, a jump over the second, the
second phrase. -/
theorem Emission.branch_generates {γ : Type} {x : Encode α} {y : Encode β} {z : Encode γ}
    {R₁ : Draft → α → Draft → Prop} {R₂ : Draft → β → Draft → Prop}
    {R₃ : Draft → γ → Draft → Prop} (hx : Generates x R₁) (hy : Generates y R₂)
    (hz : Generates z R₃) {t₁ t₂ t₃ t₄ t₅ t₆ : EncodeState} {a : α} {b : β} {c : γ}
    {toSecond toEnd : Nat} {v : Unit} {Q : Draft → Draft → Prop} (hQ : ∀ {p r₁ r₂ r₃}, R₁ p a r₁ →
      R₂ (r₁.emit [⟨.jumpif, .cb, 0, (r₂.address + 1 : Nat)⟩]) b r₂ →
      R₃ (r₂.emit [⟨.jump, .cb, 0, r₃.address⟩]) c r₃ →
      ∃ q, Q p q ∧ q.code = r₃.code ∧ q.entities = r₃.entities) (h₁ : Yields x s a t₁)
    (h₂ : Yields (forward .jumpif 0) t₁ toSecond t₂) (h₃ : Yields y t₂ b t₃)
    (h₄ : Yields (forward .jump 0) t₃ toEnd t₄) (h₅ : Yields (patch toSecond) t₄ u t₅)
    (h₆ : Yields z t₅ c t₆) (h₇ : Yields (patch toEnd) t₆ v s') (hgood : s'.Good) :
    s.Good ∧ ∃ new, s'.store.code = s.store.code ++ new ∧ ∀ p, Tracks s p →
      ∃ q, Q p q ∧ q.code = p.code ++ new ∧ q.entities = s'.entities := by
  -- backwards through the states: where the last is good, those before it are
  have hgood₆ := good_of_patch h₇ hgood
  obtain ⟨hgood₅, new₃, hcode₆, hdraft₃⟩ := hz h₆ hgood₆
  have hgood₄ := good_of_patch h₅ hgood₅
  obtain ⟨rfl, hgood₃, hcode₄, hentities₄⟩ := yields_forward h₄ hgood₄
  obtain ⟨hgood₂, new₂, hcode₃, hdraft₂⟩ := hy h₃ hgood₃
  obtain ⟨rfl, hgood₁, hcode₂, hentities₂⟩ := yields_forward h₂ hgood₂
  obtain ⟨hgood₀, new₁, hcode₁, hdraft₁⟩ := hx h₁ hgood₁
  have hcode₄' : t₄.store.code = t₁.store.code ++
      ⟨.jumpif, .cb, 0, 0⟩ :: (new₂ ++ [⟨.jump, .cb, 0, 0⟩]) := by
    simp [hcode₄, hcode₃, hcode₂]
  obtain ⟨hcode₅, hentities₅⟩ := yields_patch h₅ hcode₄'
  have hlength₄ : t₄.store.code.length = t₁.store.code.length + 1 + new₂.length + 1 := by
    simp only [hcode₄', List.length_append, List.length_cons, List.length_nil]
    omega
  have hlength₃ : t₃.store.code.length = t₁.store.code.length + 1 + new₂.length := by
    simp only [hcode₃, hcode₂, List.length_append, List.length_cons, List.length_nil]
  have hcode₆' : t₆.store.code = (t₁.store.code ++
      ⟨.jumpif, .cb, 0, t₄.store.code.length⟩ :: new₂) ++ ⟨.jump, .cb, 0, 0⟩ :: new₃ := by
    simp [hcode₆, hcode₅]
  have hplace : t₃.store.code.length = (t₁.store.code ++
      ⟨.jumpif, .cb, 0, (t₄.store.code.length : Int)⟩ :: new₂).length := by
    simp only [hlength₃, List.length_append, List.length_cons]
    omega
  rw [hplace] at h₇
  obtain ⟨hcode₇, hentities₇⟩ := yields_patch h₇ hcode₆'
  refine ⟨hgood₀, new₁ ++ (⟨.jumpif, .cb, 0, t₄.store.code.length⟩ :: new₂) ++
    ⟨.jump, .cb, 0, t₆.store.code.length⟩ :: new₃, by simp [hcode₇, hcode₁], fun p hp => ?_⟩
  -- forwards through the drafts, in which the jumps have their targets from the start
  obtain ⟨r₁, hr₁, hr₁code, hr₁entities⟩ := hdraft₁ p hp
  have htracks₁ := hp.of_append hcode₁ hr₁code hr₁entities
  obtain ⟨r₂, hr₂, hr₂code, hr₂entities⟩ := hdraft₂
    (r₁.emit [⟨.jumpif, .cb, 0, t₄.store.code.length⟩])
    ⟨by simp [htracks₁.address, hcode₂], by simp [htracks₁.entities, hentities₂]⟩
  have hr₂address : r₂.address = t₃.store.code.length := by
    have := htracks₁.address
    simp only [Draft.address, hr₂code, Draft.code_emit, List.length_append, List.length_cons,
      List.length_nil, hlength₃] at this ⊢
    omega
  obtain ⟨r₃, hr₃, hr₃code, hr₃entities⟩ := hdraft₃
    (r₂.emit [⟨.jump, .cb, 0, t₆.store.code.length⟩])
    ⟨by simp [hr₂address, hcode₅, hlength₃]; omega, by simp [hr₂entities, hentities₅, hentities₄]⟩
  have hr₃address : r₃.address = t₆.store.code.length := by
    simp only [Draft.address, hr₃code, Draft.code_emit, List.length_append, List.length_cons,
      List.length_nil, hcode₆', ← hplace] at hr₂address ⊢
    omega
  rw [hlength₄, ← hlength₃, ← hr₂address] at hr₂
  rw [← hr₃address] at hr₃
  obtain ⟨q, hq, hqcode, hqentities⟩ := hQ hr₁ hr₂ hr₃
  exact ⟨q, hq, by simp [hqcode, hr₃code, hr₂code, hr₁code, hlength₄],
    by rw [hqentities, hr₃entities, hentities₇]⟩

/-- A loop: a jump to the test, the body, the test, a jump back. -/
theorem Emission.while_generates {x : Encode Unit} {y : Encode Int} (hx : Generates x R₁)
    (hy : Generates y R₂) :
    Generates (do
        let toTest ← forward .jump 0
        let start ← nextAddress
        x
        patch toTest
        let _ ← y
        emit .jumpif .cb 1 start)
      fun p _ q => ∃ size r₁ r₂, R₁ (p.emit [⟨.jump, .cb, 0, r₁.address⟩]) () r₁ ∧ R₂ r₁ size r₂ ∧
        q = r₂.emit [⟨.jumpif, .cb, 1, (p.address + 1 : Nat)⟩] := by
  intro s u s' h hgood
  simp only [yields_bind] at h
  obtain ⟨_, _, h₁, start, t₁, h₂, _, t₂, h₃, _, t₃, h₄, size, t₄, h₅, h₆⟩ := h
  obtain ⟨rfl, rfl⟩ := yields_nextAddress h₂
  obtain ⟨hgood₄, _, rfl, hcode₅, hentities₅⟩ := emitting_emit _ _ _ _ h₆ hgood
  obtain ⟨hgood₃, new₂, hcode₄, hdraft₂⟩ := hy h₅ hgood₄
  have hgood₂ := good_of_patch h₄ hgood₃
  obtain ⟨hgood₁, new₁, hcode₂, hdraft₁⟩ := hx h₃ hgood₂
  obtain ⟨rfl, hgood₀, hcode₁, hentities₁⟩ := yields_forward h₁ hgood₁
  have hcode₂' : t₂.store.code = s.store.code ++ ⟨.jump, .cb, 0, 0⟩ :: new₁ := by
    simp [hcode₂, hcode₁]
  obtain ⟨hcode₃, hentities₃⟩ := yields_patch h₄ hcode₂'
  refine ⟨hgood₀, ⟨.jump, .cb, 0, t₂.store.code.length⟩ :: new₁ ++ new₂ ++
    [⟨.jumpif, .cb, 1, t₁.store.code.length⟩], by simp [hcode₅, hcode₄, hcode₃], fun p hp => ?_⟩
  have hstart : t₁.store.code.length = p.address + 1 := by simp [hcode₁, hp.address]
  obtain ⟨r₁, hr₁, hr₁code, hr₁entities⟩ := hdraft₁
    (p.emit [⟨.jump, .cb, 0, t₂.store.code.length⟩])
    ⟨by simp [hstart], by simp [hp.entities, hentities₁]⟩
  have hr₁address : r₁.address = t₂.store.code.length := by
    have := hp.address
    simp only [Draft.address, hr₁code, Draft.code_emit, hcode₂', List.length_append,
      List.length_cons, List.length_nil] at this ⊢
    omega
  obtain ⟨r₂, hr₂, hr₂code, hr₂entities⟩ := hdraft₂ r₁
    ⟨by simp [hr₁address, hcode₃, hcode₂'], by simp [hr₁entities, hentities₃]⟩
  refine ⟨_, ⟨size, r₁, r₂, ?_, hr₂, rfl⟩, ?_, by simp [hr₂entities, hentities₅]⟩
  · rw [hr₁address]
    exact hr₁
  · simp [hr₂code, hr₁code, hstart]

/-- A loop with the test in its middle: what comes before the test, the test, a jump out of the
loop, the body, a jump back. -/
theorem Emission.loop_generates {x z : Encode Unit} {y : Encode Int}
    {R₃ : Draft → Unit → Draft → Prop} (hx : Generates x R₁) (hy : Generates y R₂)
    (hz : Generates z R₃) :
    Generates (do
        let start ← nextAddress
        x
        let _ ← y
        let toExit ← forward .jumpif 0
        z
        emit .jump .cb 0 start
        patch toExit)
      fun p _ q => ∃ size r₁ r₂ r₃, R₁ p () r₁ ∧ R₂ r₁ size r₂ ∧
        R₃ (r₂.emit [⟨.jumpif, .cb, 0, (r₃.address + 1 : Nat)⟩]) () r₃ ∧
        q = r₃.emit [⟨.jump, .cb, 0, p.address⟩] := by
  intro s u s' h hgood
  simp only [yields_bind] at h
  obtain ⟨start, s, h₁, _, t₁, h₂, size, t₂, h₃, _, t₃, h₄, _, t₄, h₅, _, t₅, h₆, h₇⟩ := h
  -- backwards and forwards again, with the jump out of the loop patched last
  obtain ⟨rfl, rfl⟩ := yields_nextAddress h₁
  have hgood₅ := good_of_patch h₇ hgood
  obtain ⟨hgood₄, _, rfl, hcode₅, hentities₅⟩ := emitting_emit _ _ _ _ h₆ hgood₅
  obtain ⟨hgood₃, new₃, hcode₄, hdraft₃⟩ := hz h₅ hgood₄
  obtain ⟨rfl, hgood₂, hcode₃, hentities₃⟩ := yields_forward h₄ hgood₃
  obtain ⟨hgood₁, new₂, hcode₂, hdraft₂⟩ := hy h₃ hgood₂
  obtain ⟨hgood₀, new₁, hcode₁, hdraft₁⟩ := hx h₂ hgood₁
  have hcode₅' : t₅.store.code = t₂.store.code ++ ⟨.jumpif, .cb, 0, 0⟩ ::
      (new₃ ++ [⟨.jump, .cb, 0, s.store.code.length⟩]) := by
    simp [hcode₅, hcode₄, hcode₃]
  obtain ⟨hcode₆, hentities₆⟩ := yields_patch h₇ hcode₅'
  refine ⟨hgood₀, new₁ ++ new₂ ++ ⟨.jumpif, .cb, 0, t₅.store.code.length⟩ ::
    (new₃ ++ [⟨.jump, .cb, 0, s.store.code.length⟩]), by simp [hcode₆, hcode₂, hcode₁],
    fun p hp => ?_⟩
  obtain ⟨r₁, hr₁, hr₁code, hr₁entities⟩ := hdraft₁ p hp
  have htracks₁ := hp.of_append hcode₁ hr₁code hr₁entities
  obtain ⟨r₂, hr₂, hr₂code, hr₂entities⟩ := hdraft₂ r₁ htracks₁
  have htracks₂ := htracks₁.of_append hcode₂ hr₂code hr₂entities
  obtain ⟨r₃, hr₃, hr₃code, hr₃entities⟩ := hdraft₃
    (r₂.emit [⟨.jumpif, .cb, 0, t₅.store.code.length⟩])
    ⟨by simp [htracks₂.address, hcode₃], by simp [htracks₂.entities, hentities₃]⟩
  have hr₃address : t₅.store.code.length = r₃.address + 1 := by
    have := htracks₂.address
    simp only [Draft.address, hr₃code, Draft.code_emit, hcode₅', List.length_append,
      List.length_cons, List.length_nil] at this ⊢
    omega
  refine ⟨_, ⟨size, r₁, r₂, r₃, hr₁, hr₂, ?_, rfl⟩, ?_,
    by simp [hr₃entities, hentities₅, hentities₆]⟩
  · rw [← hr₃address]
    exact hr₃
  · simp [hr₃code, hr₂code, hr₁code, hp.address]

mutual

theorem Command.generates {F frame} : (c : Command) →
    Generates (c.encode A frame) fun p _ q => c.Emits A F frame p q
  | .assign m target value => .traced <| value.generates.bind fun size =>
    generates_lift_bind fun above habove => target.generates.bind fun access =>
    (emitting_store access size above _).ends fun r₂ _ code hstored r₁ hr₂ p hr₁ =>
    ⟨_, ⟨size, above, access, r₁, r₂, code, hr₁, habove, hr₂, hstored, rfl⟩, rfl, rfl⟩
  | .doubleAssign m first second firstValue secondValue => by
    -- The name of the first variable is used before its address is pushed.
    refine .traced <| (firstValue.generates (F := F)).bind fun size =>
      generates_lift_bind fun above habove =>
      (first.generates (F := F)).bind fun access =>
      .bind (R := fun r _ q => ∃ code, access.Addressed above code ∧
      q = (r.use first.root (.address access) F above).emit code) (.traced <|
        (emitting_fetchAddress access above _).ends fun r _ code h => ⟨_, ⟨code, h, rfl⟩, rfl, rfl⟩)
      fun _ => generates_lift_bind fun above' habove' =>
      (secondValue.generates (F := F)).bind fun size' =>
      generates_lift_bind fun above'' habove'' => (second.generates (F := F)).bind fun access' =>
      (emitting_fetchAddress access' above'' _).step fun _ =>
      (emitting_limit size' _).step fun n' =>
      (emitting_emit .storei .cb n' 0).step fun _ => (emitting_limit size _).step fun n =>
      (emitting_emit .storei .cb n 0).ends ?_
    rintro _ _ _ rfl _ _ ⟨rfl, hsize, rfl⟩ rfl _ _ rfl rfl _ _ ⟨rfl, hsize', rfl⟩ rfl r₄ code'
      haddressed' rfl r₃ hr₄ _ hr₃ r₂ ⟨code, haddressed, rfl⟩ r₁ hr₂ p hr₁
    exact ⟨_, ⟨_, above, access, r₁, r₂, code, above', _, above'', access', r₃, r₄, code', hr₁,
      habove, hr₂, haddressed, habove', hr₃, habove'', hr₄, haddressed', hsize, hsize', rfl⟩,
      by simp, rfl⟩
  | .call m name arguments => .traced <| (generates_call arguments.generates).imp fun p _ _ h => by
    obtain ⟨size, above, r, code, hr, habove, hcalled, rfl⟩ := h
    exact ⟨_, ⟨size, above, r, code, hr, habove, hcalled, rfl⟩, rfl, rfl⟩
  | .empty m => .traced <| generates_pure fun _ => ⟨_, rfl, rfl, rfl⟩
  | .ifElse m condition first second => fun s u s' h hgood => by
    simp only [Command.encode, yields_bind] at h
    obtain ⟨size, t₁, h₁, _, t₂, h₂, _, t₃, h₃, _, t₄, h₄, _, t₅, h₅, _, t₆, h₆, h₇⟩ := h
    exact Emission.branch_generates condition.generates first.generates second.generates
      (fun hr₁ hr₂ hr₃ => ⟨_, ⟨size, _, _, _, hr₁, hr₂, hr₃, rfl⟩, rfl, rfl⟩)
      h₁ h₂ h₃ h₄ h₅ h₆ h₇ hgood
  | .letIn m declaration body => .traced <| declaration.generates.bind fun extra =>
    generates_lift_bind fun above habove => body.generates.bind fun _ => by
      have hpop : Emitting (if extra > 0 then emit .pop .cb 0 extra else pure ())
          fun _ code => code = if extra > 0 then [⟨.pop, .cb, 0, extra⟩] else [] := by
        split
        · exact emitting_emit _ _ _ _
        · exact emitting_nothing
      refine hpop.ends ?_
      rintro r₂ _ _ rfl r₁ hr₂ p hr₁
      exact ⟨_, ⟨extra, above, r₁, r₂, hr₁, habove, hr₂, rfl⟩, rfl, rfl⟩
  | .sequential m first second => .traced <| first.generates.bind fun _ =>
    second.generates.imp fun r₁ _ r₂ hr₂ p hr₁ => ⟨_, ⟨r₁, r₂, hr₁, hr₂, rfl⟩, rfl, rfl⟩
  | .whileDo m condition body => .traced <|
    (Emission.while_generates body.generates condition.generates).imp fun p _ _ h => by
      obtain ⟨size, r₁, r₂, hr₁, hr₂, rfl⟩ := h
      exact ⟨_, ⟨size, r₁, r₂, hr₁, hr₂, rfl⟩, rfl, rfl⟩
  | .loopWhile m prelude condition body => .traced <|
    (Emission.loop_generates prelude.generates condition.generates body.generates).imp
      fun p _ _ h => by
        obtain ⟨size, r₁, r₂, r₃, hr₁, hr₂, hr₃, rfl⟩ := h
        exact ⟨_, ⟨size, r₁, r₂, r₃, hr₁, hr₂, hr₃, rfl⟩, rfl, rfl⟩

theorem Expression.generates {F frame} : (e : Expression) →
    Generates (e.encode A frame) fun p size q => e.Emits A F frame p size q
  | .array m elements => .traced <| elements.generates.imp fun p size r hr =>
    ⟨_, ⟨r, hr, rfl⟩, rfl, rfl⟩
  | .binary m left operator right => .traced <| left.generates.bind fun leftSize =>
    generates_lift_bind fun above habove => right.generates.bind fun rightSize =>
    generates_lift_bind fun operands hoperands => generates_entityOf fun entity =>
    generates_lift_bind fun above' habove' => (emitting_call entity above' operands _).step fun _ =>
    generates_lift fun _ size hsize r₂ code hcalled hr hentity r₁ hr₂ p hr₁ => by
      subst hr hentity
      exact ⟨_, ⟨leftSize, above, rightSize, operands, above', r₁, r₂, code, hr₁, habove, hr₂,
        hoperands, habove', hcalled, hsize, rfl⟩, rfl, rfl⟩
  | .call m name arguments => .traced <| generates_result arguments.generates fun h hsize => by
    obtain ⟨words, above, r, code, hr, habove, hcalled, rfl⟩ := h
    exact ⟨_, ⟨words, above, r, code, hr, habove, hcalled, hsize, rfl⟩, rfl, rfl⟩
  | .character m literal | .integer m literal => .traced <| (emitting_literal _).step fun _ =>
    generates_pure fun _ p _ hcode hr => ⟨_, ⟨rfl, rfl⟩, by simp [hr, hcode], by simp [hr]⟩
  | .empty m => .traced <| generates_pure fun _ => ⟨_, ⟨rfl, rfl⟩, rfl, rfl⟩
  | .ifElse m condition first second => fun s size s' h hgood => by
    simp only [Expression.encode, yields_bind, yields_pure] at h
    obtain ⟨test, t₁, h₁, _, t₂, h₂, _, t₃, h₃, _, t₄, h₄, _, t₅, h₅, size', t₆, h₆, _, t₇, h₇, rfl,
      rfl⟩ := h
    exact Emission.branch_generates condition.generates first.generates second.generates
      (fun hr₁ hr₂ hr₃ => ⟨_, ⟨test, size', _, _, _, hr₁, hr₂, hr₃, rfl⟩, rfl, rfl⟩)
      h₁ h₂ h₃ h₄ h₅ h₆
      h₇ hgood
  | .letIn m declaration body => .traced <| declaration.generates.bind fun extra =>
    generates_lift_bind fun above habove => body.generates.bind fun words => by
      have hpop : Emitting (do
            if extra > 0 then
              emit .pop .cb (← limit words m.span) extra
            return words)
          fun n code => n = words ∧ (extra > 0 → words ≤ Machine.maxLength) ∧
            code = if extra > 0 then [⟨.pop, .cb, words, extra⟩] else [] := by
        split
        · refine (emitting_limit words m.span).bind fun n => (emitting_emit _ _ _ _).then fun _ =>
            (emitting_pure words).imp ?_
          rintro _ _ ⟨rfl, rfl⟩ _ ⟨rfl, hle, rfl⟩
          exact ⟨rfl, fun _ => hle, rfl⟩
        · rename_i hextra
          exact (emitting_pure words).imp fun n code h => ⟨h.1.symm, fun h => absurd h hextra, h.2⟩
      refine hpop.ends ?_
      rintro r₂ _ _ ⟨rfl, hlimit, rfl⟩ r₁ hr₂ p hr₁
      exact ⟨_, ⟨extra, above, r₁, r₂, hr₁, habove, hr₂, hlimit, rfl⟩, rfl, rfl⟩
  | .record m fields => .traced <| fields.generates.imp fun p size r hr =>
    ⟨_, ⟨r, hr, rfl⟩, rfl, rfl⟩
  | .unary m operator operand => .traced <| generates_result operand.generates fun h hsize => by
    obtain ⟨words, above, r, code, hr, habove, hcalled, rfl⟩ := h
    exact ⟨_, ⟨words, above, r, code, hr, habove, hcalled, hsize, rfl⟩, rfl, rfl⟩
  | .vname m vname => .traced <| generates_lift_bind fun size hsize =>
      vname.generates.bind fun access =>
    (emitting_fetch access size _ _).step fun _ => generates_pure fun _ r code hfetched hq p hr =>
    ⟨_, ⟨access, r, code, hsize, hr, hfetched, rfl⟩, by simp [hq], by simp [hq]⟩

theorem Declaration.generates {F frame} : (d : Declaration) →
    Generates (d.encode A frame) fun p size q => d.Emits A F frame p size q
  | .binaryOperator _ _ _ _ _ | .type _ _ _ | .unaryOperator _ _ _ _ =>
    .traced <| generates_pure fun _ => ⟨_, ⟨rfl, rfl⟩, rfl, rfl⟩
  | .const m name value => by
    rw [Declaration.encode]
    split
    · rename_i known hknown
      refine .traced <| generates_represent <| generates_pure fun _ p hr =>
        ⟨_, ⟨p.represent m.id (.knownValue known), ?_, rfl⟩, by simp [hr], by simp [hr]⟩
      rw [hknown]
      exact ⟨rfl, rfl⟩
    · rename_i hunknown
      refine .traced <| (value.generates (F := F)).bind fun size => generates_represent <|
        generates_pure fun _ r hq p hr =>
        ⟨_, ⟨r.represent m.id (.unknownValue frame.top), ?_, rfl⟩, by simp [hq], by simp [hq]⟩
      rw [hunknown]
      exact ⟨r, hr, rfl⟩
  | .func m name parameters result body => .traced <|
    (Emission.routine_generates fun inner => body.generates).imp fun p size r h =>
      ⟨_, ⟨r, h.1, h.2, rfl⟩, rfl, rfl⟩
  | .proc m name parameters body => .traced <|
      (Emission.routine_generates (R := fun inner p words q =>
      body.Emits A (F ++ parameters.toList) inner p q ∧ words = 0) fun inner =>
      body.generates.bind fun _ =>
        generates_pure fun _ p hq => ⟨hq, rfl⟩).imp fun p size r h =>
      ⟨_, ⟨r, h.1, h.2, rfl⟩, rfl, rfl⟩
  | .sequential m first second =>
    generates_sum first.generates (fun _ => second.generates) fun hr₁ habove hr hsum =>
      ⟨_, ⟨_, _, _, _, _, hr₁, habove, hr, hsum, rfl⟩, rfl, rfl⟩
  | .var m name of => .traced <| generates_lift_bind fun size hsize =>
    (emitting_emit _ _ _ _).step fun _ => generates_represent <|
    generates_pure fun _ r hq p code hcode
      hr => by
      subst hq hr hcode
      exact ⟨_, ⟨hsize, rfl⟩, rfl, rfl⟩

theorem Vname.generates {F frame} : (v : Vname) →
    Generates (v.encode A frame) fun p access q => v.Emits A F frame p access q
  | .dot m record field => .traced <| record.generates.bind fun whole =>
    generates_lift_bind fun offset hoffset => generates_lift_bind fun sum hsum =>
    generates_pure fun r p hr => ⟨_, ⟨whole, offset, sum, r, hr, hoffset, hsum, rfl, rfl⟩, rfl, rfl⟩
  | .simple m name => .traced <| generates_entityOf fun _ => generates_pure fun p h => by
    subst h
    exact ⟨_, ⟨rfl, rfl⟩, rfl, rfl⟩
  | .subscript m array index => by
    rw [Vname.encode]
    refine .traced <| (array.generates (F := F)).bind fun whole =>
      generates_lift_bind fun element helement => ?_
    cases hliteral : index.integerLiteral? with
    | some value =>
      refine generates_lift_bind fun words hwords => generates_lift_bind fun sum hsum =>
        generates_pure fun r p hr => ⟨_, ⟨whole, element, r, r, hr, helement, ?_, rfl⟩, rfl, rfl⟩
      rw [hliteral]
      exact ⟨rfl, words, sum, hwords, hsum, rfl⟩
    | none =>
      refine generates_above fun above habove => (index.generates (F := F)).bind fun size =>
        (emitting_scale whole element).ends ?_
      rintro r₂ _ _ ⟨rfl, rfl⟩ r₁ hr₂ p hr₁
      refine ⟨_, ⟨whole, element, r₁, r₂.emit _, hr₁, helement, ?_, rfl⟩, rfl, rfl⟩
      rw [hliteral]
      exact ⟨above, size, r₂, habove, hr₂, rfl, rfl⟩

theorem Argument.generates {F frame} : (a : Argument) →
    Generates (a.encode A frame) fun p size q => a.Emits A F frame p size q
  | .const m value => .traced <| value.generates.imp fun p size r hr => ⟨_, ⟨r, hr, rfl⟩, rfl, rfl⟩
  | .func m name | .proc m name => .traced <| generates_entityOf fun entity =>
    (emitting_fetchRoutine entity _ _).step fun _ => generates_pure fun _ p code hclosed hq h => by
      subst hq h
      exact ⟨_, ⟨code, hclosed, rfl, rfl⟩, rfl, rfl⟩
  | .var m vname => .traced <| vname.generates.bind fun access =>
    (emitting_fetchAddress access _ _).step fun _ =>
    generates_pure fun _ r code haddressed hq p hr =>
    ⟨_, ⟨access, r, code, hr, haddressed, rfl, rfl⟩, by simp [hq], by simp [hq]⟩

theorem Arguments.generates {F frame} : (a : Arguments) →
    Generates (a.encode A frame) fun p size q => a.Emits A F frame p size q
  | .empty _ => .traced <| generates_pure fun _ => ⟨_, ⟨rfl, rfl⟩, rfl, rfl⟩
  | .single _ argument => .traced <| argument.generates.imp fun _ _ r hr =>
    ⟨_, ⟨r, hr, rfl⟩, rfl, rfl⟩
  | .multiple _ first rest =>
    generates_sum first.generates (fun _ => rest.generates) fun hr₁ habove hr hsum =>
      ⟨_, ⟨_, _, _, _, _, hr₁, habove, hr, hsum, rfl⟩, rfl, rfl⟩

theorem ArrayAggregate.generates {F frame} : (a : ArrayAggregate) →
    Generates (a.encode A frame) fun p size q => a.Emits A F frame p size q
  | .single _ element => .traced <| element.generates.imp fun _ _ r hr =>
    ⟨_, ⟨r, hr, rfl⟩, rfl, rfl⟩
  | .multiple _ first rest =>
    generates_sum first.generates (fun _ => rest.generates) fun hr₁ habove hr hsum =>
      ⟨_, ⟨_, _, _, _, _, hr₁, habove, hr, hsum, rfl⟩, rfl, rfl⟩

theorem RecordAggregate.generates {F frame} : (a : RecordAggregate) →
    Generates (a.encode A frame) fun p size q => a.Emits A F frame p size q
  | .single _ _ value => .traced <| value.generates.imp fun _ _ r hr =>
    ⟨_, ⟨r, hr, rfl⟩, rfl, rfl⟩
  | .multiple _ _ value rest =>
    generates_sum value.generates (fun _ => rest.generates) fun hr₁ habove hr hsum =>
      ⟨_, ⟨_, _, _, _, _, hr₁, habove, hr, hsum, rfl⟩, rfl, rfl⟩

end

/-- The state in which the code of a program has been generated, and the draft of that code. -/
structure Program.Generated (program : Program) (A : Annotations) (object : ObjectCode)
    (s : EncodeState) (q : Draft) : Prop where
  run : ∃ log, Yields (program.command.encode A .global) ⟨.empty, .empty, log⟩ () s
  good : s.Good
  room : s.store.code.length < Machine.codeSize
  emits : program.command.Emits A [] .global .empty q
  code : q.code = s.store.code
  entities : q.entities = s.entities
  object : object.instructions = s.store.code ++ [⟨.halt, .cb, 0, 0⟩]

theorem Program.encode_generated (h : program.encode A log = .ok (object, log'))
    (hlog : log'.errors = 0) : ∃ s q, program.Generated A object s q := by
  obtain ⟨⟨_, s'⟩, hrun, heq⟩ := bind_eq_ok_iff.1 h
  cases heq
  have hrun : Yields (do
      program.command.encode A .global
      emit .halt .cb 0 0
      if (← get).store.overflowed then
        restrict program.mark.span .codeTooLarge) ⟨.empty, .empty, log⟩ _ s' := hrun
  simp only [yields_bind, yields_get] at hrun
  obtain ⟨_, t₁, h₁, _, t₂, h₂, _, _, ⟨rfl, rfl⟩, h₃⟩ := hrun
  have hgood : t₂.Good ∧ s' = t₂ := by
    split at h₃
    · obtain rfl := yields_modify.1 h₃
      exact absurd hlog (Log.errors_report_ne_zero _ _ _)
    · rename_i hfits
      obtain ⟨-, rfl⟩ := yields_pure.1 h₃
      exact ⟨⟨hlog, by simpa using hfits⟩, rfl⟩
  obtain ⟨hgood, rfl⟩ := hgood
  obtain ⟨hgood₁, _, rfl, hcode₂, -⟩ := emitting_emit _ _ _ _ h₂ hgood
  obtain ⟨-, new, hcode₁, hdraft⟩ := program.command.generates (F := []) h₁ hgood₁
  obtain ⟨q, hq, hqcode, hqentities⟩ := hdraft .empty ⟨rfl, rfl⟩
  exact ⟨t₁, q, ⟨log, h₁⟩, hgood₁, room_of_emit h₂ hgood, hq, by rw [hqcode, hcode₁]; rfl,
    hqentities, hcode₂⟩

/-- Code that is generated without an error is the code of the program. -/
theorem Program.encode_emits (h : program.encode A log = .ok (object, log'))
    (hlog : log'.errors = 0) : ∃ trace, program.Emits A object.instructions trace := by
  obtain ⟨s, q, hs⟩ := Program.encode_generated h hlog
  exact ⟨q.trace, q, hs.emits, by rw [hs.object, hs.code], rfl⟩

end Triangle
