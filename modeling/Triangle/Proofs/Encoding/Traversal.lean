import Triangle.Proofs.Encoding.Logging
import Triangle.Proofs.Encoding.Plain
import Triangle.Proofs.Syntax.Spots

/-!
# What holds of all code generation

Generating the code of a phrase is put together from a few steps by doing one after the other.  So a
property that these steps have, and that is kept when one step follows another, holds of the code
generation of every phrase.  `Logged.Closed` says this of a property.

Besides the step itself, a property has three things to look at: the addresses that have been
passed, to which jumps can go back; the forward jumps that wait for their targets; and what is
claimed of the result.  It may rely on two things about names: where a phrase stands, the spots of
its names are known (`K`), and what a known name stands for belongs there (`E`).  Properties that
need none of this leave it out.
-/

namespace Triangle

open Encode

/-- The address by which code gets at an entity. -/
def Entity.address? : Entity → Option Address
  | .unknownValue address | .knownAddress address | .unknownAddress address
  | .knownRoutine address | .unknownRoutine address => some address
  | .knownValue _ | .primitive _ | .equality _ | .unrepresented => none

/-- A frame of the given level, which is one that routines may have. -/
structure Frame.At (level : Nat) (frame : Frame) : Prop where
  level_eq : frame.level = level
  shallow : level ≤ Machine.maxRoutineLevel

theorem Frame.At.global : Frame.global.At 0 := ⟨rfl, Nat.zero_le _⟩

theorem Frame.At.expand {level : Nat} {frame frame' : Frame} {size : Int} (h : frame.At level)
    (hframe : frame.expand size = .ok frame') : frame'.At level := by
  obtain ⟨words, -, heq⟩ := bind_eq_ok_iff.1 hframe
  cases heq
  exact ⟨h.level_eq, h.shallow⟩

/-- A routine's frame is one level deeper, which the level allowed for. -/
theorem Frame.At.push {level : Nat} {frame frame' : Frame} {size : Int} (h : frame.At level)
    (hlt : level < Machine.maxRoutineLevel) (hframe : frame.push size = .ok frame') :
    frame'.At (level + 1) := by
  have hshallow : level < Frame.maxLevel := Nat.lt_trans hlt (by decide)
  rw [Frame.push, h.level_eq, if_pos hshallow] at hframe
  cases hframe
  exact ⟨rfl, hlt⟩

theorem Frame.At.parameter {level : Nat} {frame : Frame} {size : Int} {address : Address}
    (h : frame.At level) (haddress : frame.parameter size = .ok address) :
    address.level = level := by
  obtain ⟨words, -, heq⟩ := bind_eq_ok_iff.1 haddress
  cases heq
  exact h.level_eq

/-- A property that the steps of code generation have and that sequences of steps have if their
parts do. -/
structure Logged.Closed (A : Annotations) (K : Spot → Prop) (E : Nat → Entity → Prop)
    (P : ∀ {α : Type}, List Nat → List Nat → (α → Prop) → Logged α → Prop) : Prop where
  pure : ∀ {α : Type} {Q : α → Prop} {passed : List Nat} {a : α}, Q a → P passed [] Q (pure a)
  bind : ∀ {α β : Type} {Q : α → Prop} {R : β → Prop} {passed pending : List Nat} {t : Logged α}
    {f : α → Logged β}, P passed [] Q t → (∀ a, Q a → P passed pending R (f a)) →
    P passed pending R (t >>= f)
  checked : ∀ {α : Type} {Q : α → Prop} {passed : List Nat} {x : Checked α},
    (∀ a, x = .ok a → Q a) → P passed [] Q (liftM x)
  emit : ∀ {passed : List Nat} {op : Opcode} {r : Register} {n d : Int},
    op.IsPlain → P passed [] (fun _ => True) (liftM (emit op r n d))
  /-- A jump back to an address that has been passed. -/
  back : ∀ {passed : List Nat} {op : Opcode} {n : Int} {start : Nat}, start ∈ passed →
    P passed [] (fun _ => True) (liftM (Encode.emit op .cb n start))
  /-- The next address has been passed from then on. -/
  address : ∀ {α : Type} {Q : α → Prop} {passed pending : List Nat} {f : Nat → Logged α},
    (∀ start, P (start :: passed) pending Q (f start)) →
    P passed pending Q (liftM nextAddress >>= f)
  /-- A jump that is placed waits for its target. -/
  forward : ∀ {α : Type} {Q : α → Prop} {passed pending : List Nat} {f : Nat → Logged α}
    {op : Opcode} {n : Int}, op = .jump ∨ op = .jumpif →
    (∀ label, P passed (label :: pending) Q (f label)) →
    P passed pending Q (Logged.forward op n >>= f)
  /-- A jump that is patched waits no more. -/
  patch : ∀ {α : Type} {Q : α → Prop} {passed : List Nat} (before after : List Nat) {label : Nat}
    {t : Logged α}, P passed (before ++ after) Q t →
    P passed (before ++ label :: after) Q (Logged.patch label >>= fun _ => t)
  restrict : ∀ {passed : List Nat} {span : Span} {restriction : Restriction},
    restriction ≠ .outOfReach → P passed [] (fun _ => True) (liftM (restrict span restriction))
  represent : ∀ {passed : List Nat} {level : Nat} {ρ : Referents} {id : NodeId} {name : String}
    {typed : Bool} {entity : Entity}, K ⟨.binder id name typed, level, ρ⟩ →
    (∀ address, entity.address? = some address → address.level = level) →
    P passed [] (fun _ => True) (liftM (represent id entity))
  entityOf : ∀ {passed : List Nat} {level : Nat} {ρ : Referents} {name : Terminal},
    K ⟨.use name, level, ρ⟩ → P passed [] (E level) (liftM (entityOf A name))
  display : ∀ {passed : List Nat} {level : Nat} {frame : Frame} {entity : Entity}
    {address : Address} {span : Span}, frame.At level → E level entity →
    entity.address? = some address →
    P passed [] (fun _ => True) (Logged.display frame address span)
  push : ∀ {passed : List Nat} {level : Nat} {frame : Frame} {size : Int}, frame.At level →
    level < Machine.maxRoutineLevel → P passed [] (Frame.At (level + 1)) (Logged.push frame size)

section

variable {A : Annotations} {K : Spot → Prop} {E : Nat → Entity → Prop}
  {P : ∀ {α : Type}, List Nat → List Nat → (α → Prop) → Logged α → Prop}
  (h : Logged.Closed A K E @P)
  {passed : List Nat} {level : Nat} {ρ : Referents} {frame : Frame} {entity : Entity}
  {access : Access} {address : Address}

include h

/-! ## Uses of entities -/

namespace Logged.Closed

omit h in
theorem ite {α : Type} {pending : List Nat} {Q : α → Prop} {c : Prop} [Decidable c]
    {t t' : Logged α} (ht : c → P passed pending Q t) (ht' : ¬c → P passed pending Q t') :
    P passed pending Q (if c then t else t') := by
  split
  · exact ht ‹_›
  · exact ht' ‹_›

theorem lift {α : Type} {passed : List Nat} (x : Checked α) :
    P passed [] (fun _ => True) (liftM x) :=
  h.checked fun _ _ => trivial

theorem expand (hframe : frame.At level) {size : Int} :
    P passed [] (Frame.At level) (liftM (frame.expand size)) :=
  h.checked fun _ => hframe.expand

theorem limit {size : Int} {span : Span} :
    P passed [] (fun _ => True) (liftM (Encode.limit size span)) := by
  rw [Encode.limit]
  split
  · exact h.bind (h.restrict (by simp)) fun _ _ => h.pure trivial
  · exact h.pure trivial

theorem callPrimitive {routine : Primitive} :
    P passed [] (fun _ => True) (liftM (Encode.callPrimitive routine)) := by
  rw [Encode.callPrimitive]
  split
  · exact h.pure trivial
  · exact h.emit (by decide)

/-- The last label pending is patched, and nothing is pending any more. -/
theorem patch_last {label : Nat} :
    P passed [label] (fun _ => True) (Logged.patch label) := by
  rw [← Logged.bind_pure (Logged.patch label)]
  exact h.patch [] [] (h.pure trivial)

theorem call (hframe : frame.At level) (hentity : E level entity) {arguments : Int} {span : Span} :
    P passed [] (fun _ => True) (Logged.call entity frame arguments span) := by
  cases entity with
  | knownRoutine address =>
    exact h.bind (h.display hframe hentity rfl) fun _ _ => h.emit (by decide)
  | unknownRoutine address =>
    exact h.bind (h.display hframe hentity rfl) fun _ _ =>
      h.bind (h.emit (by decide)) fun _ _ => h.emit (by decide)
  | primitive routine => exact h.callPrimitive
  | equality routine => exact h.bind (h.emit (by decide)) fun _ _ => h.callPrimitive
  | _ => exact h.pure trivial

theorem fetchRoutine (hframe : frame.At level) (hentity : E level entity) {span : Span} :
    P passed [] (fun _ => True) (Logged.fetchRoutine entity frame span) := by
  cases entity with
  | knownRoutine address =>
    exact h.bind (h.display hframe hentity rfl) fun _ _ =>
      h.bind (h.emit (by decide)) fun _ _ => h.emit (by decide)
  | unknownRoutine address =>
    exact h.bind (h.display hframe hentity rfl) fun _ _ => h.emit (by decide)
  | primitive routine => exact h.bind (h.emit (by decide)) fun _ _ => h.emit (by decide)
  | _ => exact h.pure trivial

theorem indirectAddress (hframe : frame.At level) (hentity : E level entity)
    (haddress : entity.address? = some address) {span : Span} :
    P passed [] (fun _ => True) (Logged.indirectAddress access address frame span) := by
  have hoffset : P passed [] (fun _ => True)
      (do if access.offset ≠ 0 then literal access.offset; Encode.callPrimitive .add
        : Logged Unit) := by
    split
    · exact h.bind (h.emit (by decide)) fun _ _ => h.callPrimitive
    · exact h.pure trivial
  exact h.bind (h.display hframe hentity haddress) fun _ _ => h.bind (h.emit (by decide)) fun _ _ =>
    ite (fun _ => h.bind h.callPrimitive fun _ _ => hoffset) fun _ => hoffset

/-- Words are moved by plain instructions. -/
theorem move {direct indirect : Opcode} (hdirect : direct.IsPlain)
    (hindirect : indirect.IsPlain) (hframe : frame.At level)
    (hentity : E level entity) (haddress : entity.address? = some address) {size : Int}
    {span : Span} : P passed [] (fun _ => True)
      (Logged.move direct indirect access address size frame span) := by
  refine h.bind (h.display hframe hentity haddress) fun _ _ => h.bind (h.lift _) fun _ _ => ?_
  split
  · exact h.bind (h.emit (by decide)) fun _ _ => h.bind h.callPrimitive fun _ _ => h.emit hindirect
  · exact h.emit hdirect

theorem fetch (hframe : frame.At level) (haccess : E level access.entity) {size : Int}
    {span : Span} : P passed [] (fun _ => True) (Logged.fetch access size frame span) := by
  refine h.bind h.limit fun _ _ => ?_
  cases hentity : access.entity with
  | knownValue value => exact h.emit (by decide)
  | unknownValue address | knownAddress address =>
    exact h.move (by decide) (by decide) hframe haccess (by rw [hentity]; rfl)
  | unknownAddress address =>
    exact h.bind (h.indirectAddress hframe haccess (by rw [hentity]; rfl)) fun _ _ =>
      h.emit (by decide)
  | _ => exact h.pure trivial

theorem store (hframe : frame.At level) (haccess : E level access.entity) {size : Int}
    {span : Span} : P passed [] (fun _ => True) (Logged.store access size frame span) := by
  refine h.bind h.limit fun _ _ => ?_
  cases hentity : access.entity with
  | knownAddress address =>
    exact h.move (by decide) (by decide) hframe haccess (by rw [hentity]; rfl)
  | unknownAddress address =>
    exact h.bind (h.indirectAddress hframe haccess (by rw [hentity]; rfl)) fun _ _ =>
      h.emit (by decide)
  | _ => exact h.pure trivial

theorem fetchAddress (hframe : frame.At level) (haccess : E level access.entity) {span : Span} :
    P passed [] (fun _ => True) (Logged.fetchAddress access frame span) := by
  rw [Logged.fetchAddress]
  cases hentity : access.entity with
  | unknownValue address | knownAddress address =>
    refine h.bind (h.display hframe haccess (by rw [hentity]; rfl)) fun _ _ =>
      h.bind (h.lift _) fun _ _ => h.bind (h.emit (by decide)) fun _ _ => ?_
    split
    · exact h.callPrimitive
    · exact h.pure trivial
  | unknownAddress address => exact h.indirectAddress hframe haccess (by rw [hentity]; rfl)
  | _ => exact h.pure trivial

end Logged.Closed

/-! ## Phrases

Whatever the property is, the frame of a phrase has the level of its spots: this is carried along
here, once for all. -/

/-- What is filed for a parameter has the level of the frame. -/
theorem Parameter.closed_encode (hframe : frame.At level) (parameter : Parameter)
    (hspots : ∀ p ∈ parameter.spots level ρ, K p) :
    P passed [] (fun _ => True) (liftM (parameter.encode A frame)) := by
  have hbinder : ∃ name typed, K ⟨.binder parameter.mark.id name typed, level, ρ⟩ := by
    cases parameter <;>
      exact ⟨_, _, hspots _ (List.mem_append_right _ (List.mem_singleton_self _))⟩
  obtain ⟨name, typed, hbinder⟩ := hbinder
  -- whatever the size of a parameter, its address belongs to the frame
  have hplaced : ∀ (size : Int) (entity : Address → Entity) (result : Int),
      (∀ address, (entity address).address? = some address) →
      P passed [] (fun _ => True) (do
        let address ← frame.parameter size
        represent parameter.mark.id (entity address)
        return result : Logged Int) := by
    intro size entity result hentity
    refine h.bind (h.checked fun _ => hframe.parameter) fun address haddress =>
      h.bind (h.represent hbinder ?_) fun _ _ => h.pure trivial
    intro other hother
    obtain rfl := Option.some.inj ((hentity address).symm.trans hother)
    exact haddress
  cases parameter with
  | const m name of =>
    simp only [Parameter.encode, Logged.lift_bind]
    exact h.bind (h.lift _) fun size _ => hplaced size .unknownValue size fun _ => rfl
  | func m name parameters result | proc m name parameters =>
    simp only [Parameter.encode, Logged.lift_bind]
    exact hplaced Machine.closureSize .unknownRoutine _ fun _ => rfl
  | var m name of =>
    simp only [Parameter.encode, Logged.lift_bind]
    exact hplaced Machine.addressSize .unknownAddress _ fun _ => rfl

theorem Parameters.closed_encode {ρ : Referents} {frame : Frame} (hframe : frame.At level) :
    (parameters : Parameters) → (∀ p ∈ parameters.spots level ρ, K p) →
    P passed [] (fun _ => True) (liftM (parameters.encode A frame))
  | .empty _, _ => h.pure trivial
  | .single _ parameter, hspots => parameter.closed_encode h hframe hspots
  | .multiple _ first rest, hspots => by
    rw [Parameters.spots, List.forall_mem_append] at hspots
    simp only [Parameters.encode, Logged.lift_bind]
    exact h.bind (rest.closed_encode hframe hspots.2) fun _ _ => h.bind (h.expand hframe)
      fun _ hinner => h.bind (first.closed_encode h hinner hspots.1) fun _ _ => h.lift _

/-- The code of a routine, of whose body only the frame is known. -/
theorem Logged.Closed.routine (hframe : frame.At level) {declaration : Mark} {name : String}
    {typed : Bool} {parameters : Parameters}
    (hname : K ⟨.binder declaration.id name typed, level, ρ⟩)
    (hspots : ∀ p ∈ parameters.spots (level + 1) ([] :: ρ), K p) {body : Frame → Logged Int}
    (hbody : ∀ passed (inner : Frame), inner.At (level + 1) →
      P passed [] (fun _ => True) (body inner)) :
    P passed [] (fun _ => True) (Logged.routine A declaration parameters frame body) := by
  have hend : ∀ (passed : List Nat) (skip : Nat) (sizes : Int × Int),
      P passed [skip] (fun _ => True) (do
        let result ← Encode.limit sizes.2 declaration.span
        Encode.emit .return_ .cb result sizes.1
        Logged.patch skip
        return 0 : Logged Int) :=
    fun _ _ _ => h.bind h.limit fun _ _ => h.bind (h.emit (by decide)) fun _ _ =>
      h.patch [] [] (h.pure trivial)
  refine h.forward (.inl rfl) fun skip => h.address fun start =>
    h.bind (h.represent hname ?_) fun _ _ => ?_
  · rintro address ⟨⟩
    exact hframe.level_eq
  · split
    · exact h.bind (h.restrict (by simp)) fun _ _ => hend _ skip (0, 0)
    · rename_i hlt
      rw [hframe.level_eq, ge_iff_le, Nat.not_le] at hlt
      exact h.bind (h.push hframe hlt) fun inner hinner =>
        h.bind (parameters.closed_encode h hinner hspots) fun arguments _ =>
        h.bind (h.push hframe hlt) fun inner hinner =>
        h.bind (hbody _ inner hinner) fun result _ => hend _ skip (arguments, result)

mutual

theorem Command.closed_logged {passed : List Nat} {level : Nat} {ρ : Referents} {frame : Frame}
    (hframe : frame.At level) : (command : Command) → (∀ p ∈ command.spots level ρ, K p) →
    P passed [] (fun _ => True) (command.logged A frame)
  | .assign _ target value, hspots => by
    rw [Command.spots, List.forall_mem_append] at hspots
    exact h.bind (value.closed_logged hframe hspots.2) fun _ _ =>
      h.bind (h.expand hframe) fun _ hinner =>
      h.bind (target.closed_logged hinner hspots.1) fun _ haccess => h.store hinner haccess
  | .doubleAssign _ first second firstValue secondValue, hspots => by
    simp only [Command.spots, List.forall_mem_append] at hspots
    obtain ⟨⟨⟨hfirst, hsecond⟩, hfirstValue⟩, hsecondValue⟩ := hspots
    exact h.bind (firstValue.closed_logged hframe hfirstValue) fun _ _ =>
      h.bind (h.expand hframe) fun _ hframe =>
      h.bind (first.closed_logged hframe hfirst) fun _ haccess =>
      h.bind (h.fetchAddress hframe haccess) fun _ _ =>
      h.bind (h.expand hframe) fun _ hframe =>
      h.bind (secondValue.closed_logged hframe hsecondValue) fun _ _ =>
      h.bind (h.expand hframe) fun _ hframe =>
      h.bind (second.closed_logged hframe hsecond) fun _ haccess =>
      h.bind (h.fetchAddress hframe haccess) fun _ _ =>
      h.bind h.limit fun _ _ => h.bind (h.emit (by decide)) fun _ _ =>
      h.bind h.limit fun _ _ => h.emit (by decide)
  | .call _ name arguments, hspots => by
    rw [Command.spots, List.forall_mem_append] at hspots
    exact h.bind (arguments.closed_logged hframe hspots.2) fun _ _ =>
      h.bind (h.entityOf (hspots.1 _ List.mem_cons_self)) fun _ hentity =>
      h.bind (h.expand hframe) fun _ hframe => h.call hframe hentity
  | .empty _, _ => h.pure trivial
  | .ifElse _ condition first second, hspots => by
    simp only [Command.spots, List.forall_mem_append] at hspots
    -- the jump to the second branch is patched while the jump to the end waits
    exact h.bind (condition.closed_logged hframe hspots.1.1) fun _ _ =>
      h.forward (.inr rfl) fun toSecond =>
      h.bind (first.closed_logged hframe hspots.1.2) fun _ _ =>
      h.forward (.inl rfl) fun toEnd => h.patch [toEnd] [] <|
      h.bind (second.closed_logged hframe hspots.2) fun _ _ => h.patch_last
  | .letIn _ declaration body, hspots => by
    rw [Command.spots, List.forall_mem_append] at hspots
    exact h.bind (declaration.closed_logged hframe hspots.1) fun _ _ =>
      h.bind (h.expand hframe) fun _ hinner =>
      h.bind (body.closed_logged hinner hspots.2) fun _ _ =>
      Logged.Closed.ite (fun _ => h.emit (by decide)) fun _ => h.pure trivial
  | .sequential _ first second, hspots => by
    rw [Command.spots, List.forall_mem_append] at hspots
    exact h.bind (first.closed_logged hframe hspots.1) fun _ _ =>
      second.closed_logged hframe hspots.2
  | .whileDo _ condition body, hspots => by
    rw [Command.spots, List.forall_mem_append] at hspots
    exact h.forward (.inl rfl) fun toTest => h.address fun start =>
      h.bind (body.closed_logged hframe hspots.2) fun _ _ => h.patch [] [] <|
      h.bind (condition.closed_logged hframe hspots.1) fun _ _ => h.back List.mem_cons_self
  | .loopWhile _ prelude condition body, hspots => by
    simp only [Command.spots, List.forall_mem_append] at hspots
    exact h.address fun start =>
      h.bind (prelude.closed_logged hframe hspots.1.1) fun _ _ =>
      h.bind (condition.closed_logged hframe hspots.1.2) fun _ _ =>
      h.forward (.inr rfl) fun toExit =>
      h.bind (body.closed_logged hframe hspots.2) fun _ _ =>
      h.bind (h.back List.mem_cons_self) fun _ _ => h.patch_last

theorem Expression.closed_logged {passed : List Nat} {level : Nat} {ρ : Referents} {frame : Frame}
    (hframe : frame.At level) : (expression : Expression) →
    (∀ p ∈ expression.spots level ρ, K p) →
    P passed [] (fun _ => True) (expression.logged A frame)
  | .array _ elements, hspots => by
    rw [Expression.spots, List.forall_mem_append] at hspots
    exact elements.closed_logged hframe hspots.1
  | .binary _ left operator right, hspots => by
    simp only [Expression.spots, List.forall_mem_append] at hspots
    obtain ⟨⟨⟨hleft, hoperator⟩, hright⟩, -⟩ := hspots
    exact h.bind (left.closed_logged hframe hleft) fun _ _ =>
      h.bind (h.expand hframe) fun _ hinner =>
      h.bind (right.closed_logged hinner hright) fun _ _ =>
      h.bind (h.lift _) fun _ _ =>
      h.bind (h.entityOf (hoperator _ List.mem_cons_self)) fun _ hentity =>
      h.bind (h.expand hframe) fun _ hinner =>
      h.bind (h.call hinner hentity) fun _ _ => h.lift _
  | .call _ name arguments, hspots => by
    simp only [Expression.spots, List.forall_mem_append] at hspots
    exact h.bind (arguments.closed_logged hframe hspots.1.2) fun _ _ =>
      h.bind (h.entityOf (hspots.1.1 _ List.mem_cons_self)) fun _ hentity =>
      h.bind (h.expand hframe) fun _ hinner =>
      h.bind (h.call hinner hentity) fun _ _ => h.lift _
  | .character _ _, _ | .integer _ _, _ => h.bind (h.emit (by decide)) fun _ _ => h.pure trivial
  | .empty _, _ => h.pure trivial
  | .ifElse _ condition first second, hspots => by
    simp only [Expression.spots, List.forall_mem_append] at hspots
    obtain ⟨⟨⟨hcondition, hfirst⟩, hsecond⟩, -⟩ := hspots
    exact h.bind (condition.closed_logged hframe hcondition) fun _ _ =>
      h.forward (.inr rfl) fun toSecond =>
      h.bind (first.closed_logged hframe hfirst) fun _ _ =>
      h.forward (.inl rfl) fun toEnd => h.patch [toEnd] [] <|
      h.bind (second.closed_logged hframe hsecond) fun _ _ => h.patch [] [] (h.pure trivial)
  | .letIn _ declaration body, hspots => by
    simp only [Expression.spots, List.forall_mem_append] at hspots
    exact h.bind (declaration.closed_logged hframe hspots.1.1) fun _ _ =>
      h.bind (h.expand hframe) fun _ hinner =>
      h.bind (body.closed_logged hinner hspots.1.2) fun _ _ =>
      Logged.Closed.ite (fun _ => h.bind h.limit fun _ _ => h.bind (h.emit (by decide)) fun _ _ =>
        h.pure trivial) fun _ => h.pure trivial
  | .record _ fields, hspots => by
    rw [Expression.spots, List.forall_mem_append] at hspots
    exact fields.closed_logged hframe hspots.1
  | .unary _ operator operand, hspots => by
    simp only [Expression.spots, List.forall_mem_append] at hspots
    exact h.bind (operand.closed_logged hframe hspots.1.2) fun _ _ =>
      h.bind (h.entityOf (hspots.1.1 _ List.mem_cons_self)) fun _ hentity =>
      h.bind (h.expand hframe) fun _ hinner =>
      h.bind (h.call hinner hentity) fun _ _ => h.lift _
  | .vname _ vname, hspots => by
    rw [Expression.spots, List.forall_mem_append] at hspots
    exact h.bind (h.lift _) fun _ _ =>
      h.bind (vname.closed_logged hframe hspots.1) fun _ haccess =>
      h.bind (h.fetch hframe haccess) fun _ _ => h.pure trivial

theorem Declaration.closed_logged {passed : List Nat} {level : Nat} {ρ : Referents} {frame : Frame}
    (hframe : frame.At level) : (declaration : Declaration) →
    (∀ p ∈ declaration.spots level ρ, K p) →
    P passed [] (fun _ => True) (declaration.logged A frame)
  | .binaryOperator _ _ _ _ _, _ | .type _ _ _, _ | .unaryOperator _ _ _ _, _ => h.pure trivial
  | .const m name value, hspots => by
    simp only [Declaration.spots, List.forall_mem_append] at hspots
    rw [Declaration.logged]
    cases value.literal? with
    | some known =>
      exact h.bind (h.represent (hspots.2 _ List.mem_cons_self) (by rintro _ ⟨⟩)) fun _ _ =>
        h.pure trivial
    | none =>
      refine h.bind (value.closed_logged hframe hspots.1) fun _ _ =>
        h.bind (h.represent (hspots.2 _ List.mem_cons_self) ?_) fun _ _ => h.pure trivial
      rintro address ⟨⟩
      exact hframe.level_eq
  | .func m name parameters result body, hspots => by
    simp only [Declaration.spots, List.forall_mem_append] at hspots
    obtain ⟨⟨⟨hparameters, -⟩, hbody⟩, hname⟩ := hspots
    exact h.routine hframe (hname _ List.mem_cons_self) hparameters fun _ inner hinner =>
      body.closed_logged hinner hbody
  | .proc m name parameters body, hspots => by
    simp only [Declaration.spots, List.forall_mem_append] at hspots
    obtain ⟨⟨hparameters, hbody⟩, hname⟩ := hspots
    exact h.routine hframe (hname _ List.mem_cons_self) hparameters fun _ inner hinner =>
      h.bind (body.closed_logged hinner hbody) fun _ _ => h.pure trivial
  | .sequential _ first second, hspots => by
    rw [Declaration.spots, List.forall_mem_append] at hspots
    exact h.bind (first.closed_logged hframe hspots.1) fun _ _ =>
      h.bind (h.expand hframe) fun _ hinner =>
      h.bind (second.closed_logged hinner hspots.2) fun _ _ => h.lift _
  | .var m name of, hspots => by
    simp only [Declaration.spots, List.forall_mem_append] at hspots
    refine h.bind (h.lift _) fun _ _ => h.bind (h.emit (by decide)) fun _ _ =>
      h.bind (h.represent (hspots.2 _ List.mem_cons_self) ?_) fun _ _ => h.pure trivial
    rintro address ⟨⟩
    exact hframe.level_eq

/-- The entity of a V-name is that of its root. -/
theorem Vname.closed_logged {passed : List Nat} {level : Nat} {ρ : Referents} {frame : Frame}
    (hframe : frame.At level) : (vname : Vname) → (∀ p ∈ vname.spots level ρ, K p) →
    P passed [] (fun access => E level access.entity) (vname.logged A frame)
  | .dot _ record field, hspots => by
    rw [Vname.spots, List.forall_mem_append] at hspots
    exact h.bind (record.closed_logged hframe hspots.1) fun _ haccess =>
      h.bind (h.lift _) fun _ _ => h.bind (h.lift _) fun _ _ => h.pure haccess
  | .simple _ name, hspots => by
    rw [Vname.spots, List.forall_mem_append] at hspots
    exact h.bind (h.entityOf (hspots.1 _ List.mem_cons_self)) fun _ hentity => h.pure hentity
  | .subscript _ array index, hspots => by
    simp only [Vname.spots, List.forall_mem_append] at hspots
    refine h.bind (array.closed_logged hframe hspots.1.1) fun access haccess =>
      h.bind (h.lift _) fun element _ => ?_
    have hadd : P passed [] (fun access => E level access.entity)
        (do
          if access.indexed then callPrimitive .add
          return { access with indexed := true } : Logged Access) :=
      Logged.Closed.ite (fun _ => h.bind h.callPrimitive fun _ _ => h.pure haccess) fun _ =>
        h.pure haccess
    have hscale : P passed [] (fun access => E level access.entity)
        (do
          if element ≠ 1 then literal element; callPrimitive .mult
          if access.indexed then callPrimitive .add
          return { access with indexed := true } : Logged Access) :=
      Logged.Closed.ite (fun _ => h.bind (h.emit (by decide)) fun _ _ =>
        h.bind h.callPrimitive fun _ _ => hadd) fun _ => hadd
    have hindex : ∀ inner : Frame, inner.At level → P passed []
        (fun access : Access => E level access.entity) _ := fun inner hinner =>
      h.bind (index.closed_logged hinner hspots.1.2) fun _ _ => hscale
    cases index.integerLiteral? with
    | some value =>
      exact h.bind (h.lift _) fun _ _ => h.bind (h.lift _) fun _ _ => h.pure haccess
    | none =>
      exact Logged.Closed.ite (fun _ => h.bind (h.expand hframe) hindex) fun _ =>
        hindex frame hframe

theorem Argument.closed_logged {passed : List Nat} {level : Nat} {ρ : Referents} {frame : Frame}
    (hframe : frame.At level) : (argument : Argument) → (∀ p ∈ argument.spots level ρ, K p) →
    P passed [] (fun _ => True) (argument.logged A frame)
  | .const _ value, hspots => value.closed_logged hframe hspots
  | .func _ name, hspots | .proc _ name, hspots => by
    rw [Argument.logged]
    exact h.bind (h.entityOf (hspots _ List.mem_cons_self)) fun _ hentity =>
      h.bind (h.fetchRoutine hframe hentity) fun _ _ => h.pure trivial
  | .var _ vname, hspots => by
    rw [Argument.logged]
    exact h.bind (vname.closed_logged hframe hspots) fun _ haccess =>
      h.bind (h.fetchAddress hframe haccess) fun _ _ => h.pure trivial

theorem Arguments.closed_logged {passed : List Nat} {level : Nat} {ρ : Referents} {frame : Frame}
    (hframe : frame.At level) : (arguments : Arguments) → (∀ p ∈ arguments.spots level ρ, K p) →
    P passed [] (fun _ => True) (arguments.logged A frame)
  | .empty _, _ => h.pure trivial
  | .single _ argument, hspots => argument.closed_logged hframe hspots
  | .multiple _ first rest, hspots => by
    rw [Arguments.spots, List.forall_mem_append] at hspots
    exact h.bind (first.closed_logged hframe hspots.1) fun _ _ =>
      h.bind (h.expand hframe) fun _ hinner =>
      h.bind (rest.closed_logged hinner hspots.2) fun _ _ => h.lift _

theorem ArrayAggregate.closed_logged {passed : List Nat} {level : Nat} {ρ : Referents}
    {frame : Frame} (hframe : frame.At level) : (elements : ArrayAggregate) →
    (∀ p ∈ elements.spots level ρ, K p) →
    P passed [] (fun _ => True) (elements.logged A frame)
  | .single _ element, hspots => element.closed_logged hframe hspots
  | .multiple _ first rest, hspots => by
    rw [ArrayAggregate.spots, List.forall_mem_append] at hspots
    exact h.bind (first.closed_logged hframe hspots.1) fun _ _ =>
      h.bind (h.expand hframe) fun _ hinner =>
      h.bind (rest.closed_logged hinner hspots.2) fun _ _ => h.lift _

theorem RecordAggregate.closed_logged {passed : List Nat} {level : Nat} {ρ : Referents}
    {frame : Frame} (hframe : frame.At level) : (fields : RecordAggregate) →
    (∀ p ∈ fields.spots level ρ, K p) →
    P passed [] (fun _ => True) (fields.logged A frame)
  | .single _ _ value, hspots => value.closed_logged hframe hspots
  | .multiple _ _ value rest, hspots => by
    rw [RecordAggregate.spots, List.forall_mem_append] at hspots
    exact h.bind (value.closed_logged hframe hspots.1) fun _ _ =>
      h.bind (h.expand hframe) fun _ hinner =>
      h.bind (rest.closed_logged hinner hspots.2) fun _ _ => h.lift _

end

/-- The code of a program starts in the frame of level 0, with nothing passed and nothing pending.
-/
theorem Program.closed_command (program : Program) (hspots : ∀ p ∈ program.spots, K p) :
    P [] [] (fun _ => True) (program.command.logged A .global) :=
  program.command.closed_logged h .global hspots

end

end Triangle
