import Triangle.Proofs.Encoding.Formals
import Triangle.Proofs.Encoding.Uses

/-!
# The code keeps the stack in balance

There are heights for the code of every well-typed program.  The code of a phrase that is visited
with a frame starts where the stack has the size of the frame; a command leaves it so, and an
expression, a declaration or an argument leaves the words on top that it is said to push.

What a call takes off and puts on the stack has to be known before the code of the routine is
complete: a routine may call itself.  So the routines are those of the whole program, which is fixed
from the start, and the induction goes through the drafts that are part of it.
-/

namespace Triangle

variable {q : Draft} {s : Standard} {ρ : Ty} {above : Frame}

/-- A routine of the program is in its trace, and returns as it should. -/
def Returned (code : List Instruction) (trace : List Event) : Facts :=
  fun id entry arguments result =>
    ∃ address last : Nat, entry = address ∧ .routine id address last ∈ trace ∧
      code[last]? = some ⟨.return_, .cb, result, arguments⟩

theorem Draft.Within.certifies {code : List Instruction} {trace : List Event}
    (h : q.Within code trace) : q.Certifies (Returned code trace) := by
  intro id entry last arguments result hevent hreturn
  refine ⟨entry, last, rfl, h.traces hevent, ?_⟩
  obtain ⟨rest, hrest⟩ := h.codes
  rw [← hrest, List.getElem?_append_left (List.getElem?_eq_some_iff.1 hreturn).1]
  exact hreturn

variable {A : Annotations} {code : List Instruction} {trace : List Event}

/-! ## Moving words -/

variable {τ σ : Ty} {formals : Formals} {words size : Int} {meaning : Meaning}

/-- How an operation that only moves words changes the height of the stack. -/
def Opcode.change? (op : Opcode) (n d : Int) : Option Int :=
  match op with
  | .load => some n
  | .loada | .loadl => some 1
  | .loadi => some (n - 1)
  | .store => some (-n)
  | .storei => some (-n - 1)
  | .push => some d
  | .pop => some (-d)
  | _ => none

section

variable {access : Access} {address : Address} {frame : Frame} {c : List Instruction} {a : Nat}
  {x y size : Int}

theorem Straight.change {op : Opcode} {r : Register} {n d k : Int} (hop : op.change? n d = some k)
    (hy : y = x + k) : Straight A code trace [⟨op, r, n, d⟩] a x y := by
  refine .single fun height hx hz => ?_
  cases op <;> cases hop <;> simp only [Instruction.Consistent] <;> omega

theorem Access.index_false (entity : Entity) (offset : Int) :
    Access.index ⟨entity, offset, false⟩ = 0 := rfl

theorem Access.index_true (entity : Entity) (offset : Int) :
    Access.index ⟨entity, offset, true⟩ = 1 := rfl

theorem straight_add (h : y = x - 1) : Straight A code trace (primitiveCode .add) a x y := by
  have harity : Primitive.arity? .add = some (2, 1) := rfl
  exact .primitive harity (by omega)

/-- An index that lies on the stack is added to an address that was pushed. -/
theorem straight_index (access : Access) :
    Straight A code trace (if access.indexed then primitiveCode .add else []) a
      (x + access.index + 1) (x + 1) := by
  obtain ⟨entity, offset, indexed⟩ := access
  cases indexed with
  | false => exact congrArg (· + 1) (Int.add_zero x)
  | true => exact straight_add (by rw [Access.index_true]; omega)

/-- The address of a part of a variable is pushed. -/
theorem Access.Pointed.straight (h : access.Pointed address frame c) :
    Straight A code trace c a (x + access.index) (x + 1) := by
  obtain ⟨register, -, rfl⟩ := h
  refine Straight.append (y := x + 1) ((Straight.change rfl rfl).append (straight_index access)) ?_
  split
  · exact (Straight.literal access.offset rfl).append (straight_add (by omega))
  · rfl

/-- Words are moved between the stack and an address. -/
theorem Access.Moved.straight {direct indirect : Opcode} {k : Int}
    (h : access.Moved direct indirect address size frame c)
    (hdirect : ∀ d, direct.change? size d = some k)
    (hindirect : indirect.change? size 0 = some (k - 1)) :
    Straight A code trace c a (x + access.index) (x + k) := by
  obtain ⟨register, displacement, -, -, rfl⟩ := h
  rw [Access.index]
  split
  · refine Straight.append (y := x + 1) ?_ (.change hindirect (by omega))
    exact (Straight.change rfl rfl).append (straight_add (by omega))
  · rw [Int.add_zero]
    exact .change (hdirect displacement) rfl

/-- A value is fetched; one that is part of the code has no parts and is one word. -/
theorem Access.Fetched.straight (h : access.Fetched size frame c)
    (hhandled : (Use.fetch access).handled = true)
    (hsize : ∀ value, access.entity = .knownValue value → size = 1) :
    Straight A code trace c a (x + access.index) (x + size) := by
  obtain ⟨-, h⟩ := h
  obtain ⟨entity, offset, indexed⟩ := access
  cases entity with
  | knownValue value =>
    obtain rfl := h
    obtain ⟨rfl, rfl⟩ : offset = 0 ∧ indexed = false := by simpa [Use.handled] using hhandled
    exact .literal value (by rw [Access.index_false, hsize value rfl]; omega)
  | unknownValue address | knownAddress address => exact Access.Moved.straight h (fun _ => rfl) rfl
  | unknownAddress address =>
    obtain ⟨pointer, hpointer, rfl⟩ := h
    exact hpointer.straight.append (.change rfl (by omega))
  | _ => cases hhandled

/-- A value that is part of the code is one word. -/
theorem Vname.Emits.words_of_known {v : Vname} {Γ : Context} {assignable : Bool} {R : Facts}
    {F : List Parameter} {p : Draft} (ht : v.Typed A Γ τ assignable)
    (he : v.Emits A F frame p access q) (hfiled : Γ.Filed R p.entities) (value : Int)
    (hvalue : access.entity = .knownValue value) : τ.words = 1 := by
  obtain ⟨hentity, σ, hmeans, hsimple⟩ := he.access ht
  rw [hentity] at hvalue
  cases assignable with
  | true => obtain ⟨_, h⟩ | ⟨_, h⟩ := hmeans.var hfiled <;> rw [h] at hvalue <;> cases hvalue
  | false =>
    obtain ⟨_, h, hσ⟩ | ⟨_, h⟩ := hmeans.const hfiled
    · obtain ⟨rfl, -⟩ := hsimple hσ
      obtain rfl | rfl | rfl := hσ <;> rfl
    · rw [h] at hvalue
      cases hvalue

/-- A value is stored. -/
theorem Access.Stored.straight (h : access.Stored size frame c)
    (hhandled : (Use.store access).handled = true) :
    Straight A code trace c a (x + access.index) (x + -size) := by
  obtain ⟨-, h⟩ := h
  obtain ⟨entity, offset, indexed⟩ := access
  cases entity with
  | knownAddress address => exact Access.Moved.straight h (fun _ => rfl) rfl
  | unknownAddress address =>
    obtain ⟨pointer, hpointer, rfl⟩ := h
    exact hpointer.straight.append (.change rfl (by omega))
  | _ => cases hhandled

/-- The address of a variable is pushed. -/
theorem Access.Addressed.straight (h : access.Addressed frame c)
    (hhandled : (Use.address access).handled = true) :
    Straight A code trace c a (x + access.index) (x + 1) := by
  obtain ⟨entity, offset, indexed⟩ := access
  cases entity with
  | unknownValue address | knownAddress address =>
    obtain ⟨register, displacement, -, -, rfl⟩ := h
    exact (Straight.change rfl rfl).append (straight_index _)
  | unknownAddress address => exact Access.Pointed.straight h
  | _ => cases hhandled

/-- An index is scaled and added to the index before it. -/
theorem straight_scale (element : Int) (indexed : Bool) :
    Straight A code trace (scaleCode element indexed) a (x + (if indexed then 1 else 0) + 1)
      (x + 1) := by
  have harity : Primitive.arity? .mult = some (2, 1) := rfl
  refine Straight.append ?_ (straight_index ⟨.unrepresented, 0, indexed⟩)
  split
  · exact (Straight.literal element rfl).append
      (.primitive harity (by simp only [Access.index]; omega))
  · rfl

/-- What a block has declared is dropped at its end. -/
theorem straight_pop {extra : Int} (n : Int) (hextra : 0 ≤ extra) :
    Straight A code trace (if extra > 0 then [⟨.pop, .cb, n, extra⟩] else []) a (x + extra) x := by
  split
  · exact .change rfl (by omega)
  · show x + extra = x
    omega

end

/-! ## Calls -/

/-- A routine of the machine that is declared has the words that its meaning says. -/
theorem Standard.arity_eq {routine : Primitive} (hs : s.meaning.Routine formals words)
    (hroutine : s.primitive? = some routine) : routine.arity? = some (formals.words, words) := by
  obtain ⟨hs, rfl⟩ | ⟨τ, hs, rfl⟩ := hs <;> cases s <;> cases hs <;> cases hroutine <;> rfl

/-- An operator has the words of its operands, or compares two values of one type. -/
theorem Standard.Operates.entity (h : s.Operates σ ρ τ) :
    (∃ routine, Entity.ofStandard s = .primitive routine ∧
        routine.arity? = some (σ.words + ρ.words, τ.words)) ∨
      ∃ routine, Entity.ofStandard s = .equality routine ∧ routine ≠ .id ∧ routine.arity? = none ∧
        σ = ρ ∧ τ = .bool := by
  obtain h | ⟨h, rfl⟩ := h <;> cases s <;> cases h
  case inl.eq | inl.ne => exact .inr ⟨_, rfl, by decide, rfl, rfl, rfl⟩
  case inr.eq | inr.ne => exact .inr ⟨_, rfl, by decide, rfl, rfl, rfl⟩
  all_goals exact .inl ⟨_, rfl, rfl⟩

/-- What has to be known of the names in a context. -/
structure Context.Known (A : Annotations) (code : List Instruction) (trace : List Event)
    (formals : List Parameter) (Γ : Context) (entities : NodeMap Entity) : Prop where
  filed : Γ.Filed (Returned code trace) entities
  lists : Γ.Lists A formals entities
  proper : Γ.Proper

section

variable {Γ : Context} {F : List Parameter} {frame : Frame} {p : Draft} {c : List Instruction}
  {x arguments : Int}

/-- A call takes its arguments off the stack and leaves its result. -/
theorem Entity.Called.straight {name : Terminal}
    (h : (A.entityOf p.entities name).Called frame arguments c) (hname : A.Means Γ name meaning)
    (hroutine : meaning.Routine formals words) (hknown : Γ.Known A code trace F p.entities)
    (hevent : .use name (.call (A.entityOf p.entities name)) F frame p.address ∈ trace) :
    Straight A code trace c p.address (x + formals.words) (x + words) := by
  obtain ⟨id, address, hentity, hreturned⟩ | ⟨id, address, hreferent, hid, hentity⟩ |
    ⟨s, routine, rfl, hprimitive, hentity⟩ := hname.routine hroutine hknown.filed
  · rw [hentity] at h
    obtain ⟨link, -, rfl⟩ := h
    obtain ⟨entry, last, hentry, hevent, hreturn⟩ := hreturned
    refine .single fun height hx hy => ?_
    exact ⟨id, entry, last, words, formals.words, hentry, hevent, hreturn, by omega⟩
  · rw [hentity] at h hevent
    obtain ⟨register, -, rfl⟩ := h
    obtain ⟨q, hq, hqid⟩ := hknown.lists.listed hid hroutine (by
      rw [← Annotations.entityOf_node hreferent, hentity])
    refine Straight.append (.change rfl rfl) (.single fun height hx hy => ?_)
    refine ⟨p.address, name, address, F, frame, rfl, hevent, ⟨q, hq, by rw [hreferent, hqid]⟩, ?_⟩
    intro q' hq' hreferent'
    obtain ⟨meaning', hmeaning', hmatches⟩ := hknown.lists.known q' hq'
    rw [hreferent] at hreferent'
    cases hreferent'
    rw [hid] at hmeaning'
    cases hmeaning'
    obtain ⟨htaken, hgiven⟩ := hmatches _ _ hroutine
    rw [htaken, hgiven, hx, hy]
    omega
  · rw [hentity] at h
    obtain rfl := h
    exact .primitive (Standard.arity_eq hroutine hprimitive) (by omega)

/-- An operator of two operands takes them off the stack and leaves its result. -/
theorem Standard.Operates.straight (hs : s.Operates σ ρ τ)
    (h : (Entity.ofStandard s).Called frame (σ.words + ρ.words) c)
    (hwithin : (p.emit c).Within code trace) :
    Straight A code trace c p.address (x + (σ.words + ρ.words)) (x + τ.words) := by
  obtain ⟨routine, hprimitive, harity⟩ | ⟨routine, hequality, hne, harity, rfl, rfl⟩ := hs.entity
  · rw [hprimitive] at h
    obtain rfl := h
    exact .primitive harity (by omega)
  · rw [hequality] at h
    obtain rfl := h
    have hsize : (σ.words + σ.words).tdiv 2 = σ.words := by
      rw [show σ.words + σ.words = σ.words * 2 by omega]
      exact Int.mul_tdiv_cancel _ (by decide)
    rw [hsize, primitiveCode, if_neg hne] at hwithin ⊢
    rw [Draft.emit_append] at hwithin
    refine Straight.append (.literal σ.words rfl) (.single fun height hx hy => ⟨routine, rfl, ?_⟩)
    rw [harity]
    refine ⟨p.address, σ.words, rfl, hwithin.of_emit.getElem?, ?_⟩
    rw [hx, hy, Ty.words]
    omega

/-- The closure of a routine is pushed. -/
theorem Entity.Closed.straight {name : Terminal} {R : Facts} {a : Nat}
    (h : (A.entityOf p.entities name).Closed frame c) (hname : A.Means Γ name meaning)
    (hroutine : meaning.Routine formals words) (hfiled : Γ.Filed R p.entities) :
    Straight A code trace c a x (x + Machine.closureSize) := by
  have htwo : ∀ {first second : Instruction}, first.op = .loada → second.op = .loada →
      Straight A code trace [first, second] a x (x + Machine.closureSize) := by
    rintro ⟨_, _, _, _⟩ ⟨_, _, _, _⟩ rfl rfl
    exact Straight.append (.change rfl rfl) (.change rfl (Int.add_assoc x 1 1).symm)
  obtain ⟨id, address, hentity, -⟩ | ⟨id, address, -, -, hentity⟩ | ⟨s, routine, -, -, hentity⟩ :=
    hname.routine hroutine hfiled <;> rw [hentity] at h
  · obtain ⟨link, -, rfl⟩ := h
    exact htwo rfl rfl
  · obtain ⟨register, -, rfl⟩ := h
    exact .change rfl rfl
  · obtain rfl := h
    exact htwo rfl rfl

end

/-! ## Phrases -/

section

variable {Γ Δ : Context} {F : List Parameter} {frame : Frame} {p q : Draft}

theorem Draft.Grows.known (h : p.Grows Γ q) (hknown : Γ.Known A code trace F p.entities) :
    Γ.Known A code trace F q.entities :=
  ⟨h.filed hknown.filed, hknown.lists.grows h, hknown.proper⟩

theorem Context.Known.declaration {d : Declaration} (h : Γ.Known A code trace F p.entities)
    (ht : d.Typed A Γ Δ) (he : d.Emits A F frame p size q) (hq : q.Within code trace) :
    Δ.Known A code trace F q.entities :=
  ⟨he.filed ht hq.certifies h.filed, h.lists.declaration ht he, ht.proper h.proper⟩

theorem Frame.size_of_push {inner : Frame} (h : frame.push size = .ok inner) :
    inner.size = size := by
  rw [Frame.push_eq h]

/-- A routine is jumped over; its body lies between the link data and the return. -/
theorem Emission.Routine.balanced {m : Mark} {parameters : Parameters} {x : Int}
    {body : Frame → Draft → Int → Draft → Prop}
    (he : Emission.Routine A m parameters frame body p q) (hmeaning : meaning.Routine formals words)
    (hproper : meaning.Proper) (hfresh : Γ m.id = none)
    (ht : parameters.Typed A (Γ.bind m.id meaning) formals Δ)
    (hgrows : ∀ inner p n q, body inner p n q → p.Grows Δ q)
    (hwords : ∀ inner p n q, body inner p n q → n = words)
    (hbody : ∀ inner p n q, body inner p n q →
      Δ.Known A code trace (F ++ parameters.toList) p.entities →
      q.Within code trace → p.Balanced A code trace q inner.size (inner.size + n))
    (hknown : Γ.Known A code trace F p.entities) (hq : q.Within code trace) :
    p.Balanced A code trace q x x := by
  have hreturned := he.certified ht hwords hq.certifies
  obtain ⟨inner, outer, arguments, result, r₁, r₂, -, -, hinner, hr₁, hr₂, -, rfl⟩ := he
  have hfits : (Entity.knownRoutine ⟨frame.level, (p.address + 1 : Nat)⟩).Fits
      (Returned code trace) m.id meaning := by
    obtain ⟨rfl, rfl⟩ | ⟨τ, rfl, rfl⟩ := hmeaning
    · exact .procedure hreturned
    · exact .function hreturned
  -- a routine may call itself, so its parameters and its body know it
  have hknown₀ : (Γ.bind m.id meaning).Known A code trace F (p.entities.insert m.id
      (.knownRoutine ⟨frame.level, (p.address + 1 : Nat)⟩)) :=
    ⟨hknown.filed.represent hfits, hknown.lists.represent hfresh fun _ => Entity.noConfusion,
      hknown.proper.bind hproper⟩
  have hknown₁ : Δ.Known A code trace (F ++ parameters.toList) r₁.entities :=
    ⟨hr₁.filed ht hknown₀.filed, hknown₀.lists.parameters ht hr₁, ht.proper hknown₀.proper⟩
  have hreturn : (r₂.emit [⟨.return_, .cb, result, arguments⟩]).Within code trace :=
    ((Draft.Grows.refl .empty _).record _).within hq
  have hwithin₁ : r₁.Within code trace := (hgrows _ _ _ _ hr₂).within hreturn.of_emit
  have hjump : (p.emit [⟨.jump, .cb, 0, (r₂.address + 1 : Nat)⟩]).Within code trace :=
    ⟨hr₁.silent.1 ▸ hwithin₁.codes, by
      have := hwithin₁.room
      rwa [Draft.address, hr₁.silent.1] at this, hr₁.silent.2 ▸ hwithin₁.traces⟩
  have hstart : r₁.address = p.address + 1 := by
    rw [Draft.address, hr₁.silent.1]
    simp [Draft.address]
  have hsize : inner.size = Machine.linkDataSize := Frame.size_of_push hinner
  have hbalanced := hbody _ _ _ _ hr₂ hknown₁ hreturn.of_emit
  rw [hsize] at hbalanced
  have hle := hbalanced.le
  have hrealizes := hbalanced.realizes
  have hroom := hreturn.room
  rw [hstart] at hle hrealizes
  simp only [Draft.address_emit, List.length_singleton] at hroom
  have hend : ((r₂.emit [⟨.return_, .cb, result, arguments⟩]).record
      (.routine m.id (p.address + 1) r₂.address)).address = r₂.address + 1 := by simp
  refine ⟨by omega, ?_⟩
  rw [hend]
  -- jump and return hand no height on, so the body starts anew from the link data
  refine (((Realizes.single p.address x Machine.linkDataSize).seq hrealizes (by omega) hle).seq
    (.single r₂.address (Machine.linkDataSize + result) x) (by omega) (by omega)).imp ?_
  rintro height hentry hexit ⟨⟨-, hentry', hbody'⟩, hlast, -, -⟩
  have hjump' : Instruction.Consistent A code trace height p.address
      ⟨.jump, .cb, 0, (r₂.address + 1 : Nat)⟩ :=
    ⟨r₂.address + 1, rfl, hroom, by omega⟩
  have hsilent : (p.emit [⟨.jump, .cb, 0, (r₂.address + 1 : Nat)⟩]).Sound A code trace r₁
      height := by
    refine ⟨fun i _ hpi hiq _ => ?_, fun event hevent => .inl ?_⟩
    · rw [hstart] at hiq
      simp only [Draft.address_emit, List.length_singleton] at hpi
      omega
    · rw [hr₁.silent.2] at hevent
      exact hevent
  exact ((((Draft.Sound.single hjump hjump').trans hsilent).trans hbody').trans
    (.single hreturn hlast)).record
    ⟨hentry', ⟨p.address, rfl, hjump.getElem?⟩, result, arguments, hreturn.getElem?, hlast⟩

end

theorem Draft.Advances.balanced {Γ : Context} {F : List Parameter} {p q : Draft} {x y : Int}
    (h : p.Advances A Γ F x y q) (hknown : Γ.Known A code trace F p.entities)
    (hq : q.Within code trace) : p.Balanced A code trace q x y := by
  have hstart : p.Balanced A code trace p x x := .refl p x
  cases h with
  | literal => exact hstart.straight hq (.literal _ rfl)
  | scale => exact hstart.straight hq (straight_scale _ _)
  | push => exact hstart.straight hq (.change rfl rfl)
  | pop _ hx hextra =>
    subst hx
    exact hstart.straight hq (straight_pop _ (hextra hknown.proper))
  | stores _ hx =>
    subst hx
    refine hstart.straight hq (Straight.append (.change rfl rfl) (.change rfl ?_))
    simp only [Machine.addressSize]
    omega
  | call _ hx hname hroutine hcode =>
    subst hx
    have hevent := hq.traces (List.mem_append_right _ (List.mem_singleton_self _))
    exact (hstart.use _ _ _ _).straight hq (hcode.straight hname hroutine hknown hevent)
  | binary _ hx hoperator hs hcode =>
    subst hx
    rw [Annotations.entityOf_standard hoperator] at hcode
    exact (hstart.use _ _ _ _).straight hq (hs.straight hcode hq)
  | unary _ hx hoperator hs hcode =>
    subst hx
    rw [Annotations.entityOf_standard hoperator] at hcode
    rename_i s _ _ _ _ _
    cases s <;> cases hs
    obtain rfl := hcode
    have harity : Primitive.arity? .not = some (1, 1) := rfl
    exact (hstart.use _ _ _ _).straight hq (.primitive harity (by simp only [Ty.words]; omega))
  | closure hname hroutine hcode =>
    exact (hstart.use _ _ _ _).straight hq (hcode.straight hname hroutine hknown.filed)

/-- What is done with a V-name takes its index off the stack. -/
theorem Access.Used.straight {v : Vname} {u : Use} {c : List Instruction} {access : Access}
    {assignable : Bool} {above : Frame} {Γ : Context} {F : List Parameter} {p : Draft} {y : Int}
    {a : Nat} (h : access.Used Γ above τ assignable u c y) (ht : v.Typed A Γ τ assignable)
    (he : v.Emits A F above p access q) (hfiled : Γ.Filed (Returned code trace) p.entities) :
    Straight A code trace c a (above.size + access.index) y := by
  cases h with
  | fetch hcode =>
    exact hcode.straight (he.handled_fetch ht hfiled) (he.words_of_known ht hfiled)
  | @store size _ _ ha _ hcode hy =>
    subst ha
    rw [show y = above.size + -size by omega]
    exact hcode.straight (he.handled_variable ht hfiled).1
  | address ha hcode =>
    subst ha
    exact hcode.straight (he.handled_variable ht hfiled).2

/-- The code of a phrase takes the stack from the size of its frame to what it pushes on top. -/
def Phrase.Balanced (A : Annotations) (code : List Instruction) (trace : List Event)
    (phrase : Phrase) : Prop :=
  ∀ ⦃Γ F frame p n q⦄, phrase.Emitted A Γ F frame p n q → Γ.Known A code trace F p.entities →
    q.Within code trace → p.Balanced A code trace q frame.size (frame.size + n)

theorem Phrase.Progress.balanced {whole : Phrase} {Γ Δ : Context} {F : List Parameter}
    {D E : List Declaration} {frame above : Frame} {p q : Draft} {x : Int} {ids : List NodeId}
    {points : List Point} (h : whole.Progress A Γ F D frame p Δ E above x ids points q)
    (ih : ∀ phrase : Phrase, sizeOf phrase < sizeOf whole → phrase.Balanced A code trace)
    (hknown : Γ.Known A code trace F p.entities) (hq : q.Within code trace) :
    Δ.Known A code trace F q.entities ∧ p.Balanced A code trace q frame.size x := by
  induction h with
  | start => exact ⟨hknown, .refl _ _⟩
  | step _ hr hprogress =>
    obtain ⟨hΔ, hb⟩ := hprogress ((hr.grows .empty).within hq)
    exact ⟨(hr.grows _).known hΔ, hb.trans (hr.balanced hΔ hq)⟩
  | file _ id entity hid hprogress =>
    obtain ⟨hΔ, hb⟩ := hprogress hq.of_represent
    exact ⟨((Draft.Grows.refl _ _).represent hid entity).known hΔ, hb.represent _ _⟩
  | expand _ _ htop hprogress =>
    rw [Frame.size_of_expand htop]
    exact hprogress hq
  | part _ phrase hr hlt hprogress =>
    have hgrows := (phrase.files hr).1
    obtain ⟨hΔ, hb⟩ := hprogress (hgrows.within hq)
    exact ⟨hgrows.known hΔ, hb.trans (ih phrase hlt hr hΔ hq)⟩
  | access _ hvname hr hu hlt hprogress =>
    have hgrows := hr.grows hvname
    have hw := hq.of_emit.of_record
    obtain ⟨hΔ, hb⟩ := hprogress (hgrows.within hw)
    have hb' := ih (.vname _) hlt ⟨_, _, _, hvname, hr, rfl⟩ hΔ hw
    exact ⟨hgrows.known hΔ,
      ((hb.trans hb').use _ _ _ _).straight hq (hu.straight hvname hr hΔ.filed)⟩
  | declare _ hd hr htop hlt hprogress =>
    obtain ⟨hΔ, hb⟩ := hprogress ((hr.grows hd).within hq)
    rw [Frame.size_of_expand htop]
    exact ⟨hΔ.declaration hd hr hq, hb.trans (ih (.declaration _) hlt ⟨_, hd, hr⟩ hΔ hq)⟩
  | branch _ first second hr₂ hr₃ hlt₁ hlt₂ hprogress =>
    have hgrows₂ := (first.files hr₂).1
    have hgrows₃ := (second.files hr₃).1
    have hw₂ := hgrows₃.within hq
    have hw₁ := hgrows₂.within hw₂.of_emit
    obtain ⟨hΓ, hb⟩ := hprogress hw₁.of_emit
    have hΓ₂ := hgrows₂.known hΓ
    exact ⟨hgrows₃.known hΓ₂, Draft.Balanced.branch hb (ih first hlt₁ hr₂ hΓ hw₂.of_emit)
      (ih second hlt₂ hr₃ hΓ₂ hq) hw₁ hw₂ hq⟩
  | whileDo body test hr₁ hr₂ hlt₁ hlt₂ =>
    have hgrows₁ := (body.files hr₁).1
    have hgrows₂ := (test.files hr₂).1
    have hw₁ := hgrows₂.within hq.of_emit
    have hΓ₁ := hgrows₁.known hknown
    have hb₁ := ih body hlt₁ hr₁ hknown hw₁
    -- a command leaves nothing on the stack, so every round starts from the same height
    rw [Int.add_zero] at hb₁
    exact ⟨hgrows₂.known hΓ₁, Draft.Balanced.whileDo hb₁ (ih test hlt₂ hr₂ hΓ₁ hq.of_emit)
      (hgrows₁.within hw₁) hw₁ hq⟩
  | loopWhile prelude test body hr₁ hr₂ hr₃ hlt₁ hlt₂ hlt₃ =>
    have hgrows₁ := (prelude.files hr₁).1
    have hgrows₂ := (test.files hr₂).1
    have hgrows₃ := (body.files hr₃).1
    have hw₂ := hgrows₃.within hq.of_emit
    have hw₁ := hgrows₂.within hw₂.of_emit
    have hΓ₁ := hgrows₁.known hknown
    have hΓ₂ := hgrows₂.known hΓ₁
    have hb₁ := ih prelude hlt₁ hr₁ hknown hw₁
    have hb₃ := ih body hlt₃ hr₃ hΓ₂ hq.of_emit
    rw [Int.add_zero] at hb₁ hb₃
    exact ⟨hgrows₃.known hΓ₂, Draft.Balanced.loopWhile hb₁ (ih test hlt₂ hr₂ hΓ₁ hw₂.of_emit) hb₃
      (hgrows₁.within hw₁) hw₂ hq⟩

theorem Phrase.balanced (phrase : Phrase) : phrase.Balanced A code trace := by
  intro Γ F frame p n q h hknown hq
  cases h.composed [] with
  | parts hprogress hx =>
    subst hx
    exact (hprogress.balanced (fun phrase _ => phrase.balanced) hknown hq.of_record).2.visit rfl rfl
  | routine body hn hr hd hparameters hΔ hfresh hmeaning ht hpoints hlt =>
    subst hn hΔ
    have hproper := hd.proper hknown.proper (Context.bind_self _ _ _)
    have hb := hr.balanced (x := frame.size) hmeaning hproper hfresh ht
      (fun _ _ _ _ h => (body.files h.1).1) (fun _ _ _ _ h => h.2)
      (fun _ _ _ _ h => body.balanced h.1) hknown hq.of_record
    rw [Int.add_zero]
    exact hb.visit rfl (Int.add_zero _).symm
termination_by sizeOf phrase

/-! ## Programs -/

/-- Before any declaration nothing has to be known. -/
theorem Context.Known.empty (A : Annotations) (code : List Instruction) (trace : List Event)
    (entities : NodeMap Entity) : Context.Known A code trace [] .empty entities :=
  ⟨.empty _ _, ⟨fun _ h => (List.not_mem_nil h).elim, fun h => nomatch h⟩, fun _ _ h => nomatch h⟩

/-- There are heights for the code of a well-typed program. -/
theorem Program.Emits.exists_height {program : Program} (ht : program.command.Typed A .empty)
    (he : program.Emits A code trace) :
    ∃ height : Nat → Int, height 0 = 0 ∧
      (∀ (i : Nat) instruction, code[i]? = some instruction →
        instruction.Consistent A code trace height i) ∧
      ∀ event ∈ trace, event.Consistent code height := by
  obtain ⟨q, hq, rfl, rfl⟩ := he
  have hwithin : q.Within (q.code ++ [⟨.halt, .cb, 0, 0⟩]) q.trace :=
    ⟨List.prefix_append _ _, by simp [Draft.address], fun _ h => h⟩
  have hbalanced := (Phrase.command program.command).balanced ⟨ht, hq, rfl⟩ (.empty _ _ _ _) hwithin
  obtain ⟨height, hentry, hexit, hsound⟩ := hbalanced.realizes.exists_height
  refine ⟨height, hentry, fun i instruction hi => ?_, fun event hevent => ?_⟩
  · obtain hlt | hge := Nat.lt_or_ge i q.address
    · exact hsound.instructions i instruction (Nat.zero_le i) hlt hi
    · rw [List.getElem?_append_right hge, List.getElem?_singleton] at hi
      split at hi
      · rename_i hlast
        cases hi
        obtain rfl : i = q.address := Nat.le_antisymm (Nat.sub_eq_zero_iff_le.1 hlast) hge
        exact hexit
      · cases hi
  · obtain hnil | hconsistent := hsound.events event hevent
    · exact (List.not_mem_nil hnil).elim
    · exact hconsistent

/-- There are heights of the stack for the code of a source.  The program starts with an empty stack
and halts with an empty stack, every instruction changes the height as the machine does along all
ways that control can go, a routine is entered with its link data on the stack and returns with its
result above it, and the code of each phrase is entered at the size of its frame and left with what
it pushes on top. -/
theorem Translates.exists_consistent_height {source : Source} {failFast folding : Bool}
    {program : Program} {object : ObjectCode}
    (h : Translates source failFast folding program A object) :
    (∃ trace, program.Emits A object.instructions trace) ∧
      ∀ trace, program.Emits A object.instructions trace →
        ∃ height : Nat → Int, height 0 = 0 ∧
          (∀ (i : Nat) instruction, object.instructions[i]? = some instruction →
            instruction.Consistent A object.instructions trace height i) ∧
          ∀ event ∈ trace, event.Consistent object.instructions height :=
  ⟨h.emits, fun _ htrace => htrace.exists_height h.typed⟩

theorem Translates.relay_exists_consistent_height :
    ∃ program A object, Translates .relay false true program A object ∧
      ∃ trace, program.Emits A object.instructions trace ∧
        ∃ height : Nat → Int, height 0 = 0 ∧
          (∀ (i : Nat) instruction, object.instructions[i]? = some instruction →
            instruction.Consistent A object.instructions trace height i) ∧
          ∀ event ∈ trace, event.Consistent object.instructions height := by
  obtain ⟨program, A, object, h⟩ := Translates.relay
  obtain ⟨⟨trace, htrace⟩, hheights⟩ := h.exists_consistent_height
  exact ⟨program, A, object, h, trace, htrace, hheights trace htrace⟩

end Triangle
