import Triangle.Proofs.Encoding.Growth
import Triangle.Proofs.Encoding.Sizes

/-!
# Heights of the stack

How many words are on the stack at each address of the code, counted from the base of the frame that
the code there runs in.  Code is consistent with a choice of heights if every instruction changes
the height the way the machine does, along every edge on which control can leave it.

A segment of code is looked at from its end: given the height behind it, there are heights in it
that are consistent and that begin with the right height (`Realizes`).  A jump can be followed by
any height, since control does not fall through; so segments put together end to end, whatever jumps
are between them.
-/

namespace Triangle

variable {instruction : Instruction} {r₁ r₂ r₃ : Draft}

/-! ## What routines take and give -/

/-- The words that a routine of the machine takes off the stack and the words that it puts there.
Comparisons of values of any size take the size as well, so they have no fixed number. -/
def Primitive.arity? : Primitive → Option (Int × Int)
  | .id | .not | .succ | .pred | .neg | .new => some (1, 1)
  | .and | .or | .add | .sub | .mult | .div | .mod | .lt | .le | .ge | .gt => some (2, 1)
  | .eq | .ne => none
  | .eol | .eof => some (0, 1)
  | .get | .put | .getint | .putint => some (1, 0)
  | .geteol | .puteol => some (0, 0)
  | .dispose => some (2, 0)

/-- The words of a node's type. -/
def Annotations.wordsOf (A : Annotations) (id : NodeId) : Int :=
  match A.typeOf? id with
  | some τ => τ.words
  | none => 0

/-- The words that are passed for a parameter. -/
def Parameter.words (A : Annotations) : Parameter → Int
  | .const m _ _ => A.wordsOf m.id
  | .var _ _ _ => Machine.addressSize
  | .func _ _ _ _ | .proc _ _ _ => Machine.closureSize

/-- The words that are passed for parameters. -/
def Parameters.words (A : Annotations) : Parameters → Int
  | .empty _ => 0
  | .single _ parameter => parameter.words A
  | .multiple _ first rest => first.words A + rest.words A

/-- The words that a call of a formal routine passes. -/
def Parameter.taken (A : Annotations) : Parameter → Int
  | .func _ _ parameters _ | .proc _ _ parameters => parameters.words A
  | .const _ _ _ | .var _ _ _ => 0

/-- The words that a call of a formal routine gives. -/
def Parameter.given (A : Annotations) : Parameter → Int
  | .func m _ _ _ => A.wordsOf m.id
  | .const _ _ _ | .var _ _ _ | .proc _ _ _ => 0

/-! ## Consistent heights -/

/-- The height behind the instruction at an address, for each edge by which control leaves it. -/
def Instruction.Consistent (A : Annotations) (code : List Instruction) (trace : List Event)
    (height : Nat → Int) (address : Nat) : Instruction → Prop
  | ⟨.load, _, n, _⟩ => height (address + 1) = height address + n
  | ⟨.loada, _, _, _⟩ | ⟨.loadl, _, _, _⟩ => height (address + 1) = height address + 1
  | ⟨.loadi, _, n, _⟩ => height (address + 1) = height address - 1 + n
  | ⟨.store, _, n, _⟩ => height (address + 1) = height address - n
  | ⟨.storei, _, n, _⟩ => height (address + 1) = height address - n - 1
  | ⟨.push, _, _, d⟩ => height (address + 1) = height address + d
  | ⟨.pop, _, _, d⟩ => height (address + 1) = height address - d
  | ⟨.jump, _, _, d⟩ =>
    ∃ target : Nat, d = target ∧ target < code.length ∧ height target = height address
  | ⟨.jumpif, _, _, d⟩ =>
    height (address + 1) = height address - 1 ∧
    ∃ target : Nat, d = target ∧ target < code.length ∧ height target = height address - 1
  | ⟨.call, .pb, _, d⟩ =>
    ∃ routine : Primitive, d = routine.displacement ∧
      match routine.arity? with
      | some (taken, given) => height (address + 1) = height address - taken + given
      | none => ∃ before size, address = before + 1 ∧ code[before]? = some ⟨.loadl, .cb, 0, size⟩ ∧
          height (address + 1) = height address - (1 + 2 * size) + 1
  | ⟨.call, _, _, d⟩ =>
    ∃ id entry last result arguments, d = (entry : Nat) ∧ .routine id entry last ∈ trace ∧
      code[last]? = some ⟨.return_, .cb, result, arguments⟩ ∧
      height (address + 1) = height address - arguments + result
  | ⟨.calli, _, _, _⟩ =>
    ∃ before name closure formals frame, address = before + 1 ∧
      .use name (.call (.unknownRoutine closure)) formals frame before ∈ trace ∧
      (∃ p ∈ formals, A.referentOf? name.mark.id = some (.node p.mark.id)) ∧
      ∀ p ∈ formals, A.referentOf? name.mark.id = some (.node p.mark.id) →
        height (address + 1) = height address - Machine.closureSize - p.taken A + p.given A
  | ⟨.return_, _, n, _⟩ => height address = Machine.linkDataSize + n
  | ⟨.halt, _, _, _⟩ => height address = 0
  | ⟨.jumpi, _, _, _⟩ => False

/-- The heights are right at what happened while the code was generated: a phrase is entered at the
size of its frame and left with what it pushes, and the body of a routine lies between the jump over
it and its return. -/
def Event.Consistent (code : List Instruction) (height : Nat → Int) : Event → Prop
  | .use _ _ _ _ _ => True
  | .visit _ frame start stop pushed =>
    height start = frame.size ∧ height stop = frame.size + pushed
  | .routine _ entry last =>
    height entry = Machine.linkDataSize ∧
    (∃ before, entry = before + 1 ∧ code[before]? = some ⟨.jump, .cb, 0, (last + 1 : Nat)⟩) ∧
    ∃ result arguments, code[last]? = some ⟨.return_, .cb, result, arguments⟩ ∧
      height last = Machine.linkDataSize + result

/-! ## Segments -/

/-- There are heights for the code from one address up to another, for every height behind it: they
begin with a given height, and a property holds. -/
def Realizes (start stop : Nat) (entry exit : Int) (Q : (Nat → Int) → Prop) : Prop :=
  ∃ inside : Nat → Int, ∀ height : Nat → Int,
    (∀ i, start ≤ i → i < stop → height i = inside i) → height stop = exit →
    height start = entry ∧ Q height

namespace Realizes

variable {a b c : Nat} {x y z : Int} {Q Q' : (Nat → Int) → Prop}

theorem nil (a : Nat) (x : Int) : Realizes a a x x fun height => height a = x :=
  ⟨fun _ => 0, fun _ _ h => ⟨h, h⟩⟩

/-- One instruction, with any heights before and behind it. -/
theorem single (a : Nat) (x y : Int) :
    Realizes a (a + 1) x y fun height => height a = x ∧ height (a + 1) = y := by
  refine ⟨fun _ => x, fun height hinside hexit => ?_⟩
  have hentry : height a = x := hinside a (Nat.le_refl a) (Nat.lt_succ_self a)
  exact ⟨hentry, hentry, hexit⟩

/-- Segments are put together where their heights meet. -/
theorem seq (h₁ : Realizes a b x y Q) (h₂ : Realizes b c y z Q') (hab : a ≤ b) (hbc : b ≤ c) :
    Realizes a c x z fun height => Q height ∧ height b = y ∧ Q' height := by
  obtain ⟨inside₁, h₁⟩ := h₁
  obtain ⟨inside₂, h₂⟩ := h₂
  refine ⟨fun i => if i < b then inside₁ i else inside₂ i, fun height hinside hexit => ?_⟩
  obtain ⟨hmiddle, hQ'⟩ := h₂ height
    (fun i hbi hic => (hinside i (by omega) hic).trans (if_neg (by omega))) hexit
  obtain ⟨hentry, hQ⟩ := h₁ height
    (fun i hai hib => (hinside i hai (by omega)).trans (if_pos hib)) hmiddle
  exact ⟨hentry, hQ, hmiddle, hQ'⟩

theorem imp (h : Realizes a b x y Q)
    (himp : ∀ height, height a = x → height b = y → Q height → Q' height) :
    Realizes a b x y Q' := by
  obtain ⟨inside, h⟩ := h
  refine ⟨inside, fun height hinside hexit => ?_⟩
  obtain ⟨hentry, hQ⟩ := h height hinside hexit
  exact ⟨hentry, himp height hentry hexit hQ⟩

/-- Heights for a whole program. -/
theorem exists_height (h : Realizes a b x y Q) :
    ∃ height, height a = x ∧ height b = y ∧ Q height := by
  obtain ⟨inside, h⟩ := h
  obtain ⟨hentry, hQ⟩ := h (fun i => if i = b then y else inside i)
    (fun i _ hib => if_neg (by omega)) (if_pos rfl)
  exact ⟨_, hentry, if_pos rfl, hQ⟩

end Realizes

/-! ## Drafts -/

/-- A draft is part of the code and the trace of a whole program. -/
structure Draft.Within (code : List Instruction) (trace : List Event) (q : Draft) : Prop where
  codes : q.code <+: code
  room : q.address < code.length
  traces : q.trace ⊆ trace

/-- What goes on from a draft is consistent. -/
structure Draft.Sound (A : Annotations) (code : List Instruction) (trace : List Event) (p q : Draft)
    (height : Nat → Int) : Prop where
  instructions : ∀ i instruction, p.address ≤ i → i < q.address → code[i]? = some instruction →
    instruction.Consistent A code trace height i
  events : ∀ event ∈ q.trace, event ∈ p.trace ∨ event.Consistent code height

/-- The code that one draft has and the other has not yet takes the stack from one height to
another. -/
structure Draft.Balanced (A : Annotations) (code : List Instruction) (trace : List Event)
    (p q : Draft) (entry exit : Int) : Prop where
  le : p.address ≤ q.address
  realizes : Realizes p.address q.address entry exit (Draft.Sound A code trace p q)

section

variable {A : Annotations} {code : List Instruction} {trace : List Event} {Γ : Context}
  {p q r : Draft} {x y z : Int} {height : Nat → Int}

theorem Draft.Grows.address_le (h : p.Grows Γ q) : p.address ≤ q.address :=
  h.code.length_le

theorem Draft.Grows.within (h : p.Grows Γ q) (hq : q.Within code trace) : p.Within code trace :=
  ⟨h.code.trans hq.codes, Nat.lt_of_le_of_lt h.address_le hq.room,
    fun _ hevent => hq.traces (h.trace.subset hevent)⟩

/-- The instruction that was emitted at an address. -/
theorem Draft.Within.getElem? (h : (p.emit [instruction]).Within code trace) :
    code[p.address]? = some instruction := by
  obtain ⟨rest, hrest⟩ := h.codes
  rw [← hrest, List.getElem?_append_left (by simp [Draft.address])]
  simp [Draft.address]

namespace Draft.Sound

theorem trans (h₁ : p.Sound A code trace r height) (h₂ : r.Sound A code trace q height) :
    p.Sound A code trace q height := by
  refine ⟨fun i instruction hpi hiq hi => ?_, fun event hevent => ?_⟩
  · obtain hir | hri := Nat.lt_or_ge i r.address
    · exact h₁.instructions i instruction hpi hir hi
    · exact h₂.instructions i instruction hri hiq hi
  · obtain hevent | hevent := h₂.events event hevent
    · exact h₁.events event hevent
    · exact .inr hevent

theorem record (h : p.Sound A code trace q height) {event : Event}
    (hevent : event.Consistent code height) : p.Sound A code trace (q.record event) height := by
  refine ⟨h.instructions, fun other hother => ?_⟩
  obtain hother | hother := List.mem_append.1 hother
  · exact h.events other hother
  · rw [List.mem_singleton.1 hother]
    exact .inr hevent

theorem refl (p : Draft) : p.Sound A code trace p height :=
  ⟨fun _ _ hpi hip => absurd hip (Nat.not_lt.2 hpi), fun _ hevent => .inl hevent⟩

/-- One instruction is consistent. -/
theorem single (hp : (p.emit [instruction]).Within code trace)
    (h : instruction.Consistent A code trace height p.address) :
    p.Sound A code trace (p.emit [instruction]) height := by
  refine ⟨fun i other hpi hiq hi => ?_, fun _ hevent => .inl hevent⟩
  have hi' : i = p.address := by
    have : i < p.address + 1 := by simpa using hiq
    omega
  subst hi'
  rw [hp.getElem?] at hi
  cases hi
  exact h

end Draft.Sound

namespace Draft.Balanced

theorem refl (p : Draft) (x : Int) : p.Balanced A code trace p x x :=
  ⟨Nat.le_refl _, (Realizes.nil _ x).imp fun _ _ _ _ => .refl p⟩

theorem trans (h₁ : p.Balanced A code trace r x y) (h₂ : r.Balanced A code trace q y z) :
    p.Balanced A code trace q x z :=
  ⟨Nat.le_trans h₁.le h₂.le, (h₁.realizes.seq h₂.realizes h₁.le h₂.le).imp
    fun _ _ _ h => h.1.trans h.2.2⟩

/-- The use of a name pushes nothing by itself. -/
theorem use (h : p.Balanced A code trace q x y) (name : Terminal) (u : Use)
    (formals : List Parameter) (frame : Frame) :
    p.Balanced A code trace (q.use name u formals frame) x y :=
  ⟨h.le, h.realizes.imp fun _ _ _ hsound => hsound.record trivial⟩

theorem represent (h : p.Balanced A code trace q x y) (id : NodeId) (entity : Entity) :
    p.Balanced A code trace (q.represent id entity) x y :=
  ⟨h.le, h.realizes.imp fun _ _ _ hsound => ⟨hsound.instructions, hsound.events⟩⟩

/-- A phrase whose code is complete. -/
theorem visit {phrase : Phrase} {frame : Frame} {pushed : Int} (h : p.Balanced A code trace q x y)
    (hx : x = frame.size) (hy : y = frame.size + pushed) :
    p.Balanced A code trace (q.visit phrase frame p.address pushed) x y :=
  ⟨h.le, h.realizes.imp fun _ hentry hexit hsound =>
    hsound.record ⟨hentry.trans hx, hexit.trans hy⟩⟩

/-- One more instruction that control falls through. -/
theorem emit {instruction : Instruction} (h : p.Balanced A code trace q x y)
    (hq : (q.emit [instruction]).Within code trace)
    (hstep : ∀ height : Nat → Int, height q.address = y → height (q.address + 1) = z →
      instruction.Consistent A code trace height q.address) :
    p.Balanced A code trace (q.emit [instruction]) x z := by
  refine h.trans ⟨by simp, ?_⟩
  rw [Draft.address_emit]
  exact (Realizes.single q.address y z).imp fun height _ _ hheight =>
    .single hq (hstep height hheight.1 hheight.2)

end Draft.Balanced

/-! ## Straight code -/

variable (A code trace) in
/-- Instructions from an address on, which control falls through from one height to another. -/
def Straight : List Instruction → Nat → Int → Int → Prop
  | [], _, x, y => x = y
  | instruction :: rest, address, x, y =>
    ∃ middle, (∀ height : Nat → Int, height address = x → height (address + 1) = middle →
      instruction.Consistent A code trace height address) ∧ Straight rest (address + 1) middle y

namespace Straight

variable {address : Nat} {c c' : List Instruction}

theorem append (h : Straight A code trace c address x y)
    (h' : Straight A code trace c' (address + c.length) y z) :
    Straight A code trace (c ++ c') address x z := by
  induction c generalizing address x with
  | nil =>
    obtain rfl : x = y := h
    exact h'
  | cons instruction rest ih =>
    obtain ⟨middle, hstep, hrest⟩ := h
    refine ⟨middle, hstep, ih hrest ?_⟩
    rwa [List.length_cons, Nat.add_comm rest.length, ← Nat.add_assoc] at h'

theorem single (h : ∀ height : Nat → Int, height address = x → height (address + 1) = y →
      instruction.Consistent A code trace height address) :
    Straight A code trace [instruction] address x y :=
  ⟨y, h, rfl⟩

theorem literal (value : Int) (h : y = x + 1) :
    Straight A code trace (literalCode value) address x y :=
  single fun _ hx hy => by simp only [Instruction.Consistent]; omega

/-- A routine of the machine with a fixed number of words. -/
theorem primitive {routine : Primitive} {taken given : Int}
    (harity : routine.arity? = some (taken, given)) (h : y = x - taken + given) :
    Straight A code trace (primitiveCode routine) address x y := by
  unfold primitiveCode
  split
  · rename_i hid
    subst hid
    cases harity
    show x = y
    omega
  · refine single fun height hx hy => ⟨routine, rfl, ?_⟩
    rw [harity]
    show height (address + 1) = height address - taken + given
    omega

end Straight

theorem Draft.Within.of_emit {c : List Instruction} (h : (p.emit c).Within code trace) :
    p.Within code trace :=
  ((Draft.Grows.refl .empty p).emit c).within h

theorem Draft.Within.of_record {event : Event} (h : (p.record event).Within code trace) :
    p.Within code trace :=
  ((Draft.Grows.refl .empty p).record event).within h

theorem Draft.Within.of_represent {id : NodeId} {entity : Entity}
    (h : (p.represent id entity).Within code trace) : p.Within code trace :=
  ⟨h.codes, h.room, h.traces⟩

/-- Straight code behind balanced code. -/
theorem Draft.Balanced.straight {c : List Instruction} (h : p.Balanced A code trace q x y)
    (hq : (q.emit c).Within code trace) (hc : Straight A code trace c q.address y z) :
    p.Balanced A code trace (q.emit c) x z := by
  induction c generalizing q y with
  | nil =>
    obtain rfl : y = z := hc
    simpa [Draft.emit] using h
  | cons instruction rest ih =>
    obtain ⟨middle, hstep, hrest⟩ := hc
    rw [← List.singleton_append, Draft.emit_append] at hq ⊢
    exact ih (h.emit hq.of_emit hstep) hq (by simpa using hrest)

/-! ## Jumps -/

/-- Two ways from one test. -/
theorem Draft.Balanced.branch (htest : p.Balanced A code trace r₁ x (x + 1))
    (hfirst : (r₁.emit [⟨.jumpif, .cb, 0, (r₂.address + 1 : Nat)⟩]).Balanced A code trace r₂ x y)
    (hsecond : (r₂.emit [⟨.jump, .cb, 0, r₃.address⟩]).Balanced A code trace r₃ x y)
    (h₁ : (r₁.emit [⟨.jumpif, .cb, 0, (r₂.address + 1 : Nat)⟩]).Within code trace)
    (h₂ : (r₂.emit [⟨.jump, .cb, 0, r₃.address⟩]).Within code trace) (h₃ : r₃.Within code trace) :
    p.Balanced A code trace r₃ x y := by
  have hle₁ := hfirst.le
  have hle₂ := hsecond.le
  have hroom₂ := h₂.room
  have hfirst' := hfirst.realizes
  have hsecond' := hsecond.realizes
  simp only [Draft.address_emit, List.length_singleton] at hle₁ hle₂ hroom₂ hfirst' hsecond'
  refine ⟨by have := htest.le; omega, ?_⟩
  refine ((((htest.realizes.seq (.single r₁.address (x + 1) x) htest.le (by omega)).seq hfirst'
    (by have := htest.le; omega) hle₁).seq (.single r₂.address y x) (by have := htest.le; omega)
    (by omega)).seq hsecond' (by have := htest.le; omega) hle₂).imp ?_
  rintro height - hexit ⟨⟨⟨⟨htest, hr₁, -, hr₁'⟩, -, hfirst⟩, hr₂, -, -⟩, hr₂', hsecond⟩
  have hjumpif : Instruction.Consistent A code trace height r₁.address
      ⟨.jumpif, .cb, 0, (r₂.address + 1 : Nat)⟩ :=
    ⟨by omega, r₂.address + 1, rfl, hroom₂, by omega⟩
  have hjump : Instruction.Consistent A code trace height r₂.address ⟨.jump, .cb, 0, r₃.address⟩ :=
    ⟨r₃.address, rfl, h₃.room, by omega⟩
  exact (((htest.trans (.single h₁ hjumpif)).trans hfirst).trans (.single h₂ hjump)).trans hsecond

/-- A test behind the body of a loop. -/
theorem Draft.Balanced.whileDo
    (hbody : (p.emit [⟨.jump, .cb, 0, r₁.address⟩]).Balanced A code trace r₁ x x)
    (htest : r₁.Balanced A code trace r₂ x (x + 1))
    (h₀ : (p.emit [⟨.jump, .cb, 0, r₁.address⟩]).Within code trace) (h₁ : r₁.Within code trace)
    (h₂ : (r₂.emit [⟨.jumpif, .cb, 1, (p.address + 1 : Nat)⟩]).Within code trace) :
    p.Balanced A code trace (r₂.emit [⟨.jumpif, .cb, 1, (p.address + 1 : Nat)⟩]) x x := by
  have hle := hbody.le
  have hroom := h₀.room
  have hbody' := hbody.realizes
  simp only [Draft.address_emit, List.length_singleton] at hle hroom hbody'
  refine ⟨by have := htest.le; simp only [Draft.address_emit]; omega, ?_⟩
  rw [Draft.address_emit]
  refine ((((Realizes.single p.address x x).seq hbody' (by omega) hle).seq htest.realizes (by omega)
    htest.le).seq (.single r₂.address (x + 1) x) (by have := htest.le; omega) (by simp)).imp ?_
  rintro height - hexit ⟨⟨⟨⟨hp, -⟩, hp', hbody⟩, hr₁, htest⟩, hr₂, -, -⟩
  have hjump : Instruction.Consistent A code trace height p.address ⟨.jump, .cb, 0, r₁.address⟩ :=
    ⟨r₁.address, rfl, h₁.room, by omega⟩
  have hjumpif : Instruction.Consistent A code trace height r₂.address
      ⟨.jumpif, .cb, 1, (p.address + 1 : Nat)⟩ :=
    ⟨by omega, p.address + 1, rfl, hroom, by omega⟩
  exact (((Draft.Sound.single h₀ hjump).trans hbody).trans htest).trans (.single h₂ hjumpif)

/-- A test in the middle of a loop. -/
theorem Draft.Balanced.loopWhile (hprelude : p.Balanced A code trace r₁ x x)
    (htest : r₁.Balanced A code trace r₂ x (x + 1))
    (hbody : (r₂.emit [⟨.jumpif, .cb, 0, (r₃.address + 1 : Nat)⟩]).Balanced A code trace r₃ x x)
    (h₀ : p.Within code trace)
    (h₂ : (r₂.emit [⟨.jumpif, .cb, 0, (r₃.address + 1 : Nat)⟩]).Within code trace)
    (h₃ : (r₃.emit [⟨.jump, .cb, 0, p.address⟩]).Within code trace) :
    p.Balanced A code trace (r₃.emit [⟨.jump, .cb, 0, p.address⟩]) x x := by
  have hle := hbody.le
  have hroom := h₃.room
  have hbody' := hbody.realizes
  have hle₁ := hprelude.le
  have hle₂ := htest.le
  simp only [Draft.address_emit, List.length_singleton] at hle hroom hbody'
  refine ⟨by simp only [Draft.address_emit]; omega, ?_⟩
  rw [Draft.address_emit]
  refine ((((hprelude.realizes.seq htest.realizes hle₁ hle₂).seq (.single r₂.address (x + 1) x)
    (by omega) (by omega)).seq hbody' (by omega) hle).seq (.single r₃.address x x) (by omega)
    (by simp)).imp ?_
  rintro height hentry hexit ⟨⟨⟨⟨hprelude, -, htest⟩, hr₂, -, hr₂'⟩, -, hbody⟩, hr₃, -, -⟩
  have hjumpif : Instruction.Consistent A code trace height r₂.address
      ⟨.jumpif, .cb, 0, (r₃.address + 1 : Nat)⟩ :=
    ⟨by omega, r₃.address + 1, rfl, hroom, by omega⟩
  have hjump : Instruction.Consistent A code trace height r₃.address ⟨.jump, .cb, 0, p.address⟩ :=
    ⟨p.address, rfl, h₀.room, by omega⟩
  exact (((hprelude.trans htest).trans (.single h₂ hjumpif)).trans hbody).trans (.single h₃ hjump)

end

end Triangle
