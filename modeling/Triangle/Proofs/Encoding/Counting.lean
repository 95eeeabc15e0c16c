import Triangle.Proofs.Encoding.Translation
import Triangle.Proofs.Encoding.Visits
import Triangle.Proofs.Typing.Records

/-!
# The sizes that code generation counts

The code of an expression counts the words it pushes on its own: an aggregate adds up its elements,
a choice takes the count of its first limb and a block that of its body.  Checking derives the type
of an expression by other rules.  In an accepted program the two agree at every phrase that has
code, folded or not, whatever frame the phrase is given and whether or not a limit of the machine is
met on the way.
-/

namespace Triangle

variable {A : Annotations} {D : List Declaration} {Γ : Context} {τ : Ty} {n : Int}

/-! ## Well-typed points -/

/-- A phrase has a type in some context of proper types. -/
def Phrase.WellTyped (A : Annotations) : Phrase → Prop
  | .expression e => ∃ Γ τ, Γ.Proper ∧ e.Typed A Γ τ
  | .declaration d => ∃ Γ Δ, Γ.Proper ∧ d.Typed A Γ Δ
  | .vname v => ∃ Γ τ assignable, Γ.Proper ∧ v.Typed A Γ τ assignable
  | _ => True

/-- The phrases at some points are well typed. -/
def WellTypedAt (A : Annotations) (points : List Point) : Prop :=
  ∀ point ∈ points, point.phrase.WellTyped A

namespace WellTypedAt

variable {points points' : List Point} {phrase : Phrase}

theorem nil : WellTypedAt A [] := fun _ h => nomatch h

theorem append (h : WellTypedAt A points) (h' : WellTypedAt A points') :
    WellTypedAt A (points ++ points') :=
  List.forall_mem_append.2 ⟨h, h'⟩

/-- The phrase itself comes after its parts. -/
theorem close (h : WellTypedAt A points) (hphrase : phrase.WellTyped A) :
    WellTypedAt A (points ++ [⟨phrase, D⟩]) :=
  h.append (List.forall_mem_singleton.2 hphrase)

theorem ite {c : Prop} [Decidable c] (h : WellTypedAt A points) :
    WellTypedAt A (if c then [] else points) := by
  split
  · exact .nil
  · exact h

end WellTypedAt

open WellTypedAt (nil)

mutual

theorem Command.Typed.points : {c : Command} → ∀ {Γ D}, c.Typed A Γ → Γ.Proper →
    WellTypedAt A (c.points D)
  | .assign _ _ _ => by
    rintro ⟨_, htarget, hvalue⟩ hΓ
    exact ((hvalue.points hΓ).append (htarget.points hΓ)).close trivial
  | .doubleAssign _ _ _ _ _ => by
    rintro ⟨_, _, hfirst, hfirstValue, hsecond, hsecondValue⟩ hΓ
    exact ((((hfirstValue.points hΓ).append (hfirst.points hΓ)).append
      (hsecondValue.points hΓ)).append (hsecond.points hΓ)).close trivial
  | .call _ _ _ => by
    rintro ⟨_, -, harguments⟩ hΓ
    exact (harguments.points hΓ).close trivial
  | .empty _ => fun _ _ => nil.close trivial
  | .ifElse _ _ _ _ => by
    rintro ⟨hcondition, hfirst, hsecond⟩ hΓ
    exact (((hcondition.points hΓ).append (hfirst.points hΓ)).append
      (hsecond.points hΓ)).close trivial
  | .letIn _ _ _ => by
    rintro ⟨_, hdeclaration, hbody⟩ hΓ
    exact ((hdeclaration.points hΓ).append
      (hbody.points (hdeclaration.proper hΓ))).close trivial
  | .sequential _ _ _ => fun h hΓ => ((h.1.points hΓ).append (h.2.points hΓ)).close trivial
  | .whileDo _ _ _ => fun h hΓ => ((h.2.points hΓ).append (h.1.points hΓ)).close trivial
  | .loopWhile _ _ _ _ => fun h hΓ =>
    (((h.1.points hΓ).append (h.2.1.points hΓ)).append (h.2.2.points hΓ)).close trivial

theorem Expression.Typed.points : {e : Expression} → ∀ {Γ τ D}, e.Typed A Γ τ → Γ.Proper →
    WellTypedAt A (e.points D)
  | .array _ _ => by
    intro h hΓ
    obtain ⟨-, _, _, helements, -⟩ := id h
    exact (helements.points hΓ).close ⟨_, _, hΓ, h⟩
  | .binary _ _ _ _ => by
    intro h hΓ
    obtain ⟨-, _, _, _, hleft, hright, -⟩ := id h
    exact ((hleft.points hΓ).append (hright.points hΓ)).close ⟨_, _, hΓ, h⟩
  | .call _ _ _ => by
    intro h hΓ
    obtain ⟨-, _, -, harguments⟩ := id h
    exact (harguments.points hΓ).close ⟨_, _, hΓ, h⟩
  | .character _ _ | .integer _ _ => fun h hΓ => nil.close ⟨_, _, hΓ, h⟩
  | .empty _ => fun h => h.elim
  | .ifElse _ _ _ _ => by
    intro h hΓ
    obtain ⟨-, hcondition, hfirst, hsecond⟩ := id h
    exact (((hcondition.points hΓ).append (hfirst.points hΓ)).append (hsecond.points hΓ)).close
      ⟨_, _, hΓ, h⟩
  | .letIn _ _ _ => by
    intro h hΓ
    obtain ⟨-, _, hdeclaration, hbody⟩ := id h
    exact ((hdeclaration.points hΓ).append (hbody.points (hdeclaration.proper hΓ))).close
      ⟨_, _, hΓ, h⟩
  | .record _ _ => by
    intro h hΓ
    obtain ⟨-, _, hfields, -⟩ := id h
    exact (hfields.points hΓ).close ⟨_, _, hΓ, h⟩
  | .unary _ _ _ => by
    intro h hΓ
    obtain ⟨-, _, _, hoperand, -⟩ := id h
    exact (hoperand.points hΓ).close ⟨_, _, hΓ, h⟩
  | .vname _ _ => by
    intro h hΓ
    obtain ⟨-, _, hvname⟩ := id h
    exact (hvname.points hΓ).close ⟨_, _, hΓ, h⟩

theorem Declaration.Typed.points : {d : Declaration} → ∀ {Γ Δ D}, d.Typed A Γ Δ → Γ.Proper →
    WellTypedAt A (d.points D)
  | .binaryOperator _ _ _ _ _ | .unaryOperator _ _ _ _ => fun h => h.elim
  | .const _ _ _ => by
    intro h hΓ
    obtain ⟨_, hvalue, -⟩ := id h
    exact (hvalue.points hΓ).ite.close ⟨_, _, hΓ, h⟩
  | .func _ _ _ _ _ => by
    intro h hΓ
    obtain ⟨_, _, _, -, -, -, -, hparameters, hbody⟩ := id h
    exact (hbody.points (hparameters.proper (h.proper hΓ))).close ⟨_, _, hΓ, h⟩
  | .proc _ _ _ _ => by
    intro h hΓ
    obtain ⟨_, _, -, -, hparameters, hbody⟩ := id h
    exact (hbody.points (hparameters.proper (h.proper hΓ))).close ⟨_, _, hΓ, h⟩
  | .sequential _ _ _ => by
    intro h hΓ
    obtain ⟨_, hfirst, hsecond⟩ := id h
    exact ((hfirst.points hΓ).append (hsecond.points (hfirst.proper hΓ))).close ⟨_, _, hΓ, h⟩
  | .type _ _ _ | .var _ _ _ => fun h hΓ => nil.close ⟨_, _, hΓ, h⟩

theorem Vname.Typed.points : {v : Vname} → ∀ {Γ τ assignable D}, v.Typed A Γ τ assignable →
    Γ.Proper → WellTypedAt A (v.points D)
  | .dot _ _ _ => by
    intro h hΓ
    obtain ⟨-, _, _, hrecord, -⟩ := id h
    exact (hrecord.points hΓ).close ⟨_, _, _, hΓ, h⟩
  | .simple _ _ => fun h hΓ => nil.close ⟨_, _, _, hΓ, h⟩
  | .subscript _ _ _ => by
    intro h hΓ
    obtain ⟨-, _, harray, hindex⟩ := id h
    exact ((harray.points hΓ).append (hindex.points hΓ).ite).close ⟨_, _, _, hΓ, h⟩

theorem Argument.Typed.points : {a : Argument} → ∀ {Γ formal D}, a.Typed A Γ formal → Γ.Proper →
    WellTypedAt A (a.points D)
  | .const _ _ => by
    rintro ⟨_, hvalue, -⟩ hΓ
    exact (hvalue.points hΓ).close trivial
  | .func _ _ | .proc _ _ => fun _ _ => nil.close trivial
  | .var _ _ => by
    rintro ⟨_, hvname, -⟩ hΓ
    exact (hvname.points hΓ).close trivial

theorem Arguments.Typed.points : {a : Arguments} → ∀ {Γ formals D}, a.Typed A Γ formals → Γ.Proper →
    WellTypedAt A (a.points D)
  | .empty _ => fun _ _ => nil.close trivial
  | .single _ _ => by
    rintro ⟨_, hargument, -⟩ hΓ
    exact (hargument.points hΓ).close trivial
  | .multiple _ _ _ => by
    rintro ⟨_, _, hfirst, hrest, -⟩ hΓ
    exact ((hfirst.points hΓ).append (hrest.points hΓ)).close trivial

theorem ArrayAggregate.Typed.points : {e : ArrayAggregate} → ∀ {Γ τ length D},
    e.Typed A Γ τ length → Γ.Proper → WellTypedAt A (e.points D)
  | .single _ _ => fun h hΓ => (h.1.points hΓ).close trivial
  | .multiple _ _ _ => by
    rintro ⟨_, hfirst, hrest, -⟩ hΓ
    exact ((hfirst.points hΓ).append (hrest.points hΓ)).close trivial

theorem RecordAggregate.Typed.points : {f : RecordAggregate} → ∀ {Γ fs D}, f.Typed A Γ fs →
    Γ.Proper → WellTypedAt A (f.points D)
  | .single _ _ _ => by
    rintro ⟨_, hvalue, -⟩ hΓ
    exact (hvalue.points hΓ).close trivial
  | .multiple _ _ _ _ => by
    rintro ⟨_, _, hvalue, hrest, -⟩ hΓ
    exact ((hvalue.points hΓ).append (hrest.points hΓ)).close trivial

end

/-! ## Counts -/

theorem Fields.sizeFrom_le {f : Fields} {before n} : before ≤ Word.greatest →
    f.sizeFrom before = .ok n → n ≤ Word.greatest := by
  cases f with
  | nil =>
    intro hle h
    cases h
    exact hle
  | cons _ of rest =>
    intro _ h
    obtain ⟨_, -, h⟩ := bind_eq_ok_iff.1 h
    obtain ⟨_, hsum, h⟩ := bind_eq_ok_iff.1 h
    obtain ⟨hfits, rfl⟩ := Word.add_eq_ok_iff.1 hsum
    exact Fields.sizeFrom_le (Word.fits_iff.1 hfits).2 h

theorem Ty.size_le (h : τ.size = .ok n) : n ≤ Word.greatest := by
  cases τ with
  | array length element =>
    obtain ⟨_, -, h⟩ := bind_eq_ok_iff.1 h
    obtain ⟨hfits, rfl⟩ := Word.mul_eq_ok_iff.1 h
    exact (Word.fits_iff.1 hfits).2
  | record fields => exact Fields.sizeFrom_le (by decide) h
  | _ =>
    cases h
    decide

mutual

theorem Ty.Proper.solid : {τ : Ty} → τ.Proper → τ.Solid
  | .bool, _ | .char, _ | .int, _ => trivial
  | .array _ element, h => ⟨h.1, Ty.Proper.solid (τ := element) h.2⟩
  | .record fields, h => Fields.Proper.solid (f := fields) h.2

theorem Fields.Proper.solid : {f : Fields} → f.Proper → f.Solid
  | .nil, _ => trivial
  | .cons _ of rest, h => ⟨Ty.Proper.solid (τ := of) h.2.1, Fields.Proper.solid (f := rest) h.2.2⟩

end

/-- A count of words is exact, and a word itself. -/
def Counts (words n : Int) : Prop := n = words ∧ n ≤ Word.greatest

theorem Counts.of_sizeOf {id : NodeId} (ht : A.typeOf? id = some τ) (h : A.sizeOf id = .ok n) :
    Counts τ.words n := by
  refine ⟨Annotations.words_of_sizeOf ht h, Ty.size_le (τ := τ) ?_⟩
  rwa [Annotations.sizeOf, ht] at h

/-- Two parts are counted one after the other. -/
theorem Counts.add {words words' first rest : Int} (h : Counts words first)
    (h' : Counts words' rest) (hsum : Word.add first rest = .ok n) : Counts (words + words') n := by
  obtain ⟨hfits, rfl⟩ := Word.add_eq_ok_iff.1 hsum
  exact ⟨by rw [h.1, h'.1], (Word.fits_iff.1 hfits).2⟩

/-! ### What a run consists of

These say of a run what its size comes from, so that the counting below need not know how the steps
in between follow each other. -/

section

variable {m : Mark} {frame : Frame} {s s' : EncodeState}

/-- Two parts, the second of which runs in a frame that counts the first. -/
theorem Encode.yields_both {x : Encode Int} {y : Frame → Encode Int}
    (h : Yields (do
      let first ← x
      let rest ← y (← frame.expand first)
      Word.add first rest) s n s') :
    ∃ first above rest t, Yields x s first t ∧ Yields (y above) t rest s' ∧
      Word.add first rest = .ok n := by
  simp only [yields_bind, yields_lift] at h
  obtain ⟨first, t, hfirst, above, _, ⟨-, rfl⟩, rest, u, hrest, hsum, rfl⟩ := h
  exact ⟨first, above, rest, t, hfirst, hrest, hsum⟩

/-- The operands of a binary operation are evaluated one after the other before it is called. -/
theorem Expression.yields_binary {left right : Expression} {operator : Terminal}
    (h : Yields ((Expression.binary m left operator right).encode A frame) s n s') :
    ∃ size above size' operands top t u, Yields (left.encode A frame) s size t ∧
      frame.expand size = .ok above ∧ Yields (right.encode A above) t size' u ∧
      Word.add size size' = .ok operands ∧
      Yields (Encode.call (A.entityOf u.entities operator) top operands operator.mark.span)
        u () s' ∧ A.sizeOf m.id = .ok n := by
  simp only [Expression.encode, yields_bind, yields_lift] at h
  obtain ⟨size, t, hleft, above, _, ⟨habove, rfl⟩, size', u, hright, operands, _, ⟨hsum, rfl⟩,
    entity, _, hentity, top, _, ⟨-, rfl⟩, _, _, hcall, hsize, rfl⟩ := h
  obtain ⟨rfl, rfl⟩ := Encode.yields_entityOf hentity
  exact ⟨size, above, size', operands, top, t, _, hleft, habove, hright, hsum, hcall, hsize⟩

/-- The size is looked up where it is on file. -/
theorem Expression.sizeOf_of_yields {e : Expression} (hfiled : e.isFiled = true)
    (h : Yields (e.encode A frame) s n s') : A.sizeOf e.mark.id = .ok n := by
  cases e with
  | binary _ _ _ _ =>
    obtain ⟨_, _, _, _, _, _, _, -, -, -, -, -, hsize⟩ := Expression.yields_binary h
    exact hsize
  | call _ _ arguments =>
    simp only [Expression.encode, yields_bind, yields_lift] at h
    obtain ⟨size, t, -, entity, u, -, above, _, -, _, _, -, hsize, -⟩ := h
    exact hsize
  | unary _ _ operand =>
    simp only [Expression.encode, yields_bind, yields_lift] at h
    obtain ⟨size, t, -, entity, u, -, above, _, -, _, _, -, hsize, -⟩ := h
    exact hsize
  | vname _ vname =>
    simp only [Expression.encode, yields_bind, yields_lift, yields_pure] at h
    obtain ⟨size, _, ⟨hsize, -⟩, access, t, -, _, _, -, rfl, -⟩ := h
    exact hsize
  | _ => cases hfiled

/-- The first limb of a choice runs in the frame of the choice, and gives its size. -/
theorem Expression.yields_limb {condition first second : Expression}
    (h : Yields ((Expression.ifElse m condition first second).encode A frame) s n s') :
    ∃ t u, Yields (first.encode A frame) t n u := by
  simp only [Expression.encode, yields_bind, yields_pure] at h
  obtain ⟨_, _, -, _, t, -, size, u, hfirst, _, _, -, _, _, -, _, _, -, _, _, -, rfl, -⟩ := h
  exact ⟨t, u, hfirst⟩

/-- The body of a block gives its size, whether or not something is popped behind it. -/
theorem Expression.yields_body {declaration : Declaration} {body : Expression}
    (h : Yields ((Expression.letIn m declaration body).encode A frame) s n s') :
    ∃ above t u, Yields (body.encode A above) t n u := by
  simp only [Expression.encode, yields_bind] at h
  obtain ⟨extra, _, -, above, t, -, size, u, hbody, hpop⟩ := h
  split at hpop
  · simp only [yields_bind, yields_pure] at hpop
    obtain ⟨_, _, -, _, _, -, rfl, -⟩ := hpop
    exact ⟨above, t, u, hbody⟩
  · obtain ⟨rfl, -⟩ := yields_pure.1 hpop
    exact ⟨above, t, u, hbody⟩

end

mutual

/-- The code of an expression counts the words of its type. -/
theorem Expression.Typed.counts : {e : Expression} → ∀ {Γ τ frame s n s'}, e.Typed A Γ τ →
    Yields (e.encode A frame) s n s' → Counts τ.words n
  | .array _ _ => by
    rintro ⟨-, _, _, helements, rfl⟩ h
    exact helements.counts h
  | .binary _ _ _ _ | .call _ _ _ | .unary _ _ _ | .vname _ _ => by
    intro ht h
    exact .of_sizeOf ht.1 (Expression.sizeOf_of_yields rfl h)
  | .character _ _ | .integer _ _ => by
    rintro ⟨-, rfl⟩ h
    obtain ⟨_, _, -, h⟩ := yields_bind.1 h
    obtain ⟨rfl, -⟩ := yields_pure.1 h
    exact ⟨rfl, by decide⟩
  | .empty _ => fun ht _ => ht.elim
  | .ifElse _ _ _ _ => by
    rintro ⟨-, -, hfirst, -⟩ h
    obtain ⟨_, _, h⟩ := Expression.yields_limb h
    exact hfirst.counts h
  | .letIn _ _ _ => by
    rintro ⟨-, _, -, hbody⟩ h
    obtain ⟨_, _, _, h⟩ := Expression.yields_body h
    exact hbody.counts h
  | .record _ _ => by
    rintro ⟨-, _, hfields, rfl⟩ h
    exact hfields.counts h

theorem ArrayAggregate.Typed.counts : {e : ArrayAggregate} → ∀ {Γ τ length frame s n s'},
    e.Typed A Γ τ length → Yields (e.encode A frame) s n s' → Counts (length * τ.words) n
  | .single _ _ => by
    rintro ⟨helement, rfl⟩ h
    rw [Int.one_mul]
    exact helement.counts h
  | .multiple _ _ _ => by
    rintro ⟨_, hfirst, hrest, rfl⟩ h
    obtain ⟨_, _, _, _, h₁, h₂, hsum⟩ := Encode.yields_both h
    rw [Int.add_mul, Int.one_mul, Int.add_comm]
    exact (hfirst.counts h₁).add (hrest.counts h₂) hsum

theorem RecordAggregate.Typed.counts : {f : RecordAggregate} → ∀ {Γ fs frame s n s'},
    f.Typed A Γ fs → Yields (f.encode A frame) s n s' → Counts fs.words n
  | .single _ _ _ => by
    rintro ⟨_, hvalue, rfl⟩ h
    rw [Fields.words, Fields.words, Int.add_zero]
    exact hvalue.counts h
  | .multiple _ _ _ _ => by
    rintro ⟨_, _, hvalue, hrest, -, rfl⟩ h
    obtain ⟨_, _, _, _, h₁, h₂, hsum⟩ := Encode.yields_both h
    exact (hvalue.counts h₁).add (hrest.counts h₂) hsum

end

theorem Expression.Typed.sizeOf {e : Expression} {frame : Frame} {s s' : EncodeState}
    (ht : e.Typed A Γ τ) (hΓ : Γ.Proper) (h : Yields (e.encode A frame) s n s') :
    A.sizeOf e.mark.id = .ok n := by
  have htype : A.typeOf? e.mark.id = some τ := by
    cases e with
    | empty _ => exact ht.elim
    | _ => exact ht.1
  obtain ⟨rfl, hle⟩ := ht.counts h
  rw [Annotations.sizeOf, htype]
  exact (ht.proper hΓ).solid.size_eq.2 hle

/-- What a declaration keeps on the stack, by the sizes of types. -/
def Declaration.kept (A : Annotations) : Declaration → Checked Int
  | .const m _ value => if value.literal?.isSome then .ok 0 else A.sizeOf m.id
  | .var m _ _ => A.sizeOf m.id
  | .sequential _ first second => do Word.add (← first.kept A) (← second.kept A)
  | _ => .ok 0

theorem Encode.routine_result {m : Mark} {parameters : Parameters} {frame : Frame}
    {body : Frame → Encode Int} {s s' : EncodeState}
    (h : Yields (Encode.routine A m parameters frame body) s n s') : n = 0 := by
  simp only [Encode.routine, yields_bind] at h
  obtain ⟨_, _, -, _, _, -, _, _, -, h⟩ := h
  split at h <;> simp only [yields_bind, yields_pure] at h <;> grind

theorem Declaration.Typed.kept {d : Declaration} {Γ Δ frame s n s'} : d.Typed A Γ Δ → Γ.Proper →
    Yields (d.encode A frame) s n s' → d.kept A = .ok n := by
  cases d with
  | binaryOperator _ _ _ _ _ | unaryOperator _ _ _ _ => exact fun ht => ht.elim
  | const m name value =>
    rintro ⟨_, hvalue, htype, -⟩ hΓ h
    rw [Declaration.encode] at h
    rw [Declaration.kept]
    split at h
    · rename_i hliteral
      rw [hliteral]
      obtain ⟨_, _, -, h⟩ := yields_bind.1 h
      obtain ⟨rfl, -⟩ := yields_pure.1 h
      rfl
    · rename_i hliteral
      rw [hliteral]
      simp only [yields_bind, yields_pure] at h
      obtain ⟨_, _, h, _, _, -, rfl, -⟩ := h
      obtain ⟨rfl, hle⟩ := hvalue.counts h
      rw [Option.isSome_none, if_neg Bool.false_ne_true, Annotations.sizeOf, htype]
      exact (hvalue.proper hΓ).solid.size_eq.2 hle
  | func _ _ _ _ _ | proc _ _ _ _ =>
    intro _ _ h
    rw [Encode.routine_result h]
    rfl
  | sequential _ first second =>
    rintro ⟨_, hfirst, hsecond⟩ hΓ h
    obtain ⟨_, _, _, _, h₁, h₂, hsum⟩ := Encode.yields_both h
    exact bind_eq_ok_iff.2 ⟨_, hfirst.kept hΓ h₁, bind_eq_ok_iff.2
      ⟨_, hsecond.kept (hfirst.proper hΓ) h₂, hsum⟩⟩
  | type _ _ _ =>
    intro _ _ h
    obtain ⟨rfl, -⟩ := yields_pure.1 h
    rfl
  | var _ _ _ =>
    intro _ _ h
    simp only [Declaration.encode, yields_bind, yields_lift, yields_pure] at h
    obtain ⟨_, _, ⟨hsize, -⟩, _, _, -, _, _, -, rfl, -⟩ := h
    exact hsize

/-! ## Every phrase -/

/-- Two expressions push as many words as each other, wherever their code stands. -/
def Expression.SameSize (A : Annotations) (e e' : Expression) : Prop :=
  ∀ ⦃frame frame' s t s' t' n n'⦄, Yields (e.encode A frame) s n t →
    Yields (e'.encode A frame') s' n' t' → n = n'

/-- A comparison of two values of one size is told that size. -/
def Expression.Compares (A : Annotations) (m : Mark) (left : Expression) (operator : Terminal)
    (right : Expression) : Prop :=
  ∀ ⦃declaration routine⦄, A.referentOf? operator.mark.id = some (.standard declaration) →
    Entity.ofStandard declaration = .equality routine →
    left.SameSize A right ∧
    ∀ ⦃frame s n s'⦄, Yields ((Expression.binary m left operator right).encode A frame) s n s' →
      ∃ size above t u, Yields (left.encode A frame) s size t ∧ frame.expand size = .ok above ∧
        Yields (right.encode A above) t size u ∧
        s'.store = (u.store.emit ⟨.loadl, .cb, 0, size⟩).emit
          ⟨.call, .pb, Register.sb.code, routine.displacement⟩

/-- The code of an expression pushes the words of its type.  Both limbs of a choice push as many,
and so do both operands of a comparison. -/
def Expression.Counted (A : Annotations) (e : Expression) : Prop :=
  (∀ ⦃frame s n s'⦄, Yields (e.encode A frame) s n s' → A.sizeOf e.mark.id = .ok n) ∧
  match e with
  | .ifElse _ _ first second => first.SameSize A second
  | .binary m left operator right => Expression.Compares A m left operator right
  | _ => True

/-- The words that the code of a phrase pushes are those that checking found. -/
def Phrase.Counted (A : Annotations) : Phrase → Prop
  | .expression e => e.Counted A
  | .declaration d => ∀ ⦃frame s n s'⦄, Yields (d.encode A frame) s n s' → d.kept A = .ok n
  | _ => True

theorem Expression.Typed.sameSize {e e' : Expression} (h : e.Typed A Γ τ) (h' : e'.Typed A Γ τ) :
    e.SameSize A e' := by
  intro _ _ _ _ _ _ n n' hrun hrun'
  rw [(h.counts hrun).1, (h'.counts hrun').1]

theorem Expression.Typed.compares {m : Mark} {left right : Expression} {operator : Terminal}
    (ht : (Expression.binary m left operator right).Typed A Γ τ) :
    Expression.Compares A m left operator right := by
  intro declaration routine hoperator hroutine
  obtain ⟨-, σ, ρ, declaration', hleft, hright, hoperator', hs⟩ := ht
  obtain rfl : declaration = declaration' := by
    rw [hoperator] at hoperator'
    cases hoperator'
    rfl
  have hcompares : σ = ρ ∧ routine ≠ .id := by
    rcases hs with hs | ⟨hs, rfl⟩ <;> cases declaration <;> cases hs <;> cases hroutine <;>
      exact ⟨rfl, by decide⟩
  obtain ⟨rfl, hne⟩ := hcompares
  have hsame := hleft.sameSize hright
  refine ⟨hsame, fun frame s n s' h => ?_⟩
  obtain ⟨size, above, size', operands, top, t, u, h₁, habove, h₂, hsum, hcall, -⟩ :=
    Expression.yields_binary h
  obtain rfl : size = size' := hsame h₁ h₂
  obtain ⟨-, rfl⟩ := Word.add_eq_ok_iff.1 hsum
  have hhalf : (size + size).tdiv 2 = size := by
    rw [show size + size = size * 2 by omega]
    exact Int.mul_tdiv_cancel _ (by decide)
  rw [Annotations.entityOf_standard hoperator, hroutine] at hcall
  simp only [Encode.call, Encode.literal, Encode.callPrimitive, Encode.emit, hhalf, hne,
    yields_bind, yields_modify, if_false] at hcall
  obtain ⟨_, _, rfl, rfl⟩ := hcall
  exact ⟨size, above, t, u, h₁, habove, h₂, rfl⟩

theorem Phrase.WellTyped.counted {phrase : Phrase} (h : phrase.WellTyped A) : phrase.Counted A := by
  cases phrase with
  | expression e =>
    obtain ⟨Γ, τ, hΓ, ht⟩ := h
    refine ⟨fun _ _ _ _ => ht.sizeOf hΓ, ?_⟩
    cases e with
    | ifElse _ _ _ _ => exact ht.2.2.1.sameSize ht.2.2.2
    | binary _ _ _ _ => exact ht.compares
    | _ => trivial
  | declaration d =>
    obtain ⟨Γ, Δ, hΓ, ht⟩ := h
    exact fun _ _ _ _ => ht.kept hΓ
  | _ => trivial

/-- Every phrase of an accepted source that has code pushes the words that checking found, and so
does every phrase of the folded tree. -/
theorem Accepted.sizes_counted {source : Source} {failFast : Bool} {program : Program}
    {log : Log Problem} (h : Accepted source failFast program A log) :
    (∀ point ∈ program.command.points [], point.phrase.Counted A) ∧
    ∀ point ∈ (program.fold A log).program.command.points [],
      point.phrase.Counted (program.fold A log).annotations := by
  have hempty : Context.empty.Proper := fun _ _ hid => nomatch hid
  have hfolded := Command.Folds.typed h.typed _
    (Program.fold_folds program A log fun _ hid => h.lt_issued hid)
  exact ⟨fun point hpoint => (h.typed.points hempty point hpoint).counted,
    fun point hpoint => (hfolded.points hempty point hpoint).counted⟩

/-- A source with a choice between records that is compared. -/
def Source.choice : Source :=
  ⟨"choice.tri", "let const p ~ \x7bx ~ 1, y ~ ['a', 'b']\x7d; " ++
    "var q: record x: Integer, y: array 2 of Char end " ++
    "in if (if p.x = (1 + 1) then p else q) = p then putint(p.x) else q := p"⟩

set_option maxRecDepth 100000 in
theorem Accepted.choice_sizes_counted : ∃ program A log, Accepted .choice false program A log ∧
    (∀ point ∈ program.command.points [], point.phrase.Counted A) ∧
    ∀ point ∈ (program.fold A log).program.command.points [],
      point.phrase.Counted (program.fold A log).annotations := by
  obtain ⟨program, A, log, h⟩ := @Accepted.of_isSome Source.choice false (by decide +kernel)
  exact ⟨program, A, log, h, h.sizes_counted⟩

end Triangle
