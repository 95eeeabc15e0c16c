import Triangle.Proofs.Folding.Relation
import Triangle.Proofs.Typing.Judgement

/-!
# Folding preserves types

A well-typed phrase is well typed after folding, in the same context and with the same type.  For a
literal that has taken the place of an operation this rests on the tables: an operation that gives
an integer constant has an integer result, and one that gives a truth value has a Boolean one.
-/

namespace Triangle

variable {xs ys : List NodeId} {constant : Constant} {s : Standard} {σ ρ τ : Ty}

variable {A A' : Annotations}

theorem Annotations.Agree.left (h : A.Agree A' (xs ++ ys)) : A.Agree A' xs :=
  fun id hid => h id (List.mem_append_left _ hid)

theorem Annotations.Agree.right (h : A.Agree A' (xs ++ ys)) : A.Agree A' ys :=
  fun id hid => h id (List.mem_append_right _ hid)

theorem Annotations.Agree.same {id : NodeId} (h : A.Agree A' [id]) : A.Same A' id :=
  h id (List.mem_singleton_self id)

theorem Annotations.Same.typeOf {id : NodeId} {τ : Ty} (h : A.Same A' id)
    (ht : A.typeOf? id = some τ) : A'.typeOf? id = some τ :=
  h.type.trans ht

/-- A name keeps its meaning with its referent. -/
theorem Annotations.Same.means {name : Terminal} {Γ : Context} {meaning : Meaning}
    (h : A.Same A' name.mark.id) (hm : A.Means Γ name meaning) : A'.Means Γ name meaning := by
  obtain ⟨referent, hreferent, hmeaning⟩ := hm
  exact ⟨referent, h.referent.trans hreferent, hmeaning⟩

/-! ## Types and parameters -/

mutual

theorem TypeDenoter.Denotes.agree : {of : TypeDenoter} → ∀ {Γ τ}, A.Agree A' of.ids → of.Denotes A Γ
    τ → of.Denotes A' Γ τ
  | .any _ | .error _ => fun _ h => h.elim
  | .array _ _ _ => by
    rintro hA ⟨htype, length, σ, hlength, hpos, helement, rfl⟩
    exact ⟨hA.right.same.typeOf htype, length, σ, hlength, hpos,
      TypeDenoter.Denotes.agree hA.left.right helement, rfl⟩
  | .bool _ | .char _ | .int _ => fun hA h =>
    ⟨(hA.same).typeOf h.1, h.2⟩
  | .record _ _ => by
    rintro hA ⟨htype, fs, hfields, rfl⟩
    exact ⟨hA.right.same.typeOf htype, fs, FieldDenoters.Denotes.agree hA.left hfields, rfl⟩
  | .simple _ _ => fun hA h => ⟨hA.right.same.typeOf h.1, hA.left.same.means h.2⟩

theorem FieldDenoters.Denotes.agree : {fields : FieldDenoters} → ∀ {Γ fs}, A.Agree A' fields.ids →
    fields.Denotes A Γ fs → fields.Denotes A' Γ fs
  | .single _ _ _ => by
    rintro hA ⟨τ, hof, rfl⟩
    exact ⟨τ, TypeDenoter.Denotes.agree hA.left.right hof, rfl⟩
  | .multiple _ _ _ _ => by
    rintro hA ⟨τ, others, hof, hrest, hnew, rfl⟩
    exact ⟨τ, others, TypeDenoter.Denotes.agree hA.left.left.right hof,
      FieldDenoters.Denotes.agree hA.left.right hrest, hnew, rfl⟩

end

mutual

theorem Parameter.Typed.agree : {p : Parameter} → ∀ {Γ Δ formal}, A.Agree A' p.ids → p.Typed A Γ
    formal Δ → p.Typed A' Γ formal Δ
  | .const _ _ _ | .var _ _ _ => by
    rintro hA ⟨τ, hof, htype, rfl, hfresh, rfl⟩
    exact ⟨τ, hof.agree hA.left.right, hA.right.same.typeOf htype, rfl, hfresh, rfl⟩
  | .proc _ _ _ => by
    rintro hA ⟨formals, Θ, hparameters, rfl, hfresh, rfl⟩
    exact ⟨formals, Θ, Parameters.Typed.agree hA.left.right hparameters, rfl, hfresh, rfl⟩
  | .func _ _ _ _ => by
    rintro hA ⟨formals, Θ, τ, hparameters, hresult, htype, rfl, hfresh, rfl⟩
    exact ⟨formals, Θ, τ, Parameters.Typed.agree hA.left.left.right hparameters,
      hresult.agree hA.left.right, hA.right.same.typeOf htype, rfl, hfresh, rfl⟩

theorem Parameters.Typed.agree : {ps : Parameters} → ∀ {Γ Δ formals}, A.Agree A' ps.ids → ps.Typed A
    Γ formals Δ → ps.Typed A' Γ formals Δ
  | .empty _ => fun _ h => h
  | .single _ _ => by
    rintro hA ⟨formal, hp, rfl⟩
    exact ⟨formal, Parameter.Typed.agree hA.left hp, rfl⟩
  | .multiple _ _ _ => by
    rintro hA ⟨formal, others, Θ, hp, hrest, rfl⟩
    exact ⟨formal, others, Θ, Parameter.Typed.agree hA.left.left hp,
      Parameters.Typed.agree hA.left.right hrest, rfl⟩

end

/-! ## Constants -/

/-- The type of a constant, if it is not that of a character. -/
def Constant.ty : Constant → Ty
  | .int _ => .int
  | .bool _ => .bool

/-- The literal of a constant has the type of the constant. -/
theorem Constant.Literal.typed {e : Expression} (h : constant.Literal A e) (Γ : Context) :
    e.Typed A Γ constant.ty := by
  cases constant with
  | int value =>
    obtain ⟨_, _, rfl, htype⟩ := h
    exact ⟨htype, rfl⟩
  | bool value =>
    obtain ⟨_, _, _, rfl, htype, htype', hname⟩ := h
    refine ⟨htype, false, htype', _, hname, ?_⟩
    cases value <;> rfl

theorem Constant.inRange_eq_value {n : Int} (h : Constant.inRange n = .value constant) :
    constant = .int n := by
  rw [Constant.inRange] at h
  split at h
  · cases h
    rfl
  · cases h

theorem Standard.Operates.meaning {s : Standard} {σ ρ τ : Ty} (h : s.Operates σ ρ τ) :
    ∃ left right, s.meaning = .binary left right τ := by
  obtain h | ⟨h, -⟩ := h
  · exact ⟨_, _, h⟩
  · exact ⟨_, _, h⟩

/-- An operation on constants gives a constant of its result type. -/
theorem Constant.ty_of_operate {left right : Constant} (hs : s.Operates σ ρ τ)
    (h : Constant.operate s left right = .value constant) : constant.ty = τ := by
  obtain ⟨_, _, hs⟩ := hs.meaning
  unfold Constant.operate at h
  split at h
  case h_9 | h_10 | h_11 =>
    obtain rfl := Constant.inRange_eq_value h
    cases hs
    rfl
  case h_12 =>
    split at h
    · cases h
    · obtain rfl := Constant.inRange_eq_value h
      cases hs
      rfl
  case h_13 =>
    split at h
    · cases h
    · split at h
      · obtain rfl := Constant.inRange_eq_value h
        cases hs
        rfl
      · cases h
  case h_14 => cases h
  all_goals
    cases h
    cases hs
    rfl

/-- An operation on what may be constants gives a constant of its result type. -/
theorem Constant.ty_of_binary {left right : Option Constant} (hs : s.Operates σ ρ τ)
    (h : Constant.binary s left right = .value constant) : constant.ty = τ := by
  unfold Constant.binary at h
  split at h
  · rename_i habsorbs
    -- Only `/\` and `\/` have an operand that decides the result.
    have hlogical : s = .and_ ∨ s = .or_ := by
      rw [Bool.or_eq_true] at habsorbs
      obtain habsorbs | habsorbs := habsorbs <;> unfold Constant.absorbs at habsorbs <;>
        split at habsorbs <;> first | exact .inl rfl | exact .inr rfl | cases habsorbs
    obtain ⟨_, _, hs⟩ := hs.meaning
    cases h
    obtain rfl | rfl := hlogical <;> cases hs <;> rfl
  · split at h
    · exact Constant.ty_of_operate hs h
    · cases h

/-- What a unary operator computes has the type of its result. -/
theorem Constant.ty_of_unary {operand : Option Constant} (hs : s.meaning = .unary σ τ)
    (h : Constant.unary s operand = .value constant) : constant.ty = τ := by
  unfold Constant.unary at h
  split at h
  · cases h
    cases hs
    rfl
  · cases h

/-! ## Phrases -/

mutual

theorem Command.Folds.typed : {c : Command} → ∀ {Γ}, c.Typed A Γ → ∀ c', c.Folds A A' c' →
    c'.Typed A' Γ
  | .assign _ _ _ => by
    rintro ⟨τ, htarget', hvalue'⟩ _ ⟨_, _, htarget, hvalue, rfl⟩
    exact ⟨τ, htarget.typed htarget' _, hvalue.typed hvalue' _⟩
  | .doubleAssign _ _ _ _ _ => by
    rintro ⟨τ, σ, hfirst', hfirstValue', hsecond', hsecondValue'⟩ _ ⟨_, _, _, _, hfirst, hsecond,
      hfirstValue, hsecondValue, rfl⟩
    exact ⟨τ, σ, hfirst.typed hfirst' _, hfirstValue.typed hfirstValue' _,
      hsecond.typed hsecond' _, hsecondValue.typed hsecondValue' _⟩
  | .call _ _ _ => by
    rintro ⟨formals, hname', harguments'⟩ _ ⟨hname, _, harguments, rfl⟩
    exact ⟨formals, hname.means hname', harguments.typed harguments' _⟩
  | .empty _ => by
    intro _ _ h
    obtain rfl := h
    trivial
  | .ifElse _ _ _ _ => by
    rintro ht _ ⟨_, _, _, hcondition, hfirst, hsecond, rfl⟩
    exact ⟨hcondition.typed ht.1 _, hfirst.typed ht.2.1 _, hsecond.typed ht.2.2 _⟩
  | .letIn _ _ _ => by
    rintro ⟨Δ, hdeclaration', hbody'⟩ _ ⟨_, _, hdeclaration, hbody, rfl⟩
    exact ⟨Δ, hdeclaration.typed hdeclaration' _, hbody.typed hbody' _⟩
  | .sequential _ _ _ => by
    rintro ht _ ⟨_, _, hfirst, hsecond, rfl⟩
    exact ⟨hfirst.typed ht.1 _, hsecond.typed ht.2 _⟩
  | .whileDo _ _ _ => by
    rintro ht _ ⟨_, _, hcondition, hbody, rfl⟩
    exact ⟨hcondition.typed ht.1 _, hbody.typed ht.2 _⟩
  | .loopWhile _ _ _ _ => by
    rintro ht _ ⟨_, _, _, hprelude, hcondition, hbody, rfl⟩
    exact ⟨hprelude.typed ht.1 _, hcondition.typed ht.2.1 _, hbody.typed ht.2.2 _⟩

theorem Expression.Folds.typed : {e : Expression} → ∀ {Γ τ}, e.Typed A Γ τ → ∀ e', e.Folds A A' e' →
    e'.Typed A' Γ τ
  | .array _ _ => by
    rintro ⟨htype, σ, length, helements', rfl⟩ _ ⟨hm, _, helements, rfl⟩
    exact ⟨hm.typeOf htype, σ, length, helements.typed helements' _, rfl⟩
  | .binary _ _ operator _ => by
    rintro ⟨htype, σ, ρ, s, hleft', hright', hs, hoperates⟩ _ ⟨hm, hoperator, _, _, hleft, hright,
      h⟩
    have hs' := hoperator.referent.trans hs
    obtain ⟨rfl, -⟩ | ⟨constant, hvalue, hliteral⟩ := h
    · exact ⟨hm.typeOf htype, σ, ρ, s, hleft.typed hleft' _,
        hright.typed hright' _, hs', hoperates⟩
    · have hstandard : A'.standardOf? operator = some s := by
        rw [Annotations.standardOf?, hs']
      rw [Annotations.foldBinary, hstandard] at hvalue
      rw [← Constant.ty_of_binary hoperates hvalue]
      exact hliteral.typed _
  | .call _ _ _ => by
    rintro ⟨htype, formals, hname', harguments'⟩ _ ⟨hm, hname, _, harguments, rfl⟩
    exact ⟨hm.typeOf htype, formals, hname.means hname', harguments.typed harguments' _⟩
  | .character _ _ | .integer _ _ => by
    rintro ht _ ⟨hm, rfl⟩
    exact ⟨hm.typeOf ht.1, ht.2⟩
  | .empty _ => fun ht => ht.elim
  | .ifElse _ _ _ _ => by
    rintro ⟨htype, hcondition', hfirst', hsecond'⟩ _ ⟨hm, _, _, _, hcondition, hfirst, hsecond, rfl⟩
    exact ⟨hm.typeOf htype, hcondition.typed hcondition' _,
      hfirst.typed hfirst' _, hsecond.typed hsecond' _⟩
  | .letIn _ _ _ => by
    rintro ⟨htype, Δ, hdeclaration', hbody'⟩ _ ⟨hm, _, _, hdeclaration, hbody, rfl⟩
    exact ⟨hm.typeOf htype, Δ, hdeclaration.typed hdeclaration' _, hbody.typed hbody' _⟩
  | .record _ _ => by
    rintro ⟨htype, fs, hfields', rfl⟩ _ ⟨hm, _, hfields, rfl⟩
    exact ⟨hm.typeOf htype, fs, hfields.typed hfields' _, rfl⟩
  | .unary _ operator _ => by
    rintro ⟨htype, σ, s, hoperand', hs, hmeaning⟩ _ ⟨hm, hoperator, _, hoperand, h⟩
    have hs' := hoperator.referent.trans hs
    obtain ⟨rfl, -⟩ | ⟨constant, hvalue, hliteral⟩ := h
    · exact ⟨hm.typeOf htype, σ, s, hoperand.typed hoperand' _, hs', hmeaning⟩
    · have hstandard : A'.standardOf? operator = some s := by
        rw [Annotations.standardOf?, hs']
      rw [Annotations.foldUnary, hstandard] at hvalue
      rw [← Constant.ty_of_unary hmeaning hvalue]
      exact hliteral.typed _
  | .vname _ _ => by
    rintro ⟨htype, assignable, hvname'⟩ _ ⟨hm, _, hvname, rfl⟩
    exact ⟨hm.typeOf htype, assignable, hvname.typed hvname' _⟩

theorem Declaration.Folds.typed : {d : Declaration} → ∀ {Γ Δ}, d.Typed A Γ Δ →
    ∀ d', d.Folds A A' d' → d'.Typed A' Γ Δ
  | .binaryOperator _ _ _ _ _ | .unaryOperator _ _ _ _ => fun ht => ht.elim
  | .const _ _ _ => by
    rintro ⟨τ, hvalue', htype, hfresh, rfl⟩ _ ⟨hm, _, hvalue, rfl⟩
    exact ⟨τ, hvalue.typed hvalue' _, hm.typeOf htype, hfresh, rfl⟩
  | .func _ _ _ _ _ => by
    rintro ⟨τ, formals, Θ, hresult', htype, hfresh, rfl, hparameters', hbody'⟩ _ ⟨hm, hparameters,
      hresult, _, hbody, rfl⟩
    exact ⟨τ, formals, Θ, hresult'.agree hresult, hm.typeOf htype, hfresh, rfl,
      hparameters'.agree hparameters, hbody.typed hbody' _⟩
  | .proc _ _ _ _ => by
    rintro ⟨formals, Θ, hfresh, rfl, hparameters', hbody'⟩ _ ⟨hparameters, _, hbody, rfl⟩
    exact ⟨formals, Θ, hfresh, rfl, hparameters'.agree hparameters, hbody.typed hbody' _⟩
  | .sequential _ _ _ => by
    rintro ⟨Θ, hfirst', hsecond'⟩ _ ⟨_, _, hfirst, hsecond, rfl⟩
    exact ⟨Θ, hfirst.typed hfirst' _, hsecond.typed hsecond' _⟩
  | .type _ _ _ | .var _ _ _ => by
    rintro ⟨τ, hof', htype, hfresh, rfl⟩ _ ⟨hm, hof, rfl⟩
    exact ⟨τ, hof'.agree hof, hm.typeOf htype, hfresh, rfl⟩

theorem Vname.Folds.typed : {v : Vname} → ∀ {Γ τ assignable}, v.Typed A Γ τ assignable →
    ∀ v', v.Folds A A' v' → v'.Typed A' Γ τ assignable
  | .dot _ _ _ => by
    rintro ⟨htype, fs, offset, hrecord', hfield⟩ _ ⟨hm, _, hrecord, rfl⟩
    exact ⟨hm.typeOf htype, fs, offset, hrecord.typed hrecord' _, hfield⟩
  | .simple _ _ => by
    rintro ht _ ⟨hm, hname, rfl⟩
    exact ⟨hm.typeOf ht.1, hname.means ht.2⟩
  | .subscript _ _ _ => by
    rintro ⟨htype, length, harray', hindex'⟩ _ ⟨hm, _, _, harray, hindex, rfl⟩
    exact ⟨hm.typeOf htype, length, harray.typed harray' _, hindex.typed hindex' _⟩

theorem Argument.Folds.typed : {a : Argument} → ∀ {Γ formal}, a.Typed A Γ formal →
    ∀ a', a.Folds A A' a' → a'.Typed A' Γ formal
  | .const _ _ => by
    rintro ⟨τ, hvalue', rfl⟩ _ ⟨_, hvalue, rfl⟩
    exact ⟨τ, hvalue.typed hvalue' _, rfl⟩
  | .func _ _ => by
    rintro ⟨formals, τ, hname', rfl⟩ _ ⟨hname, rfl⟩
    exact ⟨formals, τ, hname.means hname', rfl⟩
  | .proc _ _ => by
    rintro ⟨formals, hname', rfl⟩ _ ⟨hname, rfl⟩
    exact ⟨formals, hname.means hname', rfl⟩
  | .var _ _ => by
    rintro ⟨τ, hvname', rfl⟩ _ ⟨_, hvname, rfl⟩
    exact ⟨τ, hvname.typed hvname' _, rfl⟩

theorem Arguments.Folds.typed : {a : Arguments} → ∀ {Γ formals}, a.Typed A Γ formals →
    ∀ a', a.Folds A A' a' → a'.Typed A' Γ formals
  | .empty _ => by
    intro ht _ h
    obtain rfl := h
    exact ht
  | .single _ _ => by
    rintro ⟨formal, hargument', rfl⟩ _ ⟨_, hargument, rfl⟩
    exact ⟨formal, hargument.typed hargument' _, rfl⟩
  | .multiple _ _ _ => by
    rintro ⟨formal, others, hfirst', hrest', rfl⟩ _ ⟨_, _, hfirst, hrest, rfl⟩
    exact ⟨formal, others, hfirst.typed hfirst' _, hrest.typed hrest' _, rfl⟩

theorem ArrayAggregate.Folds.typed : {a : ArrayAggregate} → ∀ {Γ τ length}, a.Typed A Γ τ length →
    ∀ a', a.Folds A A' a' → a'.Typed A' Γ τ length
  | .single _ _ => by
    rintro ht _ ⟨_, helement, rfl⟩
    exact ⟨helement.typed ht.1 _, ht.2⟩
  | .multiple _ _ _ => by
    rintro ⟨others, hfirst', hrest', rfl⟩ _ ⟨_, _, hfirst, hrest, rfl⟩
    exact ⟨others, hfirst.typed hfirst' _, hrest.typed hrest' _, rfl⟩

theorem RecordAggregate.Folds.typed : {r : RecordAggregate} → ∀ {Γ fs}, r.Typed A Γ fs →
    ∀ r', r.Folds A A' r' → r'.Typed A' Γ fs
  | .single _ _ _ => by
    rintro ⟨τ, hvalue', rfl⟩ _ ⟨_, hvalue, rfl⟩
    exact ⟨τ, hvalue.typed hvalue' _, rfl⟩
  | .multiple _ _ _ _ => by
    rintro ⟨τ, others, hvalue', hrest', hnew, rfl⟩ _ ⟨_, _, hvalue, hrest, rfl⟩
    exact ⟨τ, others, hvalue.typed hvalue' _, hrest.typed hrest' _, hnew, rfl⟩

end

end Triangle
