import Triangle.Folding.Fold
import Triangle.Proofs.Syntax.Identities

/-!
# Folding, as a relation

Folding hands out identities and adds to the annotations while it goes through a tree.  What comes
out can be said without that state: the tree is the same, except that some operations on constants
are literals now, and the annotations say of the old nodes what they said before.

`Expression.Folds A A'` and its likes relate a phrase, with the annotations `A`, to what folding
makes of it, with the annotations `A'`.  Agreement of the annotations is part of the relation, at
every node where something is looked up.
-/

namespace Triangle

variable {id : NodeId} {A : Annotations} {operator : Terminal}

/-! ## Agreement of annotations -/

/-- Two annotations say the same of a node. -/
structure Annotations.Same (A A' : Annotations) (id : NodeId) : Prop where
  type : A'.typeOf? id = A.typeOf? id
  referent : A'.referentOf? id = A.referentOf? id

namespace Annotations

variable {A A' A'' : Annotations} {m n : Nat}

theorem Same.refl (A : Annotations) (id : NodeId) : A.Same A id := ⟨rfl, rfl⟩

theorem Same.trans {id : NodeId} (h₁ : A.Same A' id) (h₂ : A'.Same A'' id) : A.Same A'' id :=
  ⟨h₂.type.trans h₁.type, h₂.referent.trans h₁.referent⟩

/-- Two annotations say the same of some nodes. -/
def Agree (A A' : Annotations) (ids : List NodeId) : Prop := ∀ id ∈ ids, A.Same A' id

/-- Two annotations say the same of all nodes that were handed out. -/
def Below (n : Nat) (A A' : Annotations) : Prop := ∀ id, id < n → A.Same A' id

theorem Below.trans (h₁ : Below n A A') (h₂ : Below m A' A'') (hle : n ≤ m) : Below n A A'' :=
  fun id hid => (h₁ id hid).trans (h₂ id (Nat.lt_of_lt_of_le hid hle))

@[simp] theorem typeOf?_withType (A : Annotations) (id other : NodeId) (τ : Ty) :
    (A.withType id τ).typeOf? other = if id = other then some τ else A.typeOf? other :=
  NodeMap.get?_insert _ _ _ _

@[simp] theorem referentOf?_withType (A : Annotations) (id other : NodeId) (τ : Ty) :
    (A.withType id τ).referentOf? other = A.referentOf? other := rfl

@[simp] theorem typeOf?_withReferent (A : Annotations) (id other : NodeId) (referent : Referent) :
    (A.withReferent id referent).typeOf? other = A.typeOf? other := rfl

@[simp] theorem referentOf?_withReferent (A : Annotations) (id other : NodeId)
    (referent : Referent) :
    (A.withReferent id referent).referentOf? other =
      if id = other then some referent else A.referentOf? other :=
  NodeMap.get?_insert _ _ _ _

theorem below_withType (A : Annotations) (τ : Ty) (h : n ≤ id) : Below n A (A.withType id τ) := by
  intro other hother
  refine ⟨?_, rfl⟩
  rw [typeOf?_withType, if_neg (Nat.ne_of_gt (Nat.lt_of_lt_of_le hother h))]

theorem below_withReferent (A : Annotations) (referent : Referent) (h : n ≤ id) :
    Below n A (A.withReferent id referent) := by
  intro other hother
  refine ⟨rfl, ?_⟩
  rw [referentOf?_withReferent, if_neg (Nat.ne_of_gt (Nat.lt_of_lt_of_le hother h))]

end Annotations

/-! ## The relation -/

/-- An expression is the literal for a constant. -/
def Constant.Literal (A : Annotations) : Constant → Expression → Prop
  | .int value, e =>
    ∃ m terminal, e = .integer m ⟨terminal, toString value⟩ ∧ A.typeOf? m.id = some .int
  | .bool value, e =>
    ∃ m vname name, e = .vname m (.simple vname name) ∧ A.typeOf? m.id = some .bool ∧
      A.typeOf? vname.id = some .bool ∧
      A.referentOf? name.mark.id = some (.standard (Fold.truth value))

mutual

/-- What folding makes of a command. -/
def Command.Folds (A A' : Annotations) : Command → Command → Prop
  | .assign m target value => fun c =>
    ∃ target' value', target.Folds A A' target' ∧ value.Folds A A' value' ∧
      c = .assign m target' value'
  | .doubleAssign m first second firstValue secondValue => fun c =>
    ∃ first' second' firstValue' secondValue', first.Folds A A' first' ∧ second.Folds A A' second' ∧
      firstValue.Folds A A' firstValue' ∧ secondValue.Folds A A' secondValue' ∧
      c = .doubleAssign m first' second' firstValue' secondValue'
  | .call m name arguments => fun c =>
    A.Same A' name.mark.id ∧
    ∃ arguments', arguments.Folds A A' arguments' ∧ c = .call m name arguments'
  | .empty m => fun c => c = .empty m
  | .ifElse m condition first second => fun c =>
    ∃ condition' first' second', condition.Folds A A' condition' ∧ first.Folds A A' first' ∧
      second.Folds A A' second' ∧ c = .ifElse m condition' first' second'
  | .letIn m declaration body => fun c =>
    ∃ declaration' body', declaration.Folds A A' declaration' ∧ body.Folds A A' body' ∧
      c = .letIn m declaration' body'
  | .sequential m first second => fun c =>
    ∃ first' second', first.Folds A A' first' ∧ second.Folds A A' second' ∧
      c = .sequential m first' second'
  | .whileDo m condition body => fun c =>
    ∃ condition' body', condition.Folds A A' condition' ∧ body.Folds A A' body' ∧
      c = .whileDo m condition' body'
  | .loopWhile m prelude condition body => fun c =>
    ∃ prelude' condition' body', prelude.Folds A A' prelude' ∧ condition.Folds A A' condition' ∧
      body.Folds A A' body' ∧ c = .loopWhile m prelude' condition' body'

/-- What folding makes of an expression. -/
def Expression.Folds (A A' : Annotations) : Expression → Expression → Prop
  | .array m elements => fun e =>
    A.Same A' m.id ∧ ∃ elements', elements.Folds A A' elements' ∧ e = .array m elements'
  | .binary m left operator right => fun e =>
    A.Same A' m.id ∧ A.Same A' operator.mark.id ∧
    ∃ left' right', left.Folds A A' left' ∧ right.Folds A A' right' ∧
      (e = .binary m left' operator right' ∧
          (∀ constant, A'.foldBinary operator left' right' ≠ .value constant) ∨
        ∃ constant, A'.foldBinary operator left' right' = .value constant ∧ constant.Literal A' e)
  | .call m name arguments => fun e =>
    A.Same A' m.id ∧ A.Same A' name.mark.id ∧
    ∃ arguments', arguments.Folds A A' arguments' ∧ e = .call m name arguments'
  | .character m literal => fun e => A.Same A' m.id ∧ e = .character m literal
  | .empty m => fun e => e = .empty m
  | .ifElse m condition first second => fun e =>
    A.Same A' m.id ∧
    ∃ condition' first' second', condition.Folds A A' condition' ∧ first.Folds A A' first' ∧
      second.Folds A A' second' ∧ e = .ifElse m condition' first' second'
  | .integer m literal => fun e => A.Same A' m.id ∧ e = .integer m literal
  | .letIn m declaration body => fun e =>
    A.Same A' m.id ∧
    ∃ declaration' body', declaration.Folds A A' declaration' ∧ body.Folds A A' body' ∧
      e = .letIn m declaration' body'
  | .record m fields => fun e =>
    A.Same A' m.id ∧ ∃ fields', fields.Folds A A' fields' ∧ e = .record m fields'
  | .unary m operator operand => fun e =>
    A.Same A' m.id ∧ A.Same A' operator.mark.id ∧
    ∃ operand', operand.Folds A A' operand' ∧
      (e = .unary m operator operand' ∧
          (∀ constant, A'.foldUnary operator operand' ≠ .value constant) ∨
        ∃ constant, A'.foldUnary operator operand' = .value constant ∧ constant.Literal A' e)
  | .vname m vname => fun e =>
    A.Same A' m.id ∧ ∃ vname', vname.Folds A A' vname' ∧ e = .vname m vname'

/-- What folding makes of a declaration. -/
def Declaration.Folds (A A' : Annotations) : Declaration → Declaration → Prop
  | .binaryOperator m operator left right result => fun d =>
    d = .binaryOperator m operator left right result
  | .const m name value => fun d =>
    A.Same A' m.id ∧ ∃ value', value.Folds A A' value' ∧ d = .const m name value'
  | .func m name parameters result body => fun d =>
    A.Same A' m.id ∧ A.Agree A' parameters.ids ∧ A.Agree A' result.ids ∧
    ∃ body', body.Folds A A' body' ∧ d = .func m name parameters result body'
  | .proc m name parameters body => fun d =>
    A.Agree A' parameters.ids ∧
    ∃ body', body.Folds A A' body' ∧ d = .proc m name parameters body'
  | .sequential m first second => fun d =>
    ∃ first' second', first.Folds A A' first' ∧ second.Folds A A' second' ∧
      d = .sequential m first' second'
  | .type m name of => fun d => A.Same A' m.id ∧ A.Agree A' of.ids ∧ d = .type m name of
  | .unaryOperator m operator operand result => fun d =>
      d = .unaryOperator m operator operand result
  | .var m name of => fun d => A.Same A' m.id ∧ A.Agree A' of.ids ∧ d = .var m name of

/-- What folding makes of a V-name. -/
def Vname.Folds (A A' : Annotations) : Vname → Vname → Prop
  | .dot m record field => fun v =>
    A.Same A' m.id ∧ ∃ record', record.Folds A A' record' ∧ v = .dot m record' field
  | .simple m name => fun v => A.Same A' m.id ∧ A.Same A' name.mark.id ∧ v = .simple m name
  | .subscript m array index => fun v =>
    A.Same A' m.id ∧
    ∃ array' index', array.Folds A A' array' ∧ index.Folds A A' index' ∧
      v = .subscript m array' index'

/-- What folding makes of an actual parameter. -/
def Argument.Folds (A A' : Annotations) : Argument → Argument → Prop
  | .const m value => fun a => ∃ value', value.Folds A A' value' ∧ a = .const m value'
  | .func m name => fun a => A.Same A' name.mark.id ∧ a = .func m name
  | .proc m name => fun a => A.Same A' name.mark.id ∧ a = .proc m name
  | .var m vname => fun a => ∃ vname', vname.Folds A A' vname' ∧ a = .var m vname'

/-- What folding makes of actual parameters. -/
def Arguments.Folds (A A' : Annotations) : Arguments → Arguments → Prop
  | .empty m => fun a => a = .empty m
  | .single m argument => fun a => ∃ argument', argument.Folds A A' argument' ∧
      a = .single m argument'
  | .multiple m first rest => fun a =>
    ∃ first' rest', first.Folds A A' first' ∧ rest.Folds A A' rest' ∧
      a = .multiple m first' rest'

/-- What folding makes of the elements of an array. -/
def ArrayAggregate.Folds (A A' : Annotations) : ArrayAggregate → ArrayAggregate → Prop
  | .single m element => fun a => ∃ element', element.Folds A A' element' ∧ a = .single m element'
  | .multiple m first rest => fun a =>
    ∃ first' rest', first.Folds A A' first' ∧ rest.Folds A A' rest' ∧
      a = .multiple m first' rest'

/-- What folding makes of the fields of a record. -/
def RecordAggregate.Folds (A A' : Annotations) : RecordAggregate → RecordAggregate → Prop
  | .single m field value => fun r => ∃ value', value.Folds A A' value' ∧ r = .single m field value'
  | .multiple m field value rest => fun r =>
    ∃ value' rest', value.Folds A A' value' ∧ rest.Folds A A' rest' ∧
      r = .multiple m field value' rest'

end

/-! ## Runs of folding

States only grow: identities are handed out upwards, and what was filed for older nodes stays. -/

/-- Identities are handed out in order, and what is known of those handed out before stays. -/
structure FoldState.Le (s t : FoldState) : Prop where
  issued : s.issued ≤ t.issued
  annotations : Annotations.Below s.issued s.annotations t.annotations

theorem FoldState.Le.refl (s : FoldState) : s.Le s :=
  ⟨Nat.le_refl _, fun id _ => .refl _ id⟩

theorem FoldState.Le.trans {s t u : FoldState} (h₁ : s.Le t) (h₂ : t.Le u) : s.Le u :=
  ⟨Nat.le_trans h₁.issued h₂.issued, h₁.annotations.trans h₂.annotations h₁.issued⟩

variable {α β : Type}

/-- A run of folding, on a tree whose identities are below `n`, gives a result that is right for all
annotations that folding may end with. -/
def Fold.Makes (n : Nat) (A : Annotations) (x : Fold α) (R : Annotations → α → Prop) : Prop :=
  ∀ s : FoldState, n ≤ s.issued → s.Le (x.run s).2 ∧
    ∀ A', Annotations.Below n A A' →
      Annotations.Below (x.run s).2.issued (x.run s).2.annotations A' → R A' (x.run s).1

namespace Fold.Makes

variable {n : Nat} {A : Annotations}

theorem pure (a : α) : Makes n A (pure a) fun _ b => b = a :=
  fun s _ => ⟨.refl s, fun _ _ _ => rfl⟩

theorem bind {x : Fold α} {f : α → Fold β} {R : Annotations → α → Prop}
    {Q : α → Annotations → β → Prop} (hx : Makes n A x R) (hf : ∀ a, Makes n A (f a) (Q a)) :
    Makes n A (x >>= f) fun A' b => ∃ a, R A' a ∧ Q a A' b := by
  intro s hs
  obtain ⟨hle, hR⟩ := hx s hs
  obtain ⟨hle', hQ⟩ := hf (x.run s).1 (x.run s).2 (Nat.le_trans hs hle.issued)
  refine ⟨hle.trans hle', fun A' hA' hend => ⟨(x.run s).1, hR A' hA' ?_, hQ A' hA' hend⟩⟩
  exact hle'.annotations.trans hend hle'.issued

theorem imp {x : Fold α} {R Q : Annotations → α → Prop} (hx : Makes n A x R)
    (h : ∀ A' a, Annotations.Below n A A' → R A' a → Q A' a) : Makes n A x Q := by
  intro s hs
  obtain ⟨hle, hR⟩ := hx s hs
  exact ⟨hle, fun A' hA' hend => h A' _ hA' (hR A' hA' hend)⟩

end Fold.Makes

/-! ## Literals -/

/-- The literal for a constant, made of new nodes. -/
theorem Fold.literal_makes (n : Nat) (A : Annotations) (span : Span) (constant : Constant) :
    Fold.Makes n A (Fold.literal span constant) fun A' e => constant.Literal A' e := by
  intro s hs
  cases constant with
  | int value =>
    refine ⟨⟨?_, ?_⟩, fun A' _ hend => ?_⟩
    · exact Nat.le_add_right s.issued 2
    · exact Annotations.below_withType _ _ (Nat.le_refl _)
    · refine ⟨⟨s.issued, span⟩, ⟨s.issued + 1, span⟩, rfl, ?_⟩
      rw [(hend s.issued (Nat.lt_add_of_pos_right (n := s.issued) Nat.two_pos)).type]
      exact (Annotations.typeOf?_withType _ _ _ _).trans (if_pos rfl)
  | bool value =>
    -- The three nodes are the expression, the name and the V-name, in this order.
    let known := ((s.annotations.withType s.issued .bool).withReferent (s.issued + 1)
      (.standard (Fold.truth value))).withType (s.issued + 2) .bool
    have hknown : Annotations.Below s.issued s.annotations known :=
      ((Annotations.below_withType _ _ (Nat.le_refl _)).trans
        (Annotations.below_withReferent _ _ (Nat.le_add_right _ 1)) (Nat.le_refl _)).trans
        (Annotations.below_withType _ _ (Nat.le_add_right _ 2)) (Nat.le_refl _)
    refine ⟨⟨Nat.le_add_right s.issued 3, hknown⟩, fun A' _ hend => ?_⟩
    have hend : Annotations.Below (s.issued + 3) known A' := hend
    refine ⟨⟨s.issued, span⟩, ⟨s.issued + 2, span⟩, ⟨⟨s.issued + 1, span⟩, _⟩, rfl, ?_, ?_, ?_⟩
    · rw [(hend s.issued (by omega)).type]
      simp [known]
    · rw [(hend (s.issued + 2) (by omega)).type]
      simp [known]
    · rw [(hend (s.issued + 1) (by omega)).referent]
      exact (Annotations.referentOf?_withType _ _ _ _).trans
        ((Annotations.referentOf?_withReferent _ _ _ _).trans (if_pos rfl))

/-- An expression stays, or becomes the literal for its outcome. -/
theorem Fold.replace_makes (n : Nat) (A : Annotations) (e : Expression) (operator : Terminal)
    (outcome : Constant.Outcome) :
    Fold.Makes n A (Fold.replace e operator outcome) fun A' e' =>
      e' = e ∧ (∀ constant, outcome ≠ .value constant) ∨
        ∃ constant, outcome = .value constant ∧ constant.Literal A' e' := by
  cases outcome with
  | value constant =>
    exact (Fold.literal_makes n A _ constant).imp fun A' e' _ h => .inr ⟨constant, rfl, h⟩
  | byZero operation =>
    exact fun s _ => ⟨⟨Nat.le_refl _, fun id _ => .refl _ id⟩,
      fun _ _ _ => .inl ⟨rfl, fun _ h => nomatch h⟩⟩
  | unknown => exact (Fold.Makes.pure e).imp fun _ _ _ h => .inl ⟨h, fun _ h => nomatch h⟩

/-- What a literal stands for does not depend on what else is known. -/
theorem Constant.Literal.constant?_eq {constant : Constant} {e : Expression} {A' : Annotations}
    (h : constant.Literal A e) (h' : constant.Literal A' e) : e.constant? A' = e.constant? A := by
  cases constant with
  | int value =>
    obtain ⟨_, _, rfl, -⟩ := h
    rfl
  | bool value =>
    obtain ⟨_, _, _, rfl, -, -, hname⟩ := h
    obtain ⟨_, _, _, heq, -, -, hname'⟩ := h'
    cases heq
    simp only [Expression.constant?, Annotations.standardOf?, hname, hname']

theorem Fold.replace_stable (e : Expression) (operator : Terminal) (outcome : Constant.Outcome)
    (s : FoldState) (he : ∀ A A', e.constant? A = e.constant? A')
    (hA : Annotations.Below ((Fold.replace e operator outcome).run s).2.issued
      ((Fold.replace e operator outcome).run s).2.annotations A) :
    ((Fold.replace e operator outcome).run s).1.constant? A =
      ((Fold.replace e operator outcome).run s).1.constant?
        ((Fold.replace e operator outcome).run s).2.annotations := by
  cases outcome with
  | value constant =>
    obtain ⟨-, hliteral⟩ := Fold.literal_makes 0 A e.mark.span constant s (Nat.zero_le _)
    exact (hliteral _ (fun _ h => nomatch h) fun id _ => .refl _ id).constant?_eq
      (hliteral A (fun _ h => nomatch h) hA)
  | byZero operation => exact he _ _
  | unknown => exact he _ _

/-- The constant that a folded expression is stays the same from the end of folding it on. -/
theorem Expression.fold_stable (e : Expression) (s : FoldState) (he : ∀ id ∈ e.ids, id < s.issued)
    (hA : Annotations.Below (e.fold.run s).2.issued (e.fold.run s).2.annotations A) :
    (e.fold.run s).1.constant? A = (e.fold.run s).1.constant? (e.fold.run s).2.annotations := by
  cases e with
  | vname m vname =>
    cases vname with
    | simple mv name =>
      have hsame := (hA name.mark.id (he _ (by simp [Expression.ids, Vname.ids]))).referent
      have hstandard : A.standardOf? name = s.annotations.standardOf? name := by
        rw [Annotations.standardOf?, hsame]
        rfl
      change (Expression.vname m (.simple mv name)).constant? A =
        (Expression.vname m (.simple mv name)).constant? s.annotations
      rw [Expression.constant?, Expression.constant?, hstandard]
    | _ => rfl
  | binary m left operator right => exact Fold.replace_stable _ _ _ _ (fun _ _ => rfl) hA
  | unary m operator operand => exact Fold.replace_stable _ _ _ _ (fun _ _ => rfl) hA
  | _ => rfl

/-! ## Phrases -/

section

variable {n : Nat} {A : Annotations}

/-- Folding an operation on two operands. -/
theorem Expression.makes_binary {m : Mark} {left right : Expression}
    (hids : ∀ id ∈ (Expression.binary m left operator right).ids, id < n)
    (hleft : Fold.Makes n A left.fold fun A' e => left.Folds A A' e)
    (hright : Fold.Makes n A right.fold fun A' e => right.Folds A A' e) :
    Fold.Makes n A (Expression.binary m left operator right).fold fun A' e =>
      (Expression.binary m left operator right).Folds A A' e := by
  intro s hs
  let t := (left.fold.run s).2
  let u := (right.fold.run t).2
  obtain ⟨hle₁, hleft⟩ := hleft s hs
  obtain ⟨hle₂, hright⟩ := hright t (Nat.le_trans hs hle₁.issued)
  have hn : n ≤ u.issued := Nat.le_trans hs (Nat.le_trans hle₁.issued hle₂.issued)
  obtain ⟨hle₃, hreplace⟩ := Fold.replace_makes n A
    (.binary m (left.fold.run s).1 operator (right.fold.run t).1) operator
    (u.annotations.foldBinary operator (left.fold.run s).1 (right.fold.run t).1) u hn
  refine ⟨(hle₁.trans hle₂).trans hle₃, fun A' hA' hend => ?_⟩
  have hend₂ : Annotations.Below u.issued u.annotations A' :=
    hle₃.annotations.trans hend hle₃.issued
  have hend₁ : Annotations.Below t.issued t.annotations A' :=
    hle₂.annotations.trans hend₂ hle₂.issued
  refine ⟨hA' _ (hids _ (by simp [Expression.ids])), hA' _ (hids _ (by simp [Expression.ids])),
    _, _, hleft A' hA' hend₁, hright A' hA' hend₂, ?_⟩
  have hstandard : A'.standardOf? operator = u.annotations.standardOf? operator := by
    have hlt := Nat.lt_of_lt_of_le (hids operator.mark.id (by simp [Expression.ids])) hn
    simp only [Annotations.standardOf?, (hend₂ _ hlt).referent]
  have hleft' := (left.fold_stable s (fun id hid => Nat.lt_of_lt_of_le
    (hids id (by simp [Expression.ids, hid])) hs) hend₁).trans
    (left.fold_stable s (fun id hid => Nat.lt_of_lt_of_le
      (hids id (by simp [Expression.ids, hid])) hs) hle₂.annotations).symm
  have hright' := right.fold_stable t (fun id hid => Nat.lt_of_lt_of_le
    (hids id (by simp [Expression.ids, hid])) (Nat.le_trans hs hle₁.issued)) hend₂
  -- what becomes of the operation is not affected by what is found out later
  have houtcome : A'.foldBinary operator (left.fold.run s).1 (right.fold.run t).1 =
      u.annotations.foldBinary operator (left.fold.run s).1 (right.fold.run t).1 := by
    simp only [Annotations.foldBinary, hstandard]
    rw [hleft', hright']
  rw [houtcome]
  exact hreplace A' hA' hend

/-- Folding an operation on one operand. -/
theorem Expression.makes_unary {m : Mark} {operand : Expression}
    (hids : ∀ id ∈ (Expression.unary m operator operand).ids, id < n)
    (hoperand : Fold.Makes n A operand.fold fun A' e => operand.Folds A A' e) :
    Fold.Makes n A (Expression.unary m operator operand).fold fun A' e =>
      (Expression.unary m operator operand).Folds A A' e := by
  intro s hs
  let t := (operand.fold.run s).2
  obtain ⟨hle₁, hoperand⟩ := hoperand s hs
  have hn : n ≤ t.issued := Nat.le_trans hs hle₁.issued
  obtain ⟨hle₂, hreplace⟩ := Fold.replace_makes n A (.unary m operator (operand.fold.run s).1)
    operator (t.annotations.foldUnary operator (operand.fold.run s).1) t hn
  refine ⟨hle₁.trans hle₂, fun A' hA' hend => ?_⟩
  have hend₁ : Annotations.Below t.issued t.annotations A' :=
    hle₂.annotations.trans hend hle₂.issued
  refine ⟨hA' _ (hids _ (by simp [Expression.ids])), hA' _ (hids _ (by simp [Expression.ids])), _,
    hoperand A' hA' hend₁, ?_⟩
  have hstandard : A'.standardOf? operator = t.annotations.standardOf? operator := by
    have hlt := Nat.lt_of_lt_of_le (hids operator.mark.id (by simp [Expression.ids])) hn
    simp only [Annotations.standardOf?, (hend₁ _ hlt).referent]
  have hoperand' := operand.fold_stable s (fun id hid => Nat.lt_of_lt_of_le
    (hids id (by simp [Expression.ids, hid])) hs) hend₁
  have houtcome : A'.foldUnary operator (operand.fold.run s).1 =
      t.annotations.foldUnary operator (operand.fold.run s).1 := by
    simp only [Annotations.foldUnary, hstandard]
    rw [hoperand']
  rw [houtcome]
  exact hreplace A' hA' hend

mutual

theorem Command.fold_makes : (c : Command) → (∀ id ∈ c.ids, id < n) →
    Fold.Makes n A c.fold fun A' c' => c.Folds A A' c'
  | .assign _ target value, hids =>
    ((target.fold_makes fun id hid => hids id (by simp [Command.ids, hid])).bind fun _ =>
      (value.fold_makes fun id hid => hids id (by simp [Command.ids, hid])).bind fun _ =>
      .pure _).imp fun _ _ _ ⟨_, h₁, _, h₂, h⟩ => ⟨_, _, h₁, h₂, h⟩
  | .doubleAssign _ first second firstValue secondValue, hids =>
    ((first.fold_makes fun id hid => hids id (by simp [Command.ids, hid])).bind fun _ =>
      (second.fold_makes fun id hid => hids id (by simp [Command.ids, hid])).bind fun _ =>
      (firstValue.fold_makes fun id hid => hids id (by simp [Command.ids, hid])).bind fun _ =>
      (secondValue.fold_makes fun id hid => hids id (by simp [Command.ids, hid])).bind fun _ =>
      .pure _).imp fun _ _ _ ⟨_, h₁, _, h₂, _, h₃, _, h₄, h⟩ => ⟨_, _, _, _, h₁, h₂, h₃, h₄, h⟩
  | .call _ name arguments, hids =>
    ((arguments.fold_makes fun id hid => hids id (by simp [Command.ids, hid])).bind fun _ =>
      .pure _).imp fun _ _ hA ⟨_, h₁, h⟩ =>
        ⟨hA _ (hids name.mark.id (by simp [Command.ids])), _, h₁, h⟩
  | .empty _, _ => (Fold.Makes.pure _).imp fun _ _ _ h => h
  | .ifElse _ condition first second, hids =>
    ((condition.fold_makes fun id hid => hids id (by simp [Command.ids, hid])).bind fun _ =>
      (first.fold_makes fun id hid => hids id (by simp [Command.ids, hid])).bind fun _ =>
      (second.fold_makes fun id hid => hids id (by simp [Command.ids, hid])).bind fun _ =>
      .pure _).imp fun _ _ _ ⟨_, h₁, _, h₂, _, h₃, h⟩ => ⟨_, _, _, h₁, h₂, h₃, h⟩
  | .letIn _ declaration body, hids =>
    ((declaration.fold_makes fun id hid => hids id (by simp [Command.ids, hid])).bind fun _ =>
      (body.fold_makes fun id hid => hids id (by simp [Command.ids, hid])).bind fun _ =>
      .pure _).imp fun _ _ _ ⟨_, h₁, _, h₂, h⟩ => ⟨_, _, h₁, h₂, h⟩
  | .sequential _ first second, hids =>
    ((first.fold_makes fun id hid => hids id (by simp [Command.ids, hid])).bind fun _ =>
      (second.fold_makes fun id hid => hids id (by simp [Command.ids, hid])).bind fun _ =>
      .pure _).imp fun _ _ _ ⟨_, h₁, _, h₂, h⟩ => ⟨_, _, h₁, h₂, h⟩
  | .whileDo _ condition body, hids =>
    ((condition.fold_makes fun id hid => hids id (by simp [Command.ids, hid])).bind fun _ =>
      (body.fold_makes fun id hid => hids id (by simp [Command.ids, hid])).bind fun _ =>
      .pure _).imp fun _ _ _ ⟨_, h₁, _, h₂, h⟩ => ⟨_, _, h₁, h₂, h⟩
  | .loopWhile _ prelude condition body, hids =>
    ((prelude.fold_makes fun id hid => hids id (by simp [Command.ids, hid])).bind fun _ =>
      (condition.fold_makes fun id hid => hids id (by simp [Command.ids, hid])).bind fun _ =>
      (body.fold_makes fun id hid => hids id (by simp [Command.ids, hid])).bind fun _ =>
      .pure _).imp fun _ _ _ ⟨_, h₁, _, h₂, _, h₃, h⟩ => ⟨_, _, _, h₁, h₂, h₃, h⟩

theorem Expression.fold_makes : (e : Expression) → (∀ id ∈ e.ids, id < n) →
    Fold.Makes n A e.fold fun A' e' => e.Folds A A' e'
  | .array m elements, hids =>
    ((elements.fold_makes fun id hid => hids id (by simp [Expression.ids, hid])).bind fun _ =>
      .pure _).imp fun _ _ hA ⟨_, h₁, h⟩ => ⟨hA _ (hids m.id (by simp [Expression.ids])), _, h₁, h⟩
  | .binary _ left _ right, hids =>
    Expression.makes_binary hids
      (left.fold_makes fun id hid => hids id (by simp [Expression.ids, hid]))
      (right.fold_makes fun id hid => hids id (by simp [Expression.ids, hid]))
  | .call m name arguments, hids =>
    ((arguments.fold_makes fun id hid => hids id (by simp [Expression.ids, hid])).bind fun _ =>
      .pure _).imp fun _ _ hA ⟨_, h₁, h⟩ =>
        ⟨hA _ (hids m.id (by simp [Expression.ids])),
          hA _ (hids name.mark.id (by simp [Expression.ids])), _, h₁, h⟩
  | .character m _, hids | .integer m _, hids =>
    (Fold.Makes.pure _).imp fun _ _ hA h => ⟨hA _ (hids m.id (by simp [Expression.ids])), h⟩
  | .empty _, _ => (Fold.Makes.pure _).imp fun _ _ _ h => h
  | .ifElse m condition first second, hids =>
    ((condition.fold_makes fun id hid => hids id (by simp [Expression.ids, hid])).bind fun _ =>
      (first.fold_makes fun id hid => hids id (by simp [Expression.ids, hid])).bind fun _ =>
      (second.fold_makes fun id hid => hids id (by simp [Expression.ids, hid])).bind fun _ =>
      .pure _).imp fun _ _ hA ⟨_, h₁, _, h₂, _, h₃, h⟩ =>
        ⟨hA _ (hids m.id (by simp [Expression.ids])), _, _, _, h₁, h₂, h₃, h⟩
  | .letIn m declaration body, hids =>
    ((declaration.fold_makes fun id hid => hids id (by simp [Expression.ids, hid])).bind fun _ =>
      (body.fold_makes fun id hid => hids id (by simp [Expression.ids, hid])).bind fun _ =>
      .pure _).imp fun _ _ hA ⟨_, h₁, _, h₂, h⟩ =>
        ⟨hA _ (hids m.id (by simp [Expression.ids])), _, _, h₁, h₂, h⟩
  | .record m fields, hids =>
    ((fields.fold_makes fun id hid => hids id (by simp [Expression.ids, hid])).bind fun _ =>
      .pure _).imp fun _ _ hA ⟨_, h₁, h⟩ => ⟨hA _ (hids m.id (by simp [Expression.ids])), _, h₁, h⟩
  | .unary _ _ operand, hids =>
    Expression.makes_unary hids
      (operand.fold_makes fun id hid => hids id (by simp [Expression.ids, hid]))
  | .vname m vname, hids =>
    ((vname.fold_makes fun id hid => hids id (by simp [Expression.ids, hid])).bind fun _ =>
      .pure _).imp fun _ _ hA ⟨_, h₁, h⟩ => ⟨hA _ (hids m.id (by simp [Expression.ids])), _, h₁, h⟩

theorem Declaration.fold_makes : (d : Declaration) → (∀ id ∈ d.ids, id < n) →
    Fold.Makes n A d.fold fun A' d' => d.Folds A A' d'
  | .binaryOperator _ _ _ _ _, _ | .unaryOperator _ _ _ _, _ =>
    (Fold.Makes.pure _).imp fun _ _ _ h => h
  | .const m _ value, hids =>
    ((value.fold_makes fun id hid => hids id (by simp [Declaration.ids, hid])).bind fun _ =>
      .pure _).imp fun _ _ hA ⟨_, h₁, h⟩ => ⟨hA _ (hids m.id (by simp [Declaration.ids])), _, h₁, h⟩
  | .func m _ parameters result body, hids =>
    ((body.fold_makes fun id hid => hids id (by simp [Declaration.ids, hid])).bind fun _ =>
      .pure _).imp fun _ _ hA ⟨_, h₁, h⟩ => ⟨hA _ (hids m.id (by simp [Declaration.ids])),
        fun id hid => hA _ (hids id (by simp [Declaration.ids, hid])),
        fun id hid => hA _ (hids id (by simp [Declaration.ids, hid])), _, h₁, h⟩
  | .proc _ _ parameters body, hids =>
    ((body.fold_makes fun id hid => hids id (by simp [Declaration.ids, hid])).bind fun _ =>
      .pure _).imp fun _ _ hA ⟨_, h₁, h⟩ =>
        ⟨fun id hid => hA _ (hids id (by simp [Declaration.ids, hid])), _, h₁, h⟩
  | .sequential _ first second, hids =>
    ((first.fold_makes fun id hid => hids id (by simp [Declaration.ids, hid])).bind fun _ =>
      (second.fold_makes fun id hid => hids id (by simp [Declaration.ids, hid])).bind fun _ =>
      .pure _).imp fun _ _ _ ⟨_, h₁, _, h₂, h⟩ => ⟨_, _, h₁, h₂, h⟩
  | .type m _ of, hids | .var m _ of, hids =>
    (Fold.Makes.pure _).imp fun _ _ hA h => ⟨hA _ (hids m.id (by simp [Declaration.ids])),
      fun id hid => hA _ (hids id (by simp [Declaration.ids, hid])), h⟩

theorem Vname.fold_makes : (v : Vname) → (∀ id ∈ v.ids, id < n) →
    Fold.Makes n A v.fold fun A' v' => v.Folds A A' v'
  | .dot m record _, hids =>
    ((record.fold_makes fun id hid => hids id (by simp [Vname.ids, hid])).bind fun _ =>
      .pure _).imp fun _ _ hA ⟨_, h₁, h⟩ => ⟨hA _ (hids m.id (by simp [Vname.ids])), _, h₁, h⟩
  | .simple m name, hids =>
    (Fold.Makes.pure _).imp fun _ _ hA h => ⟨hA _ (hids m.id (by simp [Vname.ids])),
      hA _ (hids name.mark.id (by simp [Vname.ids])), h⟩
  | .subscript m array index, hids =>
    ((array.fold_makes fun id hid => hids id (by simp [Vname.ids, hid])).bind fun _ =>
      (index.fold_makes fun id hid => hids id (by simp [Vname.ids, hid])).bind fun _ =>
      .pure _).imp fun _ _ hA ⟨_, h₁, _, h₂, h⟩ =>
        ⟨hA _ (hids m.id (by simp [Vname.ids])), _, _, h₁, h₂, h⟩

theorem Argument.fold_makes : (a : Argument) → (∀ id ∈ a.ids, id < n) →
    Fold.Makes n A a.fold fun A' a' => a.Folds A A' a'
  | .const _ value, hids =>
    ((value.fold_makes fun id hid => hids id (by simp [Argument.ids, hid])).bind fun _ =>
      .pure _).imp fun _ _ _ ⟨_, h₁, h⟩ => ⟨_, h₁, h⟩
  | .func _ name, hids | .proc _ name, hids =>
    (Fold.Makes.pure _).imp fun _ _ hA h => ⟨hA _ (hids name.mark.id (by simp [Argument.ids])), h⟩
  | .var _ vname, hids =>
    ((vname.fold_makes fun id hid => hids id (by simp [Argument.ids, hid])).bind fun _ =>
      .pure _).imp fun _ _ _ ⟨_, h₁, h⟩ => ⟨_, h₁, h⟩

theorem Arguments.fold_makes : (a : Arguments) → (∀ id ∈ a.ids, id < n) →
    Fold.Makes n A a.fold fun A' a' => a.Folds A A' a'
  | .empty _, _ => (Fold.Makes.pure _).imp fun _ _ _ h => h
  | .single _ argument, hids =>
    ((argument.fold_makes fun id hid => hids id (by simp [Arguments.ids, hid])).bind fun _ =>
      .pure _).imp fun _ _ _ ⟨_, h₁, h⟩ => ⟨_, h₁, h⟩
  | .multiple _ first rest, hids =>
    ((first.fold_makes fun id hid => hids id (by simp [Arguments.ids, hid])).bind fun _ =>
      (rest.fold_makes fun id hid => hids id (by simp [Arguments.ids, hid])).bind fun _ =>
      .pure _).imp fun _ _ _ ⟨_, h₁, _, h₂, h⟩ => ⟨_, _, h₁, h₂, h⟩

theorem ArrayAggregate.fold_makes : (a : ArrayAggregate) → (∀ id ∈ a.ids, id < n) →
    Fold.Makes n A a.fold fun A' a' => a.Folds A A' a'
  | .single _ element, hids =>
    ((element.fold_makes fun id hid => hids id (by simp [ArrayAggregate.ids, hid])).bind fun _ =>
      .pure _).imp fun _ _ _ ⟨_, h₁, h⟩ => ⟨_, h₁, h⟩
  | .multiple _ first rest, hids =>
    ((first.fold_makes fun id hid => hids id (by simp [ArrayAggregate.ids, hid])).bind fun _ =>
      (rest.fold_makes fun id hid => hids id (by simp [ArrayAggregate.ids, hid])).bind fun _ =>
      .pure _).imp fun _ _ _ ⟨_, h₁, _, h₂, h⟩ => ⟨_, _, h₁, h₂, h⟩

theorem RecordAggregate.fold_makes : (r : RecordAggregate) → (∀ id ∈ r.ids, id < n) →
    Fold.Makes n A r.fold fun A' r' => r.Folds A A' r'
  | .single _ _ value, hids =>
    ((value.fold_makes fun id hid => hids id (by simp [RecordAggregate.ids, hid])).bind fun _ =>
      .pure _).imp fun _ _ _ ⟨_, h₁, h⟩ => ⟨_, h₁, h⟩
  | .multiple _ _ value rest, hids =>
    ((value.fold_makes fun id hid => hids id (by simp [RecordAggregate.ids, hid])).bind fun _ =>
      (rest.fold_makes fun id hid => hids id (by simp [RecordAggregate.ids, hid])).bind fun _ =>
      .pure _).imp fun _ _ _ ⟨_, h₁, _, h₂, h⟩ => ⟨_, _, h₁, h₂, h⟩

end

end

/-- A folded program is what folding makes of the program. -/
theorem Program.fold_folds (program : Program) (A : Annotations) (log : Log Problem)
    (hids : ∀ id ∈ program.command.ids, id < program.issued) :
    program.command.Folds A (program.fold A log).annotations
      (program.fold A log).program.command := by
  obtain ⟨hle, hfolds⟩ :=
    Command.fold_makes (A := A) program.command hids ⟨program.issued, A, log, {}⟩
    (Nat.le_refl _)
  exact hfolds _ hle.annotations fun id _ => .refl _ id

end Triangle
