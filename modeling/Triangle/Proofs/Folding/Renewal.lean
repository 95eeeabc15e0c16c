import Triangle.Proofs.Folding.Relation
import Triangle.Proofs.Syntax.Spots

/-!
# The nodes of a folded tree

Folding drops nodes and makes new ones.  A node of a folded tree is an old one, or it was handed out
while folding; no identity is used twice.  The new nodes are literals, so no declaration is new, a
name that is new refers to the standard declaration of its spelling, and a type that is filed is
that of a literal.  No declaration is moved or dropped, so that what is left has the surroundings it
had.

`FoldState.Renews` says this of a phrase and what becomes of it.  It goes along with putting phrases
together and with doing one thing after another, so that every phrase is one line.
-/

namespace Triangle

/-- How often an identity is handed out between two states. -/
def FoldState.handed (s t : FoldState) (id : Nat) : Nat :=
  if s.issued ≤ id ∧ id < t.issued then 1 else 0

theorem FoldState.handed_add {s t u : FoldState} (h₁ : s.issued ≤ t.issued)
    (h₂ : t.issued ≤ u.issued) (id : Nat) : s.handed t id + t.handed u id = s.handed u id := by
  simp only [FoldState.handed]
  split <;> split <;> split <;> omega

/-- A site of a literal that folding has made between two states. -/
def Site.New (s t : FoldState) : Site → Prop
  | .phrase _ => True
  | .use name => s.issued ≤ name.mark.id ∧ name.mark.id < t.issued ∧ ∃ declaration,
      t.annotations.referentOf? name.mark.id = some (.standard declaration) ∧
      declaration.spelling = name.spelling
  | .binder _ _ _ => False

theorem Site.New.mono {s s' t t' : FoldState} (hs : s'.issued ≤ s.issued) (h : t.Le t')
    {site : Site}
    (hsite : site.New s t) : site.New s' t' := by
  cases site with
  | phrase id => trivial
  | binder id name typed => exact hsite
  | use name =>
    obtain ⟨hle, hlt, declaration, hreferent, hspelling⟩ := hsite
    exact ⟨Nat.le_trans hs hle, Nat.lt_of_lt_of_le hlt h.issued, declaration,
      (h.annotations _ hlt).referent.trans hreferent, hspelling⟩

/-- From one state to another, a phrase is replaced; given are the identities and the spots it had
and those it has. -/
structure FoldState.Renews (s t : FoldState) (ids ids' : List NodeId) (spots spots' : List Spot) :
    Prop where
  le : s.Le t
  ids : ∀ id : Nat, ids'.count id ≤ ids.count id + s.handed t id
  spots : ∀ p ∈ spots', p ∈ spots ∨ p.site.New s t
  types : ∀ id τ, t.annotations.typeOf? id = some τ →
    s.annotations.typeOf? id = some τ ∨ τ = .int ∨ τ = .bool
  issued : t.issued + (2 * s.counts.integers + 3 * s.counts.booleans) =
    s.issued + (2 * t.counts.integers + 3 * t.counts.booleans)

namespace FoldState.Renews

variable {s t u : FoldState} {ids ids' ids'' more more' : List NodeId}
  {spots spots' spots'' moreSpots moreSpots' : List Spot}

theorem refl (s : FoldState) (ids : List NodeId) (spots : List Spot) :
    s.Renews s ids ids spots spots :=
  ⟨.refl s, fun _ => Nat.le_add_right _ _, fun _ => .inl, fun _ _ => .inl, rfl⟩

theorem later {n : Nat} (h : s.Renews t ids ids' spots spots') (hs : n ≤ s.issued) :
    n ≤ t.issued :=
  Nat.le_trans hs h.le.issued

/-- To replace twice is to replace: an identity is handed out at most once. -/
theorem trans (h₁ : s.Renews t ids ids' spots spots') (h₂ : t.Renews u ids' ids'' spots' spots'') :
    s.Renews u ids ids'' spots spots'' where
  le := h₁.le.trans h₂.le
  ids id := by
    have h := FoldState.handed_add h₁.le.issued h₂.le.issued id
    have h₁ := h₁.ids id
    have h₂ := h₂.ids id
    omega
  spots p hp := by
    obtain hp | hnew := h₂.spots p hp
    · exact (h₁.spots p hp).imp_right (·.mono (Nat.le_refl _) h₂.le)
    · exact .inr (hnew.mono h₁.le.issued (.refl u))
  types id τ hid := by
    obtain hid | hτ := h₂.types id τ hid
    · exact h₁.types id τ hid
    · exact .inr hτ
  issued := by
    have h₁ := h₁.issued
    have h₂ := h₂.issued
    omega

/-- Phrases side by side are replaced one after the other. -/
theorem append (h₁ : s.Renews t ids ids' spots spots')
    (h₂ : t.Renews u more more' moreSpots moreSpots') :
    s.Renews u (ids ++ more) (ids' ++ more') (spots ++ moreSpots) (spots' ++ moreSpots') where
  le := h₁.le.trans h₂.le
  ids id := by
    have h := FoldState.handed_add h₁.le.issued h₂.le.issued id
    have h₁ := h₁.ids id
    have h₂ := h₂.ids id
    rw [List.count_append, List.count_append]
    omega
  spots p hp := by
    obtain hp | hp := List.mem_append.1 hp
    · exact (h₁.spots p hp).imp (List.mem_append_left _) (·.mono (Nat.le_refl _) h₂.le)
    · exact (h₂.spots p hp).imp (List.mem_append_right _) (·.mono h₁.le.issued (.refl u))
  types id τ hid := by
    obtain hid | hτ := h₂.types id τ hid
    · exact h₁.types id τ hid
    · exact .inr hτ
  issued := by
    have h₁ := h₁.issued
    have h₂ := h₂.issued
    omega

/-- A node of its own that something is filed under. -/
theorem filed (h : s.Renews t ids ids' spots spots') (id : NodeId) (more : List Spot) :
    s.Renews t (ids ++ [id]) (ids' ++ [id]) (spots ++ more) (spots' ++ more) :=
  h.append (.refl t _ _)

/-- A node of its own that nothing is filed under. -/
theorem node (h : s.Renews t ids ids' spots spots') (id : NodeId) :
    s.Renews t (ids ++ [id]) (ids' ++ [id]) spots spots' := by
  simpa using h.append (.refl t [id] [])

/-- A terminal that nothing is filed under. -/
theorem terminal (h : s.Renews t ids ids' spots spots') (id : NodeId) :
    s.Renews t ([id] ++ ids) ([id] ++ ids') spots spots' := by
  simpa using (FoldState.Renews.refl s [id] []).append h

/-- A name or an operator that is used. -/
theorem use (h : s.Renews t ids ids' spots spots') (name : Terminal) (more : List Spot) :
    s.Renews t ([name.mark.id] ++ ids) ([name.mark.id] ++ ids') (more ++ spots) (more ++ spots') :=
  (FoldState.Renews.refl s _ _).append h

end FoldState.Renews

/-! ## Literals -/

variable (level : Nat) (ρ : Referents)

/-- A literal has only new identities: two for an integer, three for a truth value. -/
theorem Fold.literal_renews (span : Span) (constant : Constant) (s : FoldState)
    (ids : List NodeId) (spots : List Spot) :
    s.Renews ((Fold.literal span constant).run s).2 ids ((Fold.literal span constant).run s).1.ids
      spots (((Fold.literal span constant).run s).1.spots level ρ) := by
  have hle := (Fold.literal_makes 0 .empty span constant s (Nat.zero_le _)).1
  cases constant with
  | int value =>
    refine ⟨hle, fun id => ?_, ?_, fun id τ hid => ?_, ?_⟩
    · change [s.issued + 1, s.issued].count id ≤
        _ + if s.issued ≤ id ∧ id < s.issued + 2 then 1 else 0
      simp only [List.count_cons, List.count_nil, beq_iff_eq]
      split <;> split <;> split <;> omega
    · exact List.forall_mem_singleton.2 (.inr trivial)
    · change (s.annotations.withType s.issued .int).typeOf? id = some τ at hid
      rw [Annotations.typeOf?_withType] at hid
      split at hid
      · exact .inr (.inl (Option.some.inj hid).symm)
      · exact .inl hid
    · change s.issued + 2 + _ = s.issued + (2 * (s.counts.integers + 1) + 3 * s.counts.booleans)
      omega
  | bool value =>
    refine ⟨hle, fun id => ?_, ?_, fun id τ hid => ?_, ?_⟩
    · change [s.issued + 1, s.issued + 2, s.issued].count id ≤
        _ + if s.issued ≤ id ∧ id < s.issued + 3 then 1 else 0
      simp only [List.count_cons, List.count_nil, beq_iff_eq]
      split <;> split <;> split <;> split <;> omega
    · change ∀ p ∈ (_ ++ _ : List Spot), _
      refine List.forall_mem_append.2 ⟨List.forall_mem_append.2
        ⟨List.forall_mem_singleton.2 (.inr ⟨Nat.le_succ s.issued, ?_, _, ?_, rfl⟩), ?_⟩, ?_⟩
      · exact Nat.lt_add_of_pos_right (n := s.issued + 1) (k := 2) Nat.two_pos
      · exact (Annotations.referentOf?_withReferent _ _ _ _).trans (if_pos rfl)
      · exact List.forall_mem_singleton.2 (.inr trivial)
      · exact List.forall_mem_singleton.2 (.inr trivial)
    · change (((s.annotations.withType s.issued .bool).withReferent (s.issued + 1)
        (.standard (Fold.truth value))).withType (s.issued + 2) .bool).typeOf? id = some τ at hid
      rw [Annotations.typeOf?_withType, Annotations.typeOf?_withReferent,
        Annotations.typeOf?_withType] at hid
      split at hid
      · exact .inr (.inr (Option.some.inj hid).symm)
      · split at hid
        · exact .inr (.inr (Option.some.inj hid).symm)
        · exact .inl hid
    · change s.issued + 3 + _ = s.issued + (2 * s.counts.integers + 3 * (s.counts.booleans + 1))
      omega

theorem Fold.replace_renews (e : Expression) (operator : Terminal) (outcome : Constant.Outcome)
    (s : FoldState) :
    s.Renews ((Fold.replace e operator outcome).run s).2 e.ids
      ((Fold.replace e operator outcome).run s).1.ids (e.spots level ρ)
      (((Fold.replace e operator outcome).run s).1.spots level ρ) := by
  cases outcome with
  | value constant => exact Fold.literal_renews level ρ _ constant s _ _
  | byZero operation =>
    exact ⟨⟨Nat.le_refl _, fun id _ => .refl _ id⟩, fun _ => Nat.le_add_right _ _, fun _ => .inl,
      fun _ _ => .inl, rfl⟩
  | unknown => exact .refl s _ _

/-! ## Phrases -/

/-- Folding does not touch the names that a declaration introduces. -/
theorem Declaration.inScope_fold {ρ : Referents} : (d : Declaration) → (s : FoldState) →
    (d.fold.run s).1.inScope ρ = d.inScope ρ
  | .sequential _ first second, s => by
    show (second.fold.run _).1.inScope ((first.fold.run s).1.inScope ρ) = _
    rw [first.inScope_fold, second.inScope_fold]
    rfl
  | .binaryOperator _ _ _ _ _, _ | .const _ _ _, _ | .func _ _ _ _ _, _ | .proc _ _ _ _, _
  | .type _ _ _, _ | .unaryOperator _ _ _ _, _ | .var _ _ _, _ => rfl

mutual

theorem Command.fold_renews (level : Nat) (ρ : Referents) : (c : Command) → (s : FoldState) →
    s.Renews (c.fold.run s).2 c.ids (c.fold.run s).1.ids (c.spots level ρ)
      ((c.fold.run s).1.spots level ρ)
  | .assign m target value, s =>
    ((target.fold_renews level ρ s).append (value.fold_renews level ρ _)).node m.id
  | .doubleAssign m first second firstValue secondValue, s =>
    ((((first.fold_renews level ρ s).append (second.fold_renews level ρ _)).append
      (firstValue.fold_renews level ρ _)).append
      (secondValue.fold_renews level ρ _)).node m.id
  | .call m name arguments, s => ((arguments.fold_renews level ρ s).use name _).node m.id
  | .empty _, s => .refl s _ _
  | .ifElse m condition first second, s =>
    (((condition.fold_renews level ρ s).append (first.fold_renews level ρ _)).append
      (second.fold_renews level ρ _)).node m.id
  | .letIn m declaration body, s => by
    show s.Renews _ _ _ _ (_ ++ Command.spots level ((declaration.fold.run s).1.inScope _) _)
    rw [declaration.inScope_fold]
    exact ((declaration.fold_renews level _ s).append (body.fold_renews level _ _)).node m.id
  | .sequential m first second, s =>
    ((first.fold_renews level ρ s).append (second.fold_renews level ρ _)).node m.id
  | .whileDo m condition body, s =>
    ((condition.fold_renews level ρ s).append (body.fold_renews level ρ _)).node m.id
  | .loopWhile m prelude condition body, s =>
    (((prelude.fold_renews level ρ s).append (condition.fold_renews level ρ _)).append
      (body.fold_renews level ρ _)).node m.id

theorem Expression.fold_renews (level : Nat) (ρ : Referents) : (e : Expression) → (s : FoldState) →
    s.Renews (e.fold.run s).2 e.ids (e.fold.run s).1.ids (e.spots level ρ)
      ((e.fold.run s).1.spots level ρ)
  | .array m elements, s => (elements.fold_renews level ρ s).filed m.id _
  | .binary m left operator right, s =>
    ((((left.fold_renews level ρ s).append (.refl _ [operator.mark.id] _)).append
      (right.fold_renews level ρ _)).filed m.id _).trans
        (Fold.replace_renews level ρ _ operator _ _)
  | .call m name arguments, s => ((arguments.fold_renews level ρ s).use name _).filed m.id _
  | .character _ _, s | .integer _ _, s | .empty _, s => .refl s _ _
  | .ifElse m condition first second, s =>
    (((condition.fold_renews level ρ s).append (first.fold_renews level ρ _)).append
      (second.fold_renews level ρ _)).filed m.id _
  | .letIn m declaration body, s => by
    show s.Renews _ _ _ _ (_ ++
      Expression.spots level ((declaration.fold.run s).1.inScope _) _ ++ _)
    rw [declaration.inScope_fold]
    exact ((declaration.fold_renews level _ s).append (body.fold_renews level _ _)).filed m.id _
  | .record m fields, s => (fields.fold_renews level ρ s).filed m.id _
  | .unary m operator operand, s =>
    (((operand.fold_renews level ρ s).use operator _).filed m.id _).trans
        (Fold.replace_renews level ρ _ operator _ _)
  | .vname m vname, s => (vname.fold_renews level ρ s).filed m.id _

theorem Declaration.fold_renews (level : Nat) (ρ : Referents) :
    (d : Declaration) → (s : FoldState) →
    s.Renews (d.fold.run s).2 d.ids (d.fold.run s).1.ids (d.spots level ρ)
      ((d.fold.run s).1.spots level ρ)
  | .binaryOperator _ _ _ _ _, s | .type _ _ _, s | .unaryOperator _ _ _ _, s | .var _ _ _, s =>
    .refl s _ _
  | .const m name value, s =>
    ((value.fold_renews level ρ s).terminal name.mark.id).filed m.id _
  | .func m name parameters result body, s =>
    ((((FoldState.Renews.refl s parameters.ids _).terminal name.mark.id).append
      (.refl s result.ids _)).append (body.fold_renews _ _ s)).filed m.id _
  | .proc m name parameters body, s =>
    (((FoldState.Renews.refl s parameters.ids _).terminal name.mark.id).append
      (body.fold_renews _ _ s)).filed m.id _
  | .sequential m first second, s => by
    show s.Renews _ _ _ _ (_ ++ Declaration.spots level ((first.fold.run s).1.inScope _) _)
    rw [first.inScope_fold]
    exact ((first.fold_renews level _ s).append (second.fold_renews level _ _)).node m.id

theorem Vname.fold_renews (level : Nat) (ρ : Referents) : (v : Vname) → (s : FoldState) →
    s.Renews (v.fold.run s).2 v.ids (v.fold.run s).1.ids (v.spots level ρ)
      ((v.fold.run s).1.spots level ρ)
  | .dot m record field, s => ((record.fold_renews level ρ s).node field.mark.id).filed m.id _
  | .simple _ _, s => .refl s _ _
  | .subscript m array index, s =>
    ((array.fold_renews level ρ s).append (index.fold_renews level ρ _)).filed m.id _

theorem Argument.fold_renews (level : Nat) (ρ : Referents) : (a : Argument) → (s : FoldState) →
    s.Renews (a.fold.run s).2 a.ids (a.fold.run s).1.ids (a.spots level ρ)
      ((a.fold.run s).1.spots level ρ)
  | .const m value, s => (value.fold_renews level ρ s).node m.id
  | .func _ _, s | .proc _ _, s => .refl s _ _
  | .var m vname, s => (vname.fold_renews level ρ s).node m.id

theorem Arguments.fold_renews (level : Nat) (ρ : Referents) : (a : Arguments) → (s : FoldState) →
    s.Renews (a.fold.run s).2 a.ids (a.fold.run s).1.ids (a.spots level ρ)
      ((a.fold.run s).1.spots level ρ)
  | .empty _, s => .refl s _ _
  | .single m argument, s => (argument.fold_renews level ρ s).node m.id
  | .multiple m first rest, s =>
    ((first.fold_renews level ρ s).append (rest.fold_renews level ρ _)).node m.id

theorem ArrayAggregate.fold_renews (level : Nat) (ρ : Referents) : (a : ArrayAggregate) →
    (s : FoldState) →
    s.Renews (a.fold.run s).2 a.ids (a.fold.run s).1.ids (a.spots level ρ)
      ((a.fold.run s).1.spots level ρ)
  | .single m element, s => (element.fold_renews level ρ s).node m.id
  | .multiple m first rest, s =>
    ((first.fold_renews level ρ s).append (rest.fold_renews level ρ _)).node m.id

theorem RecordAggregate.fold_renews (level : Nat) (ρ : Referents) : (r : RecordAggregate) →
    (s : FoldState) →
    s.Renews (r.fold.run s).2 r.ids (r.fold.run s).1.ids (r.spots level ρ)
      ((r.fold.run s).1.spots level ρ)
  | .single m field value, s =>
    ((value.fold_renews level ρ s).terminal field.mark.id).node m.id
  | .multiple m field value rest, s =>
    (((value.fold_renews level ρ s).terminal field.mark.id).append
      (rest.fold_renews level ρ _)).node m.id

end

/-! ## Programs -/

theorem Program.fold_renews (program : Program) (A : Annotations) (log : Log Problem) :
    ∃ t : FoldState, t.annotations = (program.fold A log).annotations ∧
      t.issued = (program.fold A log).program.issued ∧ t.counts = (program.fold A log).counts ∧
      FoldState.Renews ⟨program.issued, A, log, {}⟩ t program.command.ids
        (program.fold A log).program.command.ids program.spots (program.fold A log).program.spots :=
  ⟨_, rfl, rfl, rfl, Command.fold_renews 0 .standard program.command _⟩

/-- In a folded tree no identity is used twice, and all were handed out. -/
theorem Program.fold_ids (program : Program) (A : Annotations) (log : Log Problem)
    (hnodup : program.command.ids.Nodup) (hlt : ∀ id ∈ program.command.ids, id < program.issued) :
    (program.fold A log).program.command.ids.Nodup ∧
      ∀ id ∈ (program.fold A log).program.command.ids,
        id ∈ program.command.ids ∨
          program.issued ≤ id ∧ id < (program.fold A log).program.issued := by
  obtain ⟨t, -, hissued, -, hrenews⟩ := program.fold_renews A log
  -- An identity was handed out before or while folding, not both.
  have hhanded (id : Nat) : FoldState.handed ⟨program.issued, A, log, {}⟩ t id =
      if program.issued ≤ id ∧ id < (program.fold A log).program.issued then 1 else 0 := by
    rw [← hissued]
    rfl
  constructor
  · refine List.nodup_iff_count_le_one.2 fun id => ?_
    have hcount := hrenews.ids id
    have hone := List.nodup_iff_count_le_one.1 hnodup id
    rw [hhanded] at hcount
    split at hcount
    · rename_i hnew
      rw [List.count_eq_zero.2 fun hid => Nat.not_le.2 (hlt id hid) hnew.1] at hcount
      omega
    · omega
  · intro id hid
    have hcount := hrenews.ids id
    have hpos := List.count_pos_iff.2 hid
    rw [hhanded] at hcount
    split at hcount
    · exact .inr ‹_›
    · exact .inl (List.count_pos_iff.1 (by omega))

end Triangle
