import Triangle.Proofs.Folding.Renewal
import Triangle.Proofs.Parsing.Trees

/-!
# Identities under folding

Reading a text hands out the identities from zero on, and every node gets its own after its parts.
Folding hands out more, two for an integer and three for a truth value.  A node of a folded tree
that has an old identity is an old node, where it was: the entries with old identities in the
outline of the folded tree are entries of the outline from before, in the same order.

Each folding starts from the number of identities that the one before has left, so this holds
however often a tree is folded, and whatever is said to be known about it.
-/

namespace Triangle

/-! ## Nodes that stay -/

/-- The entries with identities below `n` were there before. -/
def Kept (n : Nat) (before after : List Entry) : Prop :=
  (after.filter fun entry => entry.id < n).Sublist before

namespace Kept

variable {n : Nat} {first first' second second' : List Entry}

theorem refl (n : Nat) (entries : List Entry) : Kept n entries entries := List.filter_sublist

theorem append (h₁ : Kept n first first') (h₂ : Kept n second second') :
    Kept n (first ++ second) (first' ++ second') := by
  rw [Kept, List.filter_append]
  exact List.Sublist.append h₁ h₂

theorem node (h : Kept n first first') (entry : Entry) :
    Kept n (entry :: first) (entry :: first') :=
  append (.refl n [entry]) h

/-- The name that an entry shows may be given in another way. -/
theorem named (h : Kept n first first') {depth : Nat} {m : Mark} {label : String} {kind : EntryKind}
    {name name' : Terminal} (hname : name' = name) :
    Kept n (⟨depth, m, label, kind, some name.spelling⟩ :: first)
      (⟨depth, m, label, kind, some name'.spelling⟩ :: first') :=
  hname ▸ h.node _

theorem of_new (h : ∀ entry ∈ second, n ≤ entry.id) : Kept n first second := by
  rw [Kept, List.filter_eq_nil_iff.2 fun entry hentry => by simpa using h entry hentry]
  exact List.nil_sublist _

theorem trans (h₁ : Kept n first second) (h₂ : Kept n second second') :
    Kept n first second' := by
  have h := List.Sublist.filter (fun entry : Entry => entry.id < n) h₂
  rw [List.filter_filter] at h
  exact (by simpa using h : List.Sublist _ _).trans h₁

end Kept

theorem Fold.literal_kept {n : Nat} (span : Span) (constant : Constant) (s : FoldState)
    (hs : n ≤ s.issued) (before : List Entry) (depth : Nat) :
    Kept n before (((Fold.literal span constant).run s).1.outline depth) := by
  cases constant with
  | int value =>
    refine .of_new (List.forall_mem_cons.2 ⟨hs, List.forall_mem_singleton.2 ?_⟩)
    exact Nat.le_succ_of_le hs
  | bool value =>
    refine .of_new (List.forall_mem_cons.2 ⟨hs, List.forall_mem_cons.2
      ⟨?_, List.forall_mem_singleton.2 ?_⟩⟩)
    · exact Nat.le_add_right_of_le (k := 2) hs
    · exact Nat.le_succ_of_le hs

theorem Fold.replace_kept {n : Nat} (e : Expression) (operator : Terminal)
    (outcome : Constant.Outcome) (s : FoldState) (hs : n ≤ s.issued) (depth : Nat) :
    Kept n (e.outline depth) (((Fold.replace e operator outcome).run s).1.outline depth) := by
  cases outcome with
  | value constant => exact Fold.literal_kept _ constant s hs _ depth
  | byZero operation => exact .refl n _
  | unknown => exact .refl n _

/-- Folding leaves the name that a V-name starts with. -/
theorem Vname.fold_root (v : Vname) (s : FoldState) : (v.fold.run s).1.root = v.root := by
  cases v with
  | dot m record field => exact record.fold_root s
  | simple m name => rfl
  | subscript m array index => exact array.fold_root s

section

variable {n : Nat}

mutual

theorem Command.fold_kept : (c : Command) → (s : FoldState) → n ≤ s.issued → (depth : Nat) →
    Kept n (c.outline depth) ((c.fold.run s).1.outline depth)
  | .assign _ target value, s, hs, _ =>
    ((target.fold_kept s hs _).append
      (value.fold_kept _ ((target.fold_renews 0 [] s).later hs) _)).node _
  | .doubleAssign _ first second firstValue secondValue, s, hs, _ =>
    have h₁ := (first.fold_renews 0 [] s).later hs
    have h₂ := (second.fold_renews 0 [] _).later h₁
    ((((first.fold_kept s hs _).append (second.fold_kept _ h₁ _)).append
      (firstValue.fold_kept _ h₂ _)).append
      (secondValue.fold_kept _ ((firstValue.fold_renews 0 [] _).later h₂) _)).node _
  | .call _ _ arguments, s, hs, _ =>
    ((Kept.refl n _).append (arguments.fold_kept s hs _)).node _
  | .empty _, _, _, _ => .refl n _
  | .ifElse _ condition first second, s, hs, _ =>
    have h₁ := (condition.fold_renews 0 [] s).later hs
    (((condition.fold_kept s hs _).append (first.fold_kept _ h₁ _)).append
      (second.fold_kept _ ((first.fold_renews 0 [] _).later h₁) _)).node _
  | .letIn _ declaration body, s, hs, _ =>
    ((declaration.fold_kept s hs _).append
      (body.fold_kept _ ((declaration.fold_renews 0 [] s).later hs) _)).node _
  | .sequential _ first second, s, hs, _ =>
    ((first.fold_kept s hs _).append
      (second.fold_kept _ ((first.fold_renews 0 [] s).later hs) _)).node _
  | .whileDo _ condition body, s, hs, _ =>
    ((condition.fold_kept s hs _).append
      (body.fold_kept _ ((condition.fold_renews 0 [] s).later hs) _)).node _
  | .loopWhile _ prelude condition body, s, hs, _ =>
    have h₁ := (prelude.fold_renews 0 [] s).later hs
    (((prelude.fold_kept s hs _).append (condition.fold_kept _ h₁ _)).append
      (body.fold_kept _ ((condition.fold_renews 0 [] _).later h₁) _)).node _

theorem Expression.fold_kept : (e : Expression) → (s : FoldState) → n ≤ s.issued → (depth : Nat) →
    Kept n (e.outline depth) ((e.fold.run s).1.outline depth)
  | .array _ elements, s, hs, _ => (elements.fold_kept s hs _).node _
  | .binary _ left operator right, s, hs, _ =>
    have h₁ := (left.fold_renews 0 [] s).later hs
    Kept.trans ((((left.fold_kept s hs _).append (.refl n _)).append
      (right.fold_kept _ h₁ _)).node _)
      (Fold.replace_kept _ operator _ _ ((right.fold_renews 0 [] _).later h₁) _)
  | .call _ _ arguments, s, hs, _ =>
    ((Kept.refl n _).append (arguments.fold_kept s hs _)).node _
  | .character _ _, _, _, _ | .empty _, _, _, _ | .integer _ _, _, _, _ => .refl n _
  | .ifElse _ condition first second, s, hs, _ =>
    have h₁ := (condition.fold_renews 0 [] s).later hs
    (((condition.fold_kept s hs _).append (first.fold_kept _ h₁ _)).append
      (second.fold_kept _ ((first.fold_renews 0 [] _).later h₁) _)).node _
  | .letIn _ declaration body, s, hs, _ =>
    ((declaration.fold_kept s hs _).append
      (body.fold_kept _ ((declaration.fold_renews 0 [] s).later hs) _)).node _
  | .record _ fields, s, hs, _ => (fields.fold_kept s hs _).node _
  | .unary _ operator operand, s, hs, _ =>
    Kept.trans (((Kept.refl n _).append (operand.fold_kept s hs _)).node _)
      (Fold.replace_kept _ operator _ _ ((operand.fold_renews 0 [] s).later hs) _)
  | .vname _ vname, s, hs, _ => (vname.fold_kept s hs _).node _

theorem Declaration.fold_kept : (d : Declaration) → (s : FoldState) → n ≤ s.issued →
    (depth : Nat) → Kept n (d.outline depth) ((d.fold.run s).1.outline depth)
  | .binaryOperator _ _ _ _ _, _, _, _ | .type _ _ _, _, _, _ | .unaryOperator _ _ _ _, _, _, _
  | .var _ _ _, _, _, _ => .refl n _
  | .const _ _ value, s, hs, _ => ((Kept.refl n _).append (value.fold_kept s hs _)).node _
  | .func _ _ _ _ body, s, hs, _ => ((Kept.refl n _).append (body.fold_kept s hs _)).node _
  | .proc _ _ _ body, s, hs, _ => ((Kept.refl n _).append (body.fold_kept s hs _)).node _
  | .sequential _ first second, s, hs, _ =>
    ((first.fold_kept s hs _).append
      (second.fold_kept _ ((first.fold_renews 0 [] s).later hs) _)).node _

theorem Vname.fold_kept : (v : Vname) → (s : FoldState) → n ≤ s.issued → (depth : Nat) →
    Kept n (v.outline depth) ((v.fold.run s).1.outline depth)
  | .dot _ record _, s, hs, _ =>
    ((record.fold_kept s hs _).append (.refl n _)).named (record.fold_root s)
  | .simple _ _, _, _, _ => .refl n _
  | .subscript _ array index, s, hs, _ =>
    ((array.fold_kept s hs _).append
      (index.fold_kept _ ((array.fold_renews 0 [] s).later hs) _)).named (array.fold_root s)

theorem Argument.fold_kept : (a : Argument) → (s : FoldState) → n ≤ s.issued → (depth : Nat) →
    Kept n (a.outline depth) ((a.fold.run s).1.outline depth)
  | .const _ value, s, hs, _ => (value.fold_kept s hs _).node _
  | .func _ _, _, _, _ | .proc _ _, _, _, _ => .refl n _
  | .var _ vname, s, hs, _ => (vname.fold_kept s hs _).node _

theorem Arguments.fold_kept : (a : Arguments) → (s : FoldState) → n ≤ s.issued → (depth : Nat) →
    Kept n (a.outline depth) ((a.fold.run s).1.outline depth)
  | .empty _, _, _, _ => .refl n _
  | .single _ argument, s, hs, _ => (argument.fold_kept s hs _).node _
  | .multiple _ first rest, s, hs, _ =>
    ((first.fold_kept s hs _).append
      (rest.fold_kept _ ((first.fold_renews 0 [] s).later hs) _)).node _

theorem ArrayAggregate.fold_kept : (a : ArrayAggregate) → (s : FoldState) → n ≤ s.issued →
    (depth : Nat) → Kept n (a.outline depth) ((a.fold.run s).1.outline depth)
  | .single _ element, s, hs, _ => (element.fold_kept s hs _).node _
  | .multiple _ first rest, s, hs, _ =>
    ((first.fold_kept s hs _).append
      (rest.fold_kept _ ((first.fold_renews 0 [] s).later hs) _)).node _

theorem RecordAggregate.fold_kept : (r : RecordAggregate) → (s : FoldState) → n ≤ s.issued →
    (depth : Nat) → Kept n (r.outline depth) ((r.fold.run s).1.outline depth)
  | .single _ _ value, s, hs, _ => ((Kept.refl n _).append (value.fold_kept s hs _)).node _
  | .multiple _ _ value rest, s, hs, _ =>
    (((Kept.refl n _).append (value.fold_kept s hs _)).append
      (rest.fold_kept _ ((value.fold_renews 0 [] s).later hs) _)).node _

end

end

/-! ## Folding again and again -/

/-- A program that comes from another by folding, any number of times. -/
inductive Program.Refolds (program : Program) : Program → Prop
  | refl : Refolds program program
  | fold {other : Program} (A : Annotations) (log : Log Problem) :
      Refolds program other → Refolds program (other.fold A log).program

/-- Different nodes have different identities, all of which were handed out. -/
structure Program.Numbered (program : Program) : Prop where
  nodup : program.ids.Nodup
  lt : ∀ id ∈ program.ids, id < program.issued

theorem Program.Numbered.fold {program : Program} (h : program.Numbered) (A : Annotations)
    (log : Log Problem) : (program.fold A log).program.Numbered := by
  obtain ⟨hcommand, -, hmark⟩ := List.nodup_append.1 h.nodup
  have hlt := List.forall_mem_append.1 h.lt
  obtain ⟨hnodup, hids⟩ := program.fold_ids A log hcommand hlt.1
  have hroot := List.forall_mem_singleton.1 hlt.2
  obtain ⟨t, -, hissued, -, hrenews⟩ := program.fold_renews A log
  have hle : program.issued ≤ (program.fold A log).program.issued := hissued ▸ hrenews.le.issued
  constructor
  · refine List.nodup_append.2 ⟨hnodup, List.nodup_singleton _, fun id hid root hroot' => ?_⟩
    rw [List.mem_singleton.1 hroot']
    rcases hids id hid with hid | hid
    · exact hmark id hid _ (List.mem_singleton_self _)
    · exact Nat.ne_of_gt (Nat.lt_of_lt_of_le hroot hid.1)
  · refine List.forall_mem_append.2 ⟨fun id hid => ?_, List.forall_mem_singleton.2 ?_⟩
    · rcases hids id hid with hid | hid
      · exact Nat.lt_of_lt_of_le (hlt.1 id hid) hle
      · exact hid.2
    · exact Nat.lt_of_lt_of_le hroot hle

theorem Program.Refolds.numbered {program other : Program} (h : program.Refolds other)
    (hprogram : program.Numbered) : other.Numbered := by
  induction h with
  | refl => exact hprogram
  | fold A log _ ih => exact ih.fold A log

/-- The tree of a text has the identities from zero on, each of them once and each node's greater
than those below it.  However often it is folded, identities stay unique, old nodes keep theirs, and
two more are handed out for each integer and three for each truth value. -/
theorem parse_identities (source : Source) (failFast : Bool) :
    (parse source failFast).program.ids.Perm
      (List.range (parse source failFast).program.issued) ∧
    (∀ {front back : List Entry} {node : Entry},
      (parse source failFast).program.outline = front ++ node :: back →
      ∀ below ∈ back.takeWhile (fun other => node.depth < other.depth), below.id < node.id) ∧
    ∀ {program : Program}, (parse source failFast).program.Refolds program →
      program.Numbered ∧ ∀ (A : Annotations) (log : Log Problem),
        Kept program.issued program.outline (program.fold A log).program.outline ∧
        (program.fold A log).program.issued = program.issued +
          (2 * (program.fold A log).counts.integers +
            3 * (program.fold A log).counts.booleans) := by
  have hids := parse_ids source failFast
  refine ⟨hids, (parse_ranked source failFast).id_lt, fun {program} hprogram => ⟨?_, ?_⟩⟩
  · exact hprogram.numbered ⟨hids.nodup_iff.2 List.nodup_range,
      fun id hid => List.mem_range.1 (hids.mem_iff.1 hid)⟩
  · intro A log
    obtain ⟨t, -, hissued, hcounts, hrenews⟩ := program.fold_renews A log
    rw [← hissued, ← hcounts]
    refine ⟨(program.command.fold_kept ⟨_, A, log, {}⟩ (Nat.le_refl _) 1).node _, ?_⟩
    exact hrenews.issued

end Triangle
