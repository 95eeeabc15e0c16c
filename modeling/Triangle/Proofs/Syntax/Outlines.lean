import Triangle.Syntax.Outline

/-!
# Outlines as forests

In an outline a node is followed by its descendants, which are the entries at greater depths up to
the next one that is not.  `Ranked` says of a list of entries that it is the outline of phrases side
by side, in which every node has a greater identity than its descendants and every terminal is
spelled on one line.
-/

namespace Triangle

variable {depth : Nat} {entries : List Entry}

/-- The identity of the node of an entry. -/
def Entry.id (entry : Entry) : NodeId := entry.mark.id

/-- A terminal is spelled on one line. -/
def Entry.Proper (entry : Entry) : Prop :=
  entry.kind = .terminal → '\n' ∉ (entry.name.getD "").toList

/-- The outlines of phrases side by side, whose nodes have greater identities than what is below
them. -/
inductive Ranked : Nat → List Entry → Prop
  | nil {depth : Nat} : Ranked depth []
  | cons {depth : Nat} {entry : Entry} {below rest : List Entry} :
      entry.depth = depth → entry.Proper → (∀ other ∈ below, other.id < entry.id) →
      Ranked (depth + 1) below → Ranked depth rest → Ranked depth (entry :: (below ++ rest))

namespace Ranked

theorem node {entry : Entry} {below : List Entry} (hdepth : entry.depth = depth)
    (hproper : entry.Proper) (hless : ∀ other ∈ below, other.id < entry.id)
    (hbelow : Ranked (depth + 1) below) : Ranked depth (entry :: below) := by
  have h := Ranked.cons hdepth hproper hless hbelow .nil
  rwa [List.append_nil] at h

theorem append {first second : List Entry} (hfirst : Ranked depth first)
    (hsecond : Ranked depth second) : Ranked depth (first ++ second) := by
  induction hfirst with
  | nil => exact hsecond
  | cons hdepth hproper hless hbelow _ _ ih =>
    rw [List.cons_append, List.append_assoc]
    exact .cons hdepth hproper hless hbelow (ih hsecond)

theorem depth_le (h : Ranked depth entries) : ∀ entry ∈ entries, depth ≤ entry.depth := by
  induction h with
  | nil => simp
  | cons hdepth _ _ _ _ ihbelow ihrest =>
    intro other hother
    rcases List.mem_cons.1 hother with rfl | hother
    · exact Nat.le_of_eq hdepth.symm
    · rcases List.mem_append.1 hother with hother | hother
      · exact Nat.le_of_succ_le (ihbelow other hother)
      · exact ihrest other hother

theorem proper (h : Ranked depth entries) : ∀ entry ∈ entries, entry.Proper := by
  induction h with
  | nil => simp
  | cons _ hproper _ _ _ ihbelow ihrest =>
    exact List.forall_mem_cons.2 ⟨hproper, List.forall_mem_append.2 ⟨ihbelow, ihrest⟩⟩

/-- What follows phrases side by side is at no greater depth than their nodes. -/
theorem takeWhile_append {rest : List Entry} (h : Ranked depth rest) {bound : Nat}
    (hbound : depth ≤ bound) (below : List Entry) :
    (below ++ rest).takeWhile (fun other => bound < other.depth) =
      below.takeWhile (fun other => bound < other.depth) := by
  induction below with
  | nil =>
    cases h with
    | nil => rfl
    | cons hdepth _ _ _ _ =>
      rw [List.nil_append, List.takeWhile_cons_of_neg (by simp [hdepth, hbound]),
        List.takeWhile_nil]
  | cons other below ih => rw [List.cons_append, List.takeWhile_cons, List.takeWhile_cons, ih]

/-- Every node has a greater identity than its descendants. -/
theorem id_lt (h : Ranked depth entries) :
    ∀ {front back : List Entry} {entry : Entry}, entries = front ++ entry :: back →
      ∀ other ∈ back.takeWhile (fun other => entry.depth < other.depth), other.id < entry.id := by
  induction h with
  | nil => simp
  | @cons depth root below rest hdepth _ hless hbelow hrest ihbelow ihrest =>
    intro front back entry heq other hother
    cases front with
    | nil =>
      obtain ⟨rfl, rfl⟩ := List.cons.inj heq
      rw [hrest.takeWhile_append (Nat.le_of_eq hdepth.symm)] at hother
      exact hless other ((List.takeWhile_sublist _).subset hother)
    | cons first front =>
      obtain ⟨-, heq⟩ := List.cons.inj heq
      -- The node is below the root or after it.
      rcases List.append_eq_append_iff.1 heq with ⟨more, rfl, hback⟩ | ⟨more, rfl, hback⟩
      · exact ihrest hback other hother
      · cases more with
        | nil => exact ihrest (hback.symm.trans (List.nil_append _).symm) other hother
        | cons first more =>
          obtain ⟨rfl, rfl⟩ : entry = first ∧ back = more ++ rest := List.cons.inj hback
          have hle := hbelow.depth_le entry (by simp)
          rw [hrest.takeWhile_append (Nat.le_of_succ_le hle)] at hother
          exact ihbelow rfl other hother

end Ranked

end Triangle
