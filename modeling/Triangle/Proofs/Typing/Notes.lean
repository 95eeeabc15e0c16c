import Triangle.Proofs.Typing.Scoping

/-!
# What checking writes down

Checking writes annotations and never reads them.  So what the annotations say in the end is
decided by the list of what was written, and a fact about a phrase can be stated for *all*
annotations that hold the notes made about it.  That is `Finds`: in the step from one state to
another, notes were made about some nodes, and annotations that hold them satisfy a property.

Facts about the parts of a phrase are combined without asking whether a later note overwrote an
earlier one.  This is asked once, for a whole tree: `Finds.final` says that no note is overwritten
where the nodes have identities of their own.
-/

namespace Triangle

/-- A fact about a node that checking writes down. -/
inductive Note where
  | type (id : NodeId) (ty : Ty)
  | referent (id : NodeId) (referent : Referent)
  | variable (id : NodeId)

namespace Note

/-- Which of the annotations a note is for. -/
inductive Kind where
  | type
  | referent
  | variable
deriving DecidableEq

/-- Where a note is kept. -/
def key : Note → Kind × NodeId
  | type id _ => (.type, id)
  | referent id _ => (.referent, id)
  | «variable» id => (.variable, id)

end Note

namespace Annotations

/-- Writes a note down. -/
def note (A : Annotations) : Note → Annotations
  | .type id ty => A.withType id ty
  | .referent id referent => A.withReferent id referent
  | .variable id => A.withVariable id

/-- Writes notes down, one after the other. -/
def noted (A : Annotations) (notes : List Note) : Annotations :=
  notes.foldl note A

/-- The annotations hold a note. -/
def Has (A : Annotations) : Note → Prop
  | .type id ty => A.typeOf? id = some ty
  | .referent id referent => A.referentOf? id = some referent
  | .variable id => A.isVariable id = true

theorem has_note (A : Annotations) (n : Note) : (A.note n).Has n := by
  cases n <;> simp [note, Has, withType, withReferent, withVariable, typeOf?, referentOf?,
    isVariable, NodeMap.get?_insert]

/-- A note stays until another is written in its place. -/
theorem Has.note {A : Annotations} {n : Note} (h : A.Has n) {other : Note}
    (hne : n.key ≠ other.key) : (A.note other).Has n := by
  cases n <;> cases other <;>
    simp only [Annotations.note, Has, withType, withReferent, withVariable, typeOf?, referentOf?,
      isVariable, NodeMap.get?_insert] at h ⊢ <;> (try exact h) <;>
    rw [if_neg (fun heq => hne (by simp [Note.key, heq]))] <;> exact h

theorem Has.noted {A : Annotations} {n : Note} (h : A.Has n) {notes : List Note}
    (hne : n.key ∉ notes.map Note.key) : (A.noted notes).Has n := by
  induction notes generalizing A with
  | nil => exact h
  | cons other rest ih =>
    simp only [List.map_cons, List.mem_cons, not_or] at hne
    exact ih (h.note hne.1) hne.2

/-- Notes kept in different places are all there in the end. -/
theorem has_noted {A : Annotations} {notes : List Note} (h : (notes.map Note.key).Nodup) :
    ∀ n ∈ notes, (A.noted notes).Has n := by
  induction notes generalizing A with
  | nil => intro n hn; cases hn
  | cons first rest ih =>
    rw [List.map_cons, List.nodup_cons] at h
    intro n hn
    rcases List.mem_cons.1 hn with rfl | hn
    · exact (A.has_note n).noted h.1
    · exact ih h.2 n hn

end Annotations

/-! ## Notes about some nodes -/

/-- The notes are about some nodes, and no more of each kind about a node than it occurs. -/
def Note.Within (notes : List Note) (ids : List NodeId) : Prop :=
  ∀ kind id, (notes.map Note.key).count (kind, id) ≤ ids.count id

theorem Note.Within.nodup {notes : List Note} {ids : List NodeId} (h : Within notes ids)
    (hids : ids.Nodup) : (notes.map Note.key).Nodup := by
  rw [List.nodup_iff_count] at hids ⊢
  rintro ⟨kind, id⟩
  exact Nat.le_trans (h kind id) (hids id)

/-- In a step notes were made about some nodes, and annotations that hold them have a property. -/
def Finds (s : CheckState) (ids : List NodeId) (s' : CheckState) (P : Annotations → Prop) : Prop :=
  ∃ notes, s'.annotations = s.annotations.noted notes ∧ Note.Within notes ids ∧
    ∀ A : Annotations, (∀ n ∈ notes, A.Has n) → P A

namespace Finds

variable {s t s' : CheckState} {ids more : List NodeId} {P Q : Annotations → Prop}

theorem nothing (h : s'.annotations = s.annotations) (hP : ∀ A, P A) : Finds s [] s' P :=
  ⟨[], h, fun _ _ => Nat.le_refl _, fun A _ => hP A⟩

theorem one {n : Note} (h : s'.annotations = s.annotations.note n)
    (hP : ∀ A : Annotations, A.Has n → P A) : Finds s [n.key.2] s' P := by
  refine ⟨[n], h, fun kind id => ?_, fun A hA => hP A (hA n List.mem_cons_self)⟩
  by_cases heq : n.key.2 = id
  · exact Nat.le_trans List.count_le_length (by simp [heq])
  · have hkey : n.key ≠ (kind, id) := fun h => heq (by rw [h])
    simp [hkey, heq]

theorem trans (h₁ : Finds s ids t P) (h₂ : Finds t more s' Q) :
    Finds s (ids ++ more) s' fun A => P A ∧ Q A := by
  obtain ⟨notes, heq, hwithin, hP⟩ := h₁
  obtain ⟨others, heq', hwithin', hQ⟩ := h₂
  refine ⟨notes ++ others, ?_, fun kind id => ?_, fun A hA => ⟨?_, ?_⟩⟩
  · rw [heq', heq, Annotations.noted, Annotations.noted, Annotations.noted, List.foldl_append]
  · rw [List.map_append, List.count_append, List.count_append]
    exact Nat.add_le_add (hwithin kind id) (hwithin' kind id)
  · exact hP A fun n hn => hA n (List.mem_append_left _ hn)
  · exact hQ A fun n hn => hA n (List.mem_append_right _ hn)

theorem imp (h : Finds s ids s' P) (himp : ∀ A, P A → Q A) : Finds s ids s' Q := by
  obtain ⟨notes, heq, hwithin, hP⟩ := h
  exact ⟨notes, heq, hwithin, fun A hA => himp A (hP A hA)⟩

/-- Only how often each node occurs matters. -/
theorem within (h : Finds s ids s' P) (hle : ∀ id, ids.count id ≤ more.count id) :
    Finds s more s' P := by
  obtain ⟨notes, heq, hwithin, hP⟩ := h
  exact ⟨notes, heq, fun kind id => Nat.le_trans (hwithin kind id) (hle id), hP⟩

/-- Only the annotations of a state matter. -/
theorem of_eq {u v : CheckState} (h : Finds s ids s' P) (hs : u.annotations = s.annotations)
    (hs' : v.annotations = s'.annotations) : Finds u ids v P := by
  obtain ⟨notes, heq, hwithin, hP⟩ := h
  exact ⟨notes, by rw [hs, hs', heq], hwithin, hP⟩

/-- Where the nodes have identities of their own, the annotations in the end hold every note. -/
theorem final (h : Finds s ids s' P) (hids : ids.Nodup) : P s'.annotations := by
  obtain ⟨notes, heq, hwithin, hP⟩ := h
  refine hP _ fun n hn => ?_
  rw [heq]
  exact Annotations.has_noted (hwithin.nodup hids) n hn

end Finds

end Triangle
