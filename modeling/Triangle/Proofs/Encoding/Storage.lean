import Triangle.Proofs.Encoding.Translation
import Triangle.Proofs.Encoding.Visits

/-!
# The words of constants and variables

A constant that has to be computed and a variable get the next words of the frame, and keep them as
long as they are in scope.  Words that are pushed for a moment and the words of other declarations
come above them.  So the declarations in scope that belong to one frame follow one another in it,
between the link data at its base and its present size.
-/

namespace Triangle

/-- Some words next to each other in a frame. -/
structure Extent where
  start : Int
  stop : Int

/-- A word is one of them. -/
def Extent.Has (x : Extent) (word : Int) : Prop := x.start ≤ word ∧ word < x.stop

/-- The address of the value or the variable that an entity stands for, if the code knows it. -/
def Entity.home? : Entity → Option Address
  | .unknownValue address | .knownAddress address => some address
  | _ => none

/-- The identity of a constant or a variable. -/
def Declaration.datum? : Declaration → Option NodeId
  | .const m _ _ | .var m _ _ => some m.id
  | _ => none

/-- The words that a constant or a variable has in the frames of a level. -/
def Declaration.extent? (A : Annotations) (entities : NodeMap Entity) (level : Nat)
    (d : Declaration) : Option Extent := do
  let id ← d.datum?
  let address ← (entities.entity id).home?
  if address.level = level then
    some ⟨address.displacement, address.displacement + A.wordsOf id⟩
  else none

/-- The words that declarations have in the frames of a level. -/
def Declaration.extents (A : Annotations) (entities : NodeMap Entity) (level : Nat)
    (D : List Declaration) : List Extent :=
  D.filterMap (·.extent? A entities level)

/-- The first word of a frame that is not link data. -/
def Frame.base (frame : Frame) : Int := if frame.level = 0 then 0 else Machine.linkDataSize

/-- The declarations in scope have words in a frame one after the other. -/
structure Frame.Keeps (frame : Frame) (A : Annotations) (entities : NodeMap Entity)
    (D : List Declaration) : Prop where
  base_le : frame.base ≤ frame.size
  inside : ∀ x ∈ Declaration.extents A entities frame.level D,
    frame.base ≤ x.start ∧ x.start < x.stop ∧ x.stop ≤ frame.size
  ordered : (Declaration.extents A entities frame.level D).Pairwise fun x y => x.stop ≤ y.start
  /-- Frames of routines that have not been entered are not in use. -/
  unused : ∀ level, frame.level < level → Declaration.extents A entities level D = []

section

variable {A : Annotations} {entities : NodeMap Entity} {D : List Declaration} {frame above : Frame}
  {d : Declaration} {size : Int}

theorem Declaration.extents_concat (level : Nat) :
    Declaration.extents A entities level (D ++ [d]) =
      Declaration.extents A entities level D ++ (d.extent? A entities level).toList := by
  rw [Declaration.extents, List.filterMap_append, Declaration.extents]
  cases h : d.extent? A entities level <;> simp [h]

/-- What is not filed as data has no words. -/
theorem Declaration.extent?_of_home? {id : NodeId} (hd : d.datum? = some id)
    (hhome : (entities.entity id).home? = none) (level : Nat) :
    d.extent? A entities level = none := by
  simp [Declaration.extent?, hd, hhome]

/-- What is filed at the top of a frame has the next words. -/
theorem Declaration.extent?_of_top {id : NodeId} (hd : d.datum? = some id)
    (hhome : (entities.entity id).home? = some frame.top) (hsize : A.wordsOf id = size)
    (level : Nat) : d.extent? A entities level =
      if frame.level = level then some ⟨frame.size, frame.size + size⟩ else none := by
  simp [Declaration.extent?, hd, hhome, hsize, Frame.top]

namespace Frame.Keeps

theorem expand (h : frame.Keeps A entities D) (hsize : 0 ≤ size)
    (habove : frame.expand size = .ok above) : above.Keeps A entities D := by
  obtain ⟨rfl, -⟩ := Frame.expand_eq habove
  have hbase := h.base_le
  refine ⟨?_, fun x hx => ?_, h.ordered, h.unused⟩
  · simp only [Frame.base] at hbase ⊢
    omega
  · obtain ⟨hstart, hlt, hstop⟩ := h.inside x hx
    exact ⟨hstart, hlt, by simp only; omega⟩

/-- A declaration without words comes into scope. -/
theorem skip (h : frame.Keeps A entities D) (hd : ∀ level, d.extent? A entities level = none) :
    frame.Keeps A entities (D ++ [d]) := by
  have hextents : ∀ level, Declaration.extents A entities level (D ++ [d]) =
      Declaration.extents A entities level D := by
    intro level
    rw [Declaration.extents_concat, hd level, Option.toList_none, List.append_nil]
  refine ⟨h.base_le, ?_, ?_, fun level hlevel => ?_⟩
  · rw [hextents]
    exact h.inside
  · rw [hextents]
    exact h.ordered
  · rw [hextents]
    exact h.unused level hlevel

/-- A declaration that gets the next words comes into scope. -/
theorem store (h : frame.Keeps A entities D) (hsize : 0 < size)
    (hd : ∀ level, d.extent? A entities level =
      if frame.level = level then some ⟨frame.size, frame.size + size⟩ else none)
    (habove : frame.expand size = .ok above) : above.Keeps A entities (D ++ [d]) := by
  have hkeeps := h.expand (Int.le_of_lt hsize) habove
  obtain ⟨rfl, -⟩ := Frame.expand_eq habove
  have hbase := h.base_le
  have hextents : Declaration.extents A entities frame.level (D ++ [d]) =
      Declaration.extents A entities frame.level D ++ [⟨frame.size, frame.size + size⟩] := by
    rw [Declaration.extents_concat, hd, if_pos rfl, Option.toList_some]
  refine ⟨hkeeps.base_le, fun x hx => ?_, ?_, fun level hlevel => ?_⟩
  · rw [hextents, List.mem_append, List.mem_singleton] at hx
    obtain hx | rfl := hx
    · exact hkeeps.inside x hx
    · exact ⟨h.base_le, by simp only; omega, Int.le_refl _⟩
  · rw [hextents, List.pairwise_append]
    refine ⟨h.ordered, List.pairwise_singleton _ _, fun x hx y hy => ?_⟩
    obtain rfl := List.mem_singleton.1 hy
    exact (h.inside x hx).2.2
  · have hne : frame.level ≠ level := Nat.ne_of_lt hlevel
    rw [Declaration.extents_concat, hd, if_neg hne, Option.toList_none, List.append_nil]
    exact h.unused level hlevel

/-- The frame of a routine has nothing but link data at first. -/
theorem enter {inner : Frame} (h : frame.Keeps A entities D)
    (hinner : frame.push Machine.linkDataSize = .ok inner) : inner.Keeps A entities D := by
  obtain rfl := Frame.push_eq hinner
  have hempty := h.unused (frame.level + 1) (Nat.lt_succ_self _)
  refine ⟨Int.le_refl _, fun x hx => ?_, ?_, fun level hlevel => ?_⟩
  · rw [hempty] at hx
    exact (List.not_mem_nil hx).elim
  · rw [hempty]
    exact .nil
  · exact h.unused level (Nat.lt_of_succ_lt hlevel)

end Frame.Keeps

end

/-- What a declaration does to the frame around it. -/
theorem Declaration.Emits.keeps {W : Whole} {I : Context → List Declaration → Frame → Prop}
    {d : Declaration} {Γ Δ : Context} {D : List Declaration} {F : List Parameter}
    {frame above : Frame} {p q : Draft} {size : Int}
    (hscene : Scene W I Γ D frame q d.ids (d.points D))
    (hkeeps : frame.Keeps W.annotations W.entities D) (hsingle : d.name?.isSome = true)
    (ht : d.Typed W.annotations Γ Δ) (he : d.Emits W.annotations F frame p size q)
    (habove : frame.expand size = .ok above) : above.Keeps W.annotations W.entities (D ++ [d]) := by
  have hsize := he.size_nonneg ht hscene.proper
  -- nothing is filed under these nodes later, so the end already has their entities
  have hentity : ∀ id ∈ d.ids, W.entities.entity id = q.entities.entity id := fun id hid => by
    rw [NodeMap.entity, hscene.settled id hid, NodeMap.entity]
  cases d with
  | binaryOperator | unaryOperator => exact ht.elim
  | sequential => cases hsingle
  | func | proc | type => exact (hkeeps.skip fun _ => rfl).expand hsize habove
  | const m name value =>
    obtain ⟨τ, hvalue, htype, -⟩ := ht
    have hentity := hentity m.id (List.mem_append_right _ List.mem_cons_self)
    obtain ⟨r, hr, rfl⟩ := he
    split at hr
    · obtain ⟨rfl, rfl⟩ := hr
      rw [Draft.entities_visit, Draft.entities_represent, NodeMap.entity_insert_self] at hentity
      exact (hkeeps.skip (Declaration.extent?_of_home? rfl (by rw [hentity]; rfl))).expand
        hsize habove
    · obtain ⟨r', hr', rfl⟩ := hr
      rw [Draft.entities_visit, Draft.entities_represent, NodeMap.entity_insert_self] at hentity
      have hwords : W.annotations.wordsOf m.id = size := by
        rw [Annotations.wordsOf_eq htype, hr'.size_eq hvalue]
      have hpos : 0 < size := by
        rw [hr'.size_eq hvalue]
        exact (hvalue.proper hscene.proper).words_pos
      exact hkeeps.store hpos (Declaration.extent?_of_top rfl (by rw [hentity]; rfl) hwords) habove
  | var m name of =>
    obtain ⟨τ, hτ, htype, -⟩ := ht
    have hentity := hentity m.id (List.mem_append_right _ List.mem_cons_self)
    obtain ⟨hof, rfl⟩ := he
    rw [Draft.entities_visit, Draft.entities_represent, NodeMap.entity_insert_self] at hentity
    have hwords := Annotations.words_of_sizeOf htype hof
    have hpos : 0 < size := by
      rw [hwords]
      exact (hτ.proper hscene.proper.types).words_pos
    refine hkeeps.store hpos (Declaration.extent?_of_top rfl (by rw [hentity]; rfl) ?_) habove
    rw [Annotations.wordsOf_eq htype, hwords]

theorem inherits_keeps (W : Whole) :
    Inherits W fun _ D frame => frame.Keeps W.annotations W.entities D where
  expand h hsize habove := h.expand hsize habove
  declare hscene hsingle ht he habove := he.keeps hscene hscene.holds hsingle ht habove
  enter {d} _ _ _ _ _ _ _ _ _ hscene hparameters _ _ hinner := by
    refine (hscene.holds.enter hinner).skip fun _ => ?_
    cases d with
    | func | proc => rfl
    | _ => cases hparameters

/-- The words of the constants and variables in scope, as far as they belong to a frame, are apart.
-/
structure Frame.Separates (frame : Frame) (A : Annotations) (entities : NodeMap Entity)
    (D : List Declaration) : Prop where
  /-- No word belongs to two of them. -/
  disjoint : (Declaration.extents A entities frame.level D).Pairwise fun x y =>
    ∀ word, ¬ (x.Has word ∧ y.Has word)
  /-- What is declared later comes later. -/
  increasing : (Declaration.extents A entities frame.level D).Pairwise fun x y => x.start < y.start
  /-- They are above the link data and below what is pushed next. -/
  inside : ∀ x ∈ Declaration.extents A entities frame.level D,
    frame.base ≤ x.start ∧ x.start < x.stop ∧ x.stop ≤ frame.size
  /-- Where the parameters of a routine are counted, one level deeper, there is nothing yet. -/
  unused : ∀ level, frame.level < level → Declaration.extents A entities level D = []

theorem Frame.Keeps.separates {frame : Frame} {A : Annotations} {entities : NodeMap Entity}
    {D : List Declaration} (h : frame.Keeps A entities D) : frame.Separates A entities D := by
  refine ⟨h.ordered.imp fun hle word => ?_, ?_, h.inside, h.unused⟩
  · rintro ⟨⟨-, hx⟩, hy, -⟩
    omega
  · refine h.ordered.imp_of_mem fun hx _ hle => ?_
    have := (h.inside _ hx).2.1
    omega

/-- Whenever code generation visits a phrase, the constants and variables in scope that have words
in the present frame have them one after the other, above the link data and below what is pushed
next. -/
theorem Translates.separates_storage {source : Source} {failFast folding : Bool} {program : Program}
    {A : Annotations} {object : ObjectCode}
    (h : Translates source failFast folding program A object) :
    (∃ s q, program.Generated A object s q) ∧ ∀ s q, program.Generated A object s q →
      List.Forall₂ (fun visit point => visit.phrase = point.phrase ∧
          visit.frame.Separates A s.entities point.scope)
        (q.trace.filterMap Event.visit?) (program.command.points []) := by
  refine ⟨h.generated, fun s q hs => ?_⟩
  have hstart : Frame.global.Keeps A q.entities [] :=
    ⟨Int.le_refl 0, fun _ hx => (List.not_mem_nil hx).elim, .nil, fun _ _ => rfl⟩
  refine (Program.visits_explained h.typed h.ids_nodup hs.emits
    (inherits_keeps (program.whole A q)) hstart).imp fun visit point hvisit => ?_
  obtain ⟨hphrase, Γ, F, p, r, hscene, -⟩ := hvisit
  rw [← hs.entities]
  exact ⟨hphrase, hscene.holds.separates⟩

theorem Translates.relay_separates_storage :
    ∃ program A object s q, Translates .relay false true program A object ∧
      program.Generated A object s q ∧
      List.Forall₂ (fun visit point => visit.phrase = point.phrase ∧
          visit.frame.Separates A s.entities point.scope)
        (q.trace.filterMap Event.visit?) (program.command.points []) := by
  obtain ⟨program, A, object, h⟩ := Translates.relay
  obtain ⟨⟨s, q, hs⟩, hseparates⟩ := h.separates_storage
  exact ⟨program, A, object, s, q, h, hs, hseparates s q hs⟩

end Triangle
