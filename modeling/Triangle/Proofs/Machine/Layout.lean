import Mathlib.Data.List.Forall2
import Triangle.Proofs.Semantics.Words

/-!
# Values on the stack

While the main program runs, the stack of the machine consists of blocks: the variables, the
constants that have no place in the code, and the words of values that are being computed.  A block
is as large as the type of its variable or as the words it holds, so addresses do not change while
values are assigned.
-/

namespace Triangle

/-! ## Cells and words -/

/-- Words are as cells tell, as far as they do. -/
def Holds (cells : List (Option Int)) (words : List Int) : Prop :=
  List.Forall₂ (fun cell word => ∀ n, cell = some n → word = n) cells words

variable {words : List Int} {store : List Value}

theorem Holds.length {cells : List (Option Int)} (h : Holds cells words) :
    words.length = cells.length :=
  (List.Forall₂.length_eq h).symm

theorem holds_append {a b : List (Option Int)} :
    Holds (a ++ b) words ↔ ∃ u v, words = u ++ v ∧ Holds a u ∧ Holds b v := by
  constructor
  · intro h
    refine ⟨words.take a.length, words.drop a.length, (List.take_append_drop _ _).symm, ?_, ?_⟩
    · exact (List.forall₂_take_append words a b (List.Forall₂.flip h)).flip
    · exact (List.forall₂_drop_append words a b (List.Forall₂.flip h)).flip
  · rintro ⟨u, v, rfl, hu, hv⟩
    exact List.rel_append hu hv

theorem holds_map_some {known : List Int} : Holds (known.map some) words ↔ words = known := by
  rw [Holds, List.forall₂_map_left_iff]
  constructor
  · intro h
    have heq : List.Forall₂ Eq words known := h.flip.imp fun _ _ h => h _ rfl
    exact List.forall₂_eq_eq_eq ▸ heq
  · rintro rfl
    exact List.forall₂_same.2 fun _ _ _ h => Option.some.inj h

/-! ## Blocks -/

/-- A part of the stack. -/
inductive Block where
  /-- A variable of a type. -/
  | variable (location : Nat) (type : Ty)
  /-- A value that does not change. -/
  | fixed (words : List Int)

/-- How many words a block has. -/
def Block.size : Block → Int
  | .variable _ type => type.words
  | .fixed words => words.length

/-- The variable in a block. -/
def Block.location? : Block → Option Nat
  | .variable location _ => some location
  | .fixed _ => none

/-- What is known of the words in a block. -/
def Block.cells (store : List Value) : Block → List (Option Int)
  | .variable location _ => (store[location]?.getD .undefined).cells
  | .fixed words => words.map some

/-- The blocks on the stack, from the bottom. -/
abbrev Layout := List Block

namespace Layout

/-- How many words the blocks have. -/
def size : Layout → Int
  | [] => 0
  | block :: rest => block.size + size rest

/-- What is known of the words in the blocks. -/
def cells (store : List Value) (layout : Layout) : List (Option Int) :=
  layout.flatMap (Block.cells store)

@[simp] theorem size_nil : size [] = 0 := rfl

@[simp] theorem size_cons (block : Block) (layout : Layout) :
    size (block :: layout) = block.size + size layout := rfl

@[simp] theorem size_append (a b : Layout) : size (a ++ b) = size a + size b := by
  induction a with
  | nil => rw [List.nil_append, size_nil, Int.zero_add]
  | cons block a ih => rw [List.cons_append, size_cons, size_cons, ih, Int.add_assoc]

@[simp] theorem cells_nil (store : List Value) : cells store [] = [] := rfl

@[simp] theorem cells_cons (store : List Value) (block : Block) (layout : Layout) :
    cells store (block :: layout) = block.cells store ++ cells store layout := rfl

@[simp] theorem cells_append (store : List Value) (a b : Layout) :
    cells store (a ++ b) = cells store a ++ cells store b := by
  simp [cells]

/-- The variables are there, each once, and hold values of their types. -/
structure Covers (layout : Layout) (store : List Value) : Prop where
  typed : ∀ ⦃location τ⦄, Block.variable location τ ∈ layout →
    τ.Proper ∧ ∃ value, store[location]? = some value ∧ value.OfType τ
  nodup : (layout.filterMap Block.location?).Nodup

theorem length_cells {layout : Layout} (h : ∀ ⦃location τ⦄, Block.variable location τ ∈ layout →
      ∃ value, store[location]? = some value ∧ value.OfType τ) :
    ((cells store layout).length : Int) = size layout := by
  induction layout with
  | nil => rfl
  | cons block layout ih =>
    have hrest := ih fun location τ hmem => h (List.mem_cons_of_mem _ hmem)
    have hblock : ((block.cells store).length : Int) = block.size := by
      cases block with
      | «variable» location τ =>
        obtain ⟨value, hvalue, htype⟩ := h List.mem_cons_self
        simp [Block.cells, Block.size, hvalue, htype.length_cells]
      | fixed words => simp [Block.cells, Block.size]
    rw [cells_cons, size_cons, List.length_append, Int.natCast_add, hblock, hrest]

theorem Covers.length_cells {layout : Layout} (h : layout.Covers store) :
    ((cells store layout).length : Int) = size layout :=
  Layout.length_cells fun _ _ hmem => (h.typed hmem).2

theorem Covers.mono {a b : Layout} (h : Covers b store) (hsub : a.Sublist b) : Covers a store :=
  ⟨fun _ _ hmem => h.typed (hsub.subset hmem), h.nodup.sublist (hsub.filterMap _)⟩

/-- Blocks without a variable know nothing of it. -/
theorem cells_set {layout : Layout} {location : Nat} {value : Value}
    (h : location ∉ layout.filterMap Block.location?) :
    cells (store.set location value) layout = cells store layout := by
  induction layout with
  | nil => rfl
  | cons block layout ih =>
    have hblock : block.cells (store.set location value) = block.cells store := by
      cases block with
      | «variable» other τ =>
        have hne : location ≠ other := by
          rintro rfl
          exact h (by simp [Block.location?])
        simp [Block.cells, List.getElem?_set_ne hne]
      | fixed words => rfl
    rw [cells_cons, cells_cons, hblock, ih]
    intro hmem
    refine h ?_
    rw [List.filterMap_cons]
    split
    · exact hmem
    · exact List.mem_cons_of_mem _ hmem

end Layout

/-! ## Places -/

/-- A place in a variable is a part of a type at an address. -/
def Place.Lies (place : Place) (layout : Layout) (τ : Ty) (address : Int) : Prop :=
  ∃ location ρ before behind k, place.root = .location location ∧
    layout = before ++ Block.variable location ρ :: behind ∧ ρ.Component place.path τ k ∧
    address = Layout.size before + k

/-- Assigning to a place replaces the words at its address. -/
theorem Place.Lies.assign {place : Place} {layout : Layout} {τ : Ty} {address : Int}
    {value : Value} {s s' : State} {base : List Int} (h : place.Lies layout τ address)
    (hcovers : layout.Covers s.store) (htype : value.OfType τ) (hdefined : value.defined = true)
    (hassign : s.assign place value = some s') (hholds : Holds (layout.cells s.store) base) :
    ∃ before old behind, base = before ++ old ++ behind ∧ old.length = value.words.length ∧
      (before.length : Int) = address ∧ layout.Covers s'.store ∧
      Holds (layout.cells s'.store) (before ++ value.words ++ behind) ∧
      s'.input = s.input ∧ s'.output = s.output := by
  obtain ⟨location, ρ, below, above, k, hroot, rfl, hcomponent, rfl⟩ := h
  obtain ⟨hproper, whole, hwhole, hρ⟩ := hcovers.typed (List.mem_append_right _ List.mem_cons_self)
  obtain ⟨part, before, behind, -, hpart, hcells, rfl, hupdate⟩ := hρ.has hcomponent
  obtain ⟨whole', hwhole', hρ', hcells'⟩ := hupdate value htype
  have hs' : s' = { s with
      store := s.store.set location whole'
      assigned := s.assigned ++ [⟨location, place.path, value⟩] } := by
    simpa [State.assign, hroot, hwhole, hwhole'] using hassign.symm
  have hnodup := hcovers.nodup
  rw [List.filterMap_append, List.filterMap_cons] at hnodup
  simp only [Block.location?] at hnodup
  have hbelow : location ∉ below.filterMap Block.location? := fun hmem =>
    (List.nodup_append.1 hnodup).2.2 _ hmem _ List.mem_cons_self rfl
  have habove : location ∉ above.filterMap Block.location? :=
    (List.nodup_cons.1 (List.nodup_append.1 hnodup).2.1).1
  have hlt : location < s.store.length := (List.getElem?_eq_some_iff.1 hwhole).1
  -- the stack, split where the part begins and where it ends
  have hsplit : Layout.cells s.store (below ++ Block.variable location ρ :: above) =
      (Layout.cells s.store below ++ before) ++ part.cells ++
        (behind ++ Layout.cells s.store above) := by
    simp [Block.cells, hwhole, hcells]
  rw [hsplit] at hholds
  obtain ⟨_, E, rfl, hholds, hE⟩ := holds_append.1 hholds
  obtain ⟨B, old, rfl, hB, hold⟩ := holds_append.1 hholds
  refine ⟨B, old, E, rfl, ?_, ?_, ?_, ?_, by rw [hs'], by rw [hs']⟩
  · have h₁ := hpart.length_cells
    have h₂ := htype.length_words
    rw [hold.length]
    omega
  · have hlength := Layout.Covers.length_cells (hcovers.mono (List.sublist_append_left below _))
    rw [hB.length, List.length_append, Int.natCast_add, hlength]
  · refine ⟨fun other σ hmem => ?_, hcovers.nodup⟩
    obtain ⟨hσ, v, hv, htype'⟩ := hcovers.typed hmem
    refine ⟨hσ, ?_⟩
    rw [hs']
    by_cases heq : location = other
    · subst heq
      have hσρ : σ = ρ := by
        rcases List.mem_append.1 hmem with hmem | hmem
        · exact (hbelow (List.mem_filterMap.2 ⟨_, hmem, rfl⟩)).elim
        · rcases List.mem_cons.1 hmem with hmem | hmem
          · exact (Block.variable.inj hmem).2
          · exact (habove (List.mem_filterMap.2 ⟨_, hmem, rfl⟩)).elim
      subst hσρ
      exact ⟨whole', by simp [hlt], hρ'⟩
    · exact ⟨v, by simp [List.getElem?_set_ne heq, hv], htype'⟩
  · have hcells'' : Layout.cells s'.store (below ++ Block.variable location ρ :: above) =
        (Layout.cells s.store below ++ before) ++ value.words.map some ++
          (behind ++ Layout.cells s.store above) := by
      rw [hs', Layout.cells_append, Layout.cells_cons, Layout.cells_set hbelow,
        Layout.cells_set habove, ← Value.cells_eq hdefined]
      simp [Block.cells, hlt, hcells']
    rw [hcells'']
    exact holds_append.2 ⟨_, E, rfl, holds_append.2 ⟨B, _, rfl, hB, holds_map_some.2 rfl⟩, hE⟩

end Triangle
