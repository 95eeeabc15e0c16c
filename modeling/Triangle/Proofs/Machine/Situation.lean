import Triangle.Proofs.Encoding.Entities
import Triangle.Proofs.Machine.Layout

/-!
# Names and V-names while code runs

`Situation` relates the state of a program to the memory of the machine at a point of the code: the
names in the context stand for what their entities say, the stack consists of the blocks of the
layout and some words above them, and both sides agree on input and output.  `Access.Selects` says
the same of a V-name whose subscripts have been computed, and the code that fetches from it, stores
into it or pushes its address does so.
-/

namespace Triangle

open Machine

/-! ## Situations -/

/-- What a name stands for is where its entity says. -/
inductive Denotee.Lies (layout : Layout) : Denotee → Meaning → Entity → Prop
  | literal {v : Value} {τ : Ty} {n : Int} (type : v.OfType τ) (simple : τ.Simple)
    (defined : v.defined = true) (words : v.words = [n]) :
    Lies layout (.value v) (.const τ) (.knownValue n)
  | value {value : Value} {τ : Ty} {before behind : Layout} (type : value.OfType τ)
    (defined : value.defined = true) (split : layout = before ++ .fixed value.words :: behind) :
    Lies layout (.value value) (.const τ) (.unknownValue ⟨0, before.size⟩)
  | «variable» {location : Nat} {τ : Ty} {before behind : Layout}
    (split : layout = before ++ .variable location τ :: behind) :
    Lies layout (.variable ⟨.location location, []⟩) (.var τ) (.knownAddress ⟨0, before.size⟩)

variable {meaning : Meaning} {τ : Ty} {code : List Instruction} {frame' : Frame} {index : Int}
  {place : Place} {value : Value}

theorem Denotee.Lies.append {layout : Layout} {denotee : Denotee} {entity : Entity}
    (h : denotee.Lies layout meaning entity) (more : Layout) :
    denotee.Lies (layout ++ more) meaning entity := by
  cases h with
  | literal type simple defined words => exact .literal type simple defined words
  | value type defined split =>
    subst split
    exact .value type defined (by rw [List.append_assoc, List.cons_append])
  | «variable» split =>
    subst split
    exact .variable (by rw [List.append_assoc, List.cons_append])

/-- The state of a program and the memory of the machine go together. -/
structure Situation (Γ : Context) (env : Environment) (entities : NodeMap Entity) (frame : Frame)
    (layout : Layout) (temps : List Int) (s : State) (m : Memory) : Prop where
  proper : Γ.Proper
  names : ∀ ⦃id meaning⦄, Γ id = some meaning → (∃ τ, meaning = .type τ) ∨
    ∃ denotee, env.find? id = some denotee ∧ denotee.Lies layout meaning (entities.entity id)
  covers : layout.Covers s.store
  frame_eq : frame = ⟨0, layout.size + temps.length⟩
  fits : frame.size ≤ Word.greatest
  stack : ∃ base, m.stack = base ++ temps ∧ Holds (layout.cells s.store) base
  input : m.input = s.input
  output : m.output = s.output

section

variable {A : Annotations} {Γ : Context} {env : Environment} {entities : NodeMap Entity}
  {frame above : Frame} {layout : Layout} {temps words : List Int} {s s' : State} {m : Memory}
  {device : Device} {step : Step}

theorem Machine.Memory.push_push (m : Memory) (a b : List Int) :
    (m.push a).push b = m.push (a ++ b) := by
  simp [Memory.push]

@[simp] theorem Machine.Memory.push_nil (m : Memory) : m.push [] = m := by
  simp [Memory.push]

theorem Situation.push (h : Situation Γ env entities frame layout temps s m) {size : Int}
    (hwords : (words.length : Int) = size) (habove : frame.expand size = .ok above) :
    Situation Γ env entities above layout (temps ++ words) s (m.push words) := by
  subst hwords
  obtain ⟨rfl, hfits⟩ := Frame.expand_eq habove
  obtain ⟨base, hstack, hholds⟩ := h.stack
  refine ⟨h.proper, h.names, h.covers, ?_, hfits, ⟨base, ?_, hholds⟩, h.input, h.output⟩
  · simp [h.frame_eq]
    omega
  · simp [Memory.push, hstack]

/-- Only what the declarations in the context stand for matters. -/
theorem Situation.congr {entities' : NodeMap Entity}
    (h : Situation Γ env entities frame layout temps s m)
    (heq : ∀ ⦃id⦄, Γ id ≠ none → entities'.get? id = entities.get? id) :
    Situation Γ env entities' frame layout temps s m := by
  refine ⟨h.proper, fun id meaning hid => ?_, h.covers, h.frame_eq, h.fits, h.stack, h.input,
    h.output⟩
  have hentity : entities'.entity id = entities.entity id := by
    rw [NodeMap.entity, NodeMap.entity, heq (by rw [hid]; exact Option.some_ne_none _)]
  rw [hentity]
  exact h.names hid

theorem Situation.grows {p q : Draft} (h : Situation Γ env p.entities frame layout temps s m)
    (hgrows : p.Grows Γ q) : Situation Γ env q.entities frame layout temps s m :=
  h.congr hgrows.entities

theorem Situation.shrinks {p q : Draft} (h : Situation Γ env q.entities frame layout temps s m)
    (hgrows : p.Grows Γ q) : Situation Γ env p.entities frame layout temps s m :=
  h.congr fun _ hid => (hgrows.entities hid).symm

/-- The words above the blocks were pushed. -/
theorem Situation.pop (h : Situation Γ env entities above layout (temps ++ words) s m) :
    ∃ m', m = m'.push words ∧
      Situation Γ env entities ⟨0, layout.size + temps.length⟩ layout temps s m' := by
  obtain ⟨base, hstack, hholds⟩ := h.stack
  refine ⟨{ m with stack := base ++ temps }, ?_, h.proper, h.names, h.covers, rfl, ?_,
    ⟨base, rfl, hholds⟩, h.input, h.output⟩
  · rw [Memory.push, List.append_assoc, ← hstack]
  · have hfits := h.fits
    rw [h.frame_eq, List.length_append] at hfits
    push_cast at hfits
    simp only at hfits ⊢
    omega

/-- A declaration makes a name stand for something. -/
theorem Situation.bind (h : Situation Γ env entities frame layout temps s m) {id : NodeId}
    {denotee : Denotee} {entity : Entity} (hmeaning : meaning.Proper)
    (hlies : denotee.Lies layout meaning entity) :
    Situation (Γ.bind id meaning) (.bind id denotee env) (entities.insert id entity) frame layout
      temps s m := by
  refine ⟨h.proper.bind hmeaning, fun other meaning' hother => ?_, h.covers, h.frame_eq, h.fits,
    h.stack, h.input, h.output⟩
  obtain ⟨rfl, rfl⟩ | ⟨hne, hother⟩ := Context.bind_eq_some hother
  · exact .inr ⟨denotee, if_pos rfl, by rwa [NodeMap.entity_insert_self]⟩
  · refine (h.names hother).imp_right fun ⟨denotee', hfind, hlies'⟩ => ⟨denotee', ?_, ?_⟩
    · rw [Environment.find?, if_neg hne, hfind]
    · rwa [NodeMap.entity, NodeMap.get?_insert, if_neg hne]

/-- A declaration makes a name stand for a type. -/
theorem Situation.bindType (h : Situation Γ env entities frame layout temps s m) {id : NodeId}
    (hτ : τ.Proper) : Situation (Γ.bind id (.type τ)) env entities frame layout temps s m := by
  refine ⟨h.proper.bind hτ, fun other meaning' hother => ?_, h.covers, h.frame_eq, h.fits,
    h.stack, h.input, h.output⟩
  obtain ⟨-, rfl⟩ | ⟨-, hother⟩ := Context.bind_eq_some hother
  · exact .inl ⟨τ, rfl⟩
  · exact h.names hother

theorem Layout.Covers.lt {store : List Value} {location : Nat} (h : layout.Covers store)
    (hmem : Block.variable location τ ∈ layout) : location < store.length := by
  obtain ⟨-, _, hvalue, -⟩ := h.typed hmem
  exact (List.getElem?_eq_some_iff.1 hvalue).1

/-- Stores that agree on the variables in some blocks tell the same about them. -/
theorem Layout.cells_congr {store other : List Value}
    (h : ∀ ⦃location τ⦄, Block.variable location τ ∈ layout → other[location]? = store[location]?) :
    layout.cells other = layout.cells store := by
  induction layout with
  | nil => rfl
  | cons block layout ih =>
    rw [cells_cons, cells_cons, ih fun location τ hmem => h (List.mem_cons_of_mem _ hmem)]
    cases block with
    | «variable» location τ => rw [Block.cells, Block.cells, h List.mem_cons_self]
    | fixed words => rfl

/-- Blocks stay covered if the store keeps their variables. -/
theorem Layout.Covers.congr {store other : List Value} (hcovers : layout.Covers store)
    (h : ∀ ⦃location τ⦄, Block.variable location τ ∈ layout → other[location]? = store[location]?) :
    layout.Covers other :=
  ⟨fun _ _ hmem => by rw [h hmem]; exact hcovers.typed hmem, hcovers.nodup⟩

/-- Room for a variable. -/
theorem Situation.allocate (h : Situation Γ env entities frame layout [] s m) (hτ : τ.Proper)
    (hwords : (words.length : Int) = τ.words) (habove : frame.expand words.length = .ok above) :
    Situation Γ env entities above (layout ++ [.variable s.store.length τ]) []
      (s.allocate τ.unassigned) (m.push words) := by
  have hkept : ∀ ⦃location σ⦄, Block.variable location σ ∈ layout →
      (s.store ++ [τ.unassigned])[location]? = s.store[location]? := fun location σ hmem =>
    List.getElem?_append_left (h.covers.lt hmem)
  have hcovers := h.covers.congr hkept
  obtain ⟨rfl, hfits⟩ := Frame.expand_eq habove
  obtain ⟨base, hstack, hholds⟩ := h.stack
  refine ⟨h.proper, fun id meaning hid => ?_, ⟨fun location σ hmem => ?_, ?_⟩, ?_, hfits,
    ⟨base ++ words, ?_, ?_⟩, h.input, h.output⟩
  · exact (h.names hid).imp_right fun ⟨denotee, hfind, hlies⟩ => ⟨denotee, hfind, hlies.append _⟩
  · rcases List.mem_append.1 hmem with hmem | hmem
    · exact hcovers.typed hmem
    · cases List.mem_singleton.1 hmem
      exact ⟨hτ, τ.unassigned, List.getElem?_concat_length, hτ.ofType_unassigned⟩
  · rw [List.filterMap_append]
    refine List.nodup_append.2 ⟨h.covers.nodup, List.pairwise_singleton _ _, ?_⟩
    intro a ha b hb heq
    obtain ⟨block, hmem, hblock⟩ := List.mem_filterMap.1 ha
    cases block with
    | «variable» location σ =>
      cases hblock
      rw [heq, List.mem_singleton.1 hb] at hmem
      exact absurd (h.covers.lt hmem) (Nat.lt_irrefl _)
    | fixed words => cases hblock
  · simp [h.frame_eq, Block.size, hwords]
  · simp [Memory.push, hstack]
  · rw [Layout.cells_append]
    refine holds_append.2 ⟨base, words, rfl, ?_, ?_⟩
    · rw [State.allocate, Layout.cells_congr hkept]
      exact hholds
    · -- nothing is known of the words of the new variable
      simp only [State.allocate, Layout.cells_cons, Layout.cells_nil, List.append_nil, Block.cells,
        List.getElem?_concat_length, Option.getD_some]
      have hlength := hτ.ofType_unassigned.length_cells
      refine List.forall₂_iff_get.2 ⟨by omega, fun i hi hi' n hn => ?_⟩
      rw [Ty.eq_none_of_mem_unassigned (List.get_mem _ _)] at hn
      cases hn

/-- The variables and constants of a block are given up. -/
theorem Situation.release {Δ : Context} {inner : Environment} {entities' : NodeMap Entity}
    {m' : Memory} {new : Layout} (h : Situation Γ env entities frame layout [] s m)
    (h' : Situation Δ inner entities' above (layout ++ new) [] s' m') :
    ∃ m'' words, m' = m''.push words ∧ (words.length : Int) = new.size ∧
      Situation Γ env entities frame layout [] (s'.release s.store.length) m'' := by
  have hkept : ∀ ⦃location σ⦄, Block.variable location σ ∈ layout →
      (s'.store.take s.store.length)[location]? = s'.store[location]? := fun location σ hmem =>
    List.getElem?_take_of_lt (h.covers.lt hmem)
  obtain ⟨base, hstack, hholds⟩ := h'.stack
  rw [Layout.cells_append] at hholds
  obtain ⟨B, E, rfl, hB, hE⟩ := holds_append.1 hholds
  have hcovers := h'.covers.mono (List.sublist_append_left layout new)
  have hnew := h'.covers.mono (List.sublist_append_right layout new)
  refine ⟨{ m' with stack := B }, E, ?_, ?_, h.proper, h.names, hcovers.congr hkept, h.frame_eq,
    h.fits, ⟨B, by simp, ?_⟩, h'.input, h'.output⟩
  · rw [List.append_nil] at hstack
    rw [Memory.push, ← hstack]
  · rw [hE.length, hnew.length_cells]
  · rw [State.release, Layout.cells_congr hkept]
    exact hB

/-- The words above the blocks become a block. -/
theorem Situation.fix (h : Situation Γ env entities frame layout temps s m) :
    Situation Γ env entities frame (layout ++ [.fixed temps]) [] s m := by
  obtain ⟨base, hstack, hholds⟩ := h.stack
  refine ⟨h.proper, fun id meaning hid => ?_, ⟨fun location τ hmem => ?_, ?_⟩, ?_, h.fits,
    ⟨base ++ temps, by simp [hstack], ?_⟩, h.input, h.output⟩
  · rcases h.names hid with htype | ⟨denotee, hfind, hlies⟩
    · exact .inl htype
    · exact .inr ⟨denotee, hfind, hlies.append _⟩
  · rcases List.mem_append.1 hmem with hmem | hmem
    · exact h.covers.typed hmem
    · simp at hmem
  · rw [List.filterMap_append]
    exact (List.append_nil _).symm ▸ h.covers.nodup
  · simp [h.frame_eq, Block.size]
  · rw [Layout.cells_append]
    exact holds_append.2 ⟨base, temps, rfl, hholds, by simp [Block.cells, holds_map_some]⟩

/-- The next word lies above all blocks. -/
theorem Situation.top (h : Situation Γ env entities frame layout [] s m) :
    frame.top = ⟨0, layout.size⟩ := by
  simp [Frame.top, h.frame_eq]

theorem Situation.size_le (h : Situation Γ env entities frame layout temps s m) :
    layout.size ≤ Word.greatest := by
  have hfits := h.fits
  rw [h.frame_eq] at hfits
  simp only at hfits
  omega

/-- What a constant or a variable stands for. -/
theorem Situation.name (h : Situation Γ env entities frame layout temps s m) {name : Terminal}
    (hmeans : A.Means Γ name meaning) (hmeaning : ∃ τ, meaning = .const τ ∨ meaning = .var τ) :
    ∃ denotee, A.denotee? env name = some denotee ∧
      denotee.Lies layout meaning (A.entityOf entities name) := by
  obtain ⟨referent, hreferent, hmeaning'⟩ := hmeans
  cases referent with
  | node id =>
    rcases h.names hmeaning' with ⟨τ, rfl⟩ | ⟨denotee, hfind, hlies⟩
    · obtain ⟨_, hmeaning | hmeaning⟩ := hmeaning <;> cases hmeaning
    · rw [Annotations.entityOf_node hreferent]
      exact ⟨denotee, by rw [Annotations.denotee?, hreferent]; exact hfind, hlies⟩
  | standard declaration =>
    rw [Annotations.entityOf_standard hreferent]
    obtain ⟨τ, rfl | rfl⟩ := hmeaning
    · cases declaration <;> cases hmeaning'
      · exact ⟨.value (.bool false), by rw [Annotations.denotee?, hreferent]; rfl,
          .literal rfl (.inl rfl) rfl rfl⟩
      · exact ⟨.value (.bool true), by rw [Annotations.denotee?, hreferent]; rfl,
          .literal rfl (.inl rfl) rfl rfl⟩
      · exact ⟨.value (.int Machine.maxint), by rw [Annotations.denotee?, hreferent]; rfl,
          .literal ⟨rfl, by simp [Bounded, Machine.maxint, Word.greatest]⟩ (.inr (.inr rfl)) rfl
            rfl⟩
    · cases declaration <;> cases hmeaning'

/-! ## Parts of entities -/

/-- A V-name that stands for a place has been given an access, whose index is on the stack if it
has one. -/
inductive Access.Selects (layout : Layout) (s : State) : Place → Ty → Bool → Access → Int → Prop
  | literal {value : Value} {τ : Ty} {n : Int} (type : value.OfType τ) (simple : τ.Simple)
    (defined : value.defined = true) (words : value.words = [n]) :
    Selects layout s ⟨.value value, []⟩ τ false ⟨.knownValue n, 0, false⟩ 0
  | part {place : Place} {τ ρ : Ty} {assignable : Bool} {access : Access} {index k : Int}
    {whole : Value} {block : Block} {before behind : Layout}
    (split : layout = before ++ block :: behind) (cells : block.cells s.store = whole.cells)
    (contents : s.contents place.root = some whole) (type : whole.OfType ρ) (proper : ρ.Proper)
    (component : ρ.Component place.path τ k)
    (entity : access.entity = .unknownValue ⟨0, before.size⟩ ∨
      access.entity = .knownAddress ⟨0, before.size⟩)
    (assigns : assignable = true → access.entity = .knownAddress ⟨0, before.size⟩ ∧
      ∃ location, place.root = .location location ∧ block = .variable location ρ)
    (sum : access.offset + index = k) (direct : access.indexed = false → index = 0)
    (offset : 0 ≤ access.offset) (nonneg : 0 ≤ index) :
    Selects layout s place τ assignable access index

/-- The memory when an access has been computed. -/
def Access.after (access : Access) (index : Int) (m : Memory) : Memory :=
  if access.indexed then m.push [index] else m

theorem display?_main (frame : Frame) (d : Int) : frame.display? ⟨0, d⟩ = some .sb := rfl

theorem performs_add (hm : Conforms device step) (m : Memory) {a b : Int}
    (hleast : 0 ≤ a + b) (hgreatest : a + b ≤ Word.greatest) :
    Performs step (primitiveCode .add) (m.push [a, b]) (m.push [a + b]) := by
  have hword : Primitive.result? .add a b = some (a + b) :=
    word?_of_le (by simp only [Word.greatest] at *; omega) hgreatest
  exact (hm.call _ _ .add (.result m hword)).performs

theorem Layout.Covers.size_nonneg {store : List Value} (h : layout.Covers store) :
    0 ≤ layout.size := by
  rw [← h.length_cells]
  exact Int.natCast_nonneg _

/-- Where the part that an access selects lies in a stack. -/
theorem Access.Selects.bounds {path : List Selector} {ρ : Ty} {k : Int} {whole : Value}
    {block : Block} {before behind : Layout} (hcovers : layout.Covers s.store)
    (split : layout = before ++ block :: behind) (cells : block.cells s.store = whole.cells)
    (type : whole.OfType ρ) (proper : ρ.Proper) (component : ρ.Component path τ k) :
    0 ≤ before.size ∧ 0 ≤ k ∧ before.size + k + τ.words ≤ layout.size ∧
      ((Layout.cells s.store before).length : Int) = before.size := by
  subst split
  have hbefore := hcovers.mono (List.sublist_append_left before (block :: behind))
  have hbehind : Layout.Covers behind s.store := hcovers.mono
    ((List.sublist_cons_self block behind).trans (List.sublist_append_right before _))
  have hcells := hcovers.length_cells
  obtain ⟨-, hk, hle⟩ := component.le proper
  rw [Layout.cells_append, Layout.cells_cons, List.length_append, List.length_append,
    cells] at hcells
  have h₁ := hbefore.length_cells
  have h₂ := hbehind.length_cells
  have h₃ := type.length_cells
  refine ⟨hbefore.size_nonneg, hk, ?_, h₁⟩
  have h₄ := hbehind.size_nonneg
  push_cast at hcells
  omega

/-- Fetching pushes the value at the place. -/
theorem Access.Selects.fetch (hm : Conforms device step) {assignable : Bool} {access : Access}
    (h : Selects layout s place τ assignable access index)
    (hs : Situation Γ env entities frame layout temps s m) (hfetch : s.fetch place = some value)
    (hcode : access.Fetched τ.words frame' code) :
    Performs step code (access.after index m) (m.push value.words) ∧ value.OfType τ ∧
      value.defined = true := by
  obtain ⟨-, hcode⟩ := hcode
  cases h with
  | @literal v _ n type simple defined words =>
    obtain rfl : code = literalCode n := hcode
    obtain rfl : v = value := by
      simpa [State.fetch, State.contents, Value.part, defined] using hfetch
    refine ⟨?_, type, defined⟩
    rw [words]
    exact (hm.loadl m n).performs
  | @part _ _ ρ _ _ _ k whole block before behind split cells contents type proper component entity
      _ sum direct _ _ =>
    obtain ⟨part, front, rest, hpart, hτ, hcells, hk, -⟩ := type.has component
    obtain ⟨rfl, hdefined⟩ : part = value ∧ part.defined = true := by
      simp only [State.fetch, contents, hpart, Option.bind_eq_bind, Option.bind_some] at hfetch
      split at hfetch
      · exact ⟨Option.some.inj hfetch, ‹_›⟩
      · cases hfetch
    refine ⟨?_, hτ, hdefined⟩
    obtain ⟨hnonneg, hk0, hle, hlength⟩ :=
      Access.Selects.bounds hs.covers split cells type proper component
    have hgreatest := hs.size_le
    have hwords := hτ.length_words
    obtain ⟨base, hstack, hholds⟩ := hs.stack
    -- the words of the part lie between two stretches of the stack, whose lengths are known
    have hsplit : layout.cells s.store = (Layout.cells s.store before ++ front) ++
        part.words.map some ++ (rest ++ Layout.cells s.store behind) := by
      rw [split, ← Value.cells_eq hdefined]
      simp [cells, hcells]
    rw [hsplit] at hholds
    obtain ⟨_, E, rfl, hholds, hE⟩ := holds_append.1 hholds
    obtain ⟨B, _, rfl, hB, hold⟩ := holds_append.1 hholds
    obtain rfl := holds_map_some.1 hold
    have hBlength : (B.length : Int) = before.size + k := by
      rw [hB.length, List.length_append, Int.natCast_add, hlength, hk]
    have hstack' : m.stack = B ++ part.words ++ (E ++ temps) := by
      rw [hstack, List.append_assoc]
    have hmoved : access.Moved .load .loadi ⟨0, before.size⟩ τ.words frame' code := by
      rcases entity with entity | entity <;> rw [entity] at hcode <;> exact hcode
    obtain ⟨register, displacement, hregister, hdisplacement, hcode⟩ := hmoved
    rw [display?_main] at hregister
    cases hregister
    obtain ⟨-, rfl⟩ := Word.add_eq_ok_iff.1 hdisplacement
    cases hindexed : access.indexed with
    | false =>
      have hoffset : before.size + access.offset = B.length := by
        have := direct hindexed
        omega
      rw [hindexed] at hcode
      simp only [Bool.false_eq_true, if_false] at hcode
      rw [Access.after, hindexed, hcode, ← hwords, hoffset]
      exact (hm.load m B part.words _ hstack').performs
    | true =>
      have hsum : index + (before.size + access.offset) = B.length := by omega
      rw [hindexed] at hcode
      simp only [if_true] at hcode
      rw [Access.after, hindexed, hcode, ← hwords]
      simp only [if_true]
      have h₁ := (hm.loada (m.push [index]) (before.size + access.offset)).performs
      rw [Memory.push_push] at h₁
      have h₂ := performs_add hm m (a := index) (b := before.size + access.offset)
        (by omega) (by omega)
      rw [hsum] at h₂
      exact (h₁.append h₂).append (hm.loadi m B part.words _ hstack').performs

/-- Pushing the address of a place in a variable. -/
theorem Access.Selects.address (hm : Conforms device step) {access : Access}
    (h : Selects layout s place τ true access index)
    (hs : Situation Γ env entities frame layout temps s m) (hτ : 0 < τ.words)
    (hcode : access.Addressed frame' code) :
    ∃ address, place.Lies layout τ address ∧
      Performs step code (access.after index m) (m.push [address]) := by
  cases h with
  | @part _ _ ρ _ _ _ k whole block before behind split cells contents type proper component _
      assigns sum direct _ _ =>
    obtain ⟨hentity, location, hroot, rfl⟩ := assigns rfl
    obtain ⟨hnonneg, hk0, hle, -⟩ :=
      Access.Selects.bounds hs.covers split cells type proper component
    have hgreatest := hs.size_le
    refine ⟨before.size + k, ⟨location, ρ, before, behind, k, hroot, split, component, rfl⟩, ?_⟩
    rw [Access.Addressed, hentity] at hcode
    obtain ⟨register, displacement, hregister, hdisplacement, rfl⟩ := hcode
    rw [display?_main] at hregister
    cases hregister
    obtain ⟨-, rfl⟩ := Word.add_eq_ok_iff.1 hdisplacement
    cases hindexed : access.indexed with
    | false =>
      have hoffset : before.size + access.offset = before.size + k := by
        have := direct hindexed
        omega
      simp only [Access.after, hindexed, hoffset, Bool.false_eq_true, if_false, List.append_nil]
      exact (hm.loada m _).performs
    | true =>
      have hsum : index + (before.size + access.offset) = before.size + k := by omega
      simp only [Access.after, hindexed, if_true]
      have h₁ := (hm.loada (m.push [index]) (before.size + access.offset)).performs
      rw [Memory.push_push] at h₁
      have h₂ := performs_add hm m (a := index) (b := before.size + access.offset)
        (by omega) (by omega)
      rw [hsum] at h₂
      exact h₁.append h₂

/-- Assigning to a place, on both sides. -/
theorem Situation.assign (hs : Situation Γ env entities frame layout temps s m) {address : Int}
    (hlies : place.Lies layout τ address) (htype : value.OfType τ) (hdefined : value.defined = true)
    (hassign : s.assign place value = some s') :
    ∃ before old behind, m.stack = before ++ old ++ behind ∧ old.length = value.words.length ∧
      (before.length : Int) = address ∧
      Situation Γ env entities frame layout temps s'
        { m with stack := before ++ value.words ++ behind } := by
  obtain ⟨base, hstack, hholds⟩ := hs.stack
  obtain ⟨before, old, behind, rfl, hold, haddress, hcovers, hholds', hinput, houtput⟩ :=
    hlies.assign hs.covers htype hdefined hassign hholds
  refine ⟨before, old, behind ++ temps, by rw [hstack, List.append_assoc], hold, haddress,
    ⟨hs.proper, hs.names, hcovers, hs.frame_eq, hs.fits, ⟨_, ?_, hholds'⟩, ?_, ?_⟩⟩
  · simp
  · rw [hinput]
    exact hs.input
  · rw [houtput]
    exact hs.output

/-- Storing into a place. -/
theorem Access.Selects.store (hm : Conforms device step) {access : Access}
    (h : Selects layout s place τ true access index)
    (hs : Situation Γ env entities frame layout temps s m) (htype : value.OfType τ)
    (hdefined : value.defined = true) (hassign : s.assign place value = some s') (hτ : 0 < τ.words)
    (hcode : access.Stored τ.words frame' code) :
    ∃ m', Performs step code (access.after index (m.push value.words)) m' ∧
      Situation Γ env entities frame layout temps s' m' := by
  obtain ⟨-, hcode⟩ := hcode
  cases h with
  | @part _ _ ρ _ _ _ k whole block before behind split cells contents type proper component _
      assigns sum direct _ _ =>
    obtain ⟨hentity, location, hroot, rfl⟩ := assigns rfl
    obtain ⟨hnonneg, hk0, hle, -⟩ :=
      Access.Selects.bounds hs.covers split cells type proper component
    have hgreatest := hs.size_le
    have hwords := htype.length_words
    -- the old words of the part are replaced by as many new ones
    obtain ⟨B, old, E, hstack, hold, haddress, hs'⟩ := hs.assign
      ⟨location, ρ, before, behind, k, hroot, split, component, rfl⟩ htype hdefined hassign
    refine ⟨_, ?_, hs'⟩
    rw [hentity] at hcode
    obtain ⟨register, displacement, hregister, hdisplacement, hcode⟩ := hcode
    rw [display?_main] at hregister
    cases hregister
    obtain ⟨-, rfl⟩ := Word.add_eq_ok_iff.1 hdisplacement
    cases hindexed : access.indexed with
    | false =>
      have hoffset : before.size + access.offset = B.length := by
        have := direct hindexed
        omega
      rw [hindexed] at hcode
      simp only [Bool.false_eq_true, if_false] at hcode
      rw [Access.after, hindexed, hcode, ← hwords, hoffset]
      exact (hm.store m B old E value.words hstack hold).performs
    | true =>
      have hsum : index + (before.size + access.offset) = B.length := by omega
      rw [hindexed] at hcode
      simp only [if_true] at hcode
      rw [Access.after, hindexed, hcode, ← hwords]
      simp only [if_true]
      have h₁ := (hm.loada ((m.push value.words).push [index])
        (before.size + access.offset)).performs
      rw [Memory.push_push _ [index]] at h₁
      have h₂ := performs_add hm (m.push value.words) (a := index)
        (b := before.size + access.offset) (by omega) (by omega)
      rw [hsum] at h₂
      exact (h₁.append h₂).append (hm.storei m B old E value.words hstack hold).performs

end

end Triangle
