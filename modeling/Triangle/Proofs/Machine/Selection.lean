import Triangle.Proofs.Machine.Situation

/-!
# Parts of V-names

A V-name stands for a part of a constant or of a variable.  Selecting a field moves the offset of
its access, and a subscript moves the offset or the index.
-/

namespace Triangle

open Machine

variable {Γ : Context} {env : Environment} {entities : NodeMap Entity} {frame : Frame}
  {layout : Layout} {temps : List Int} {s : State} {m : Memory} {device : Device} {step : Step}
  {place place' : Place} {τ : Ty} {assignable : Bool} {access access' : Access}
  {index index' : Int}

/-- A selection adds a selector to the path, and there is a part at its end. -/
theorem State.select_eq_some {selector : Selector} (h : s.select place selector = some place') :
    place' = ⟨place.root, place.path ++ [selector]⟩ ∧
      ∃ whole part, s.contents place.root = some whole ∧
        whole.part (place.path ++ [selector]) = some part := by
  obtain ⟨whole, hwhole, h⟩ := Option.bind_eq_some_iff.1 h
  obtain ⟨part, hpart, h⟩ := Option.bind_eq_some_iff.1 h
  cases h
  exact ⟨rfl, whole, part, hwhole, hpart⟩

/-- The elements of an array have indices within its bounds. -/
theorem Parts.Elements.of_select : {parts : Parts} → {of : Ty} → {start length i : Int} →
    {part : Value} → parts.Elements of start length → parts.select (.index i) = some part →
    start ≤ i ∧ i < length
  | .nil, _, _, _, _, _, _, hselect => by cases hselect
  | .cons _ value rest, of, start, length, i, part, h, hselect => by
    obtain ⟨rfl, -, hrest⟩ := h
    have hle := (Parts.Elements.length_cells hrest).1
    rw [Parts.select] at hselect
    split at hselect
    · rename_i heq
      cases heq
      omega
    · have ih := Parts.Elements.of_select hrest hselect
      omega

namespace Access.Selects

/-- What a name stands for is selected by the entity of the name. -/
theorem ofName (hs : Situation Γ env entities frame layout temps s m) {denotee : Denotee}
    {entity : Entity} {meaning : Meaning} (hτ : τ.Proper)
    (heq : meaning = if assignable then .var τ else .const τ)
    (hlies : denotee.Lies layout meaning entity) :
    ∃ place, (denotee = .variable place ∨
        ∃ value, denotee = .value value ∧ place = ⟨.value value, []⟩) ∧
      Selects layout s place τ assignable ⟨entity, 0, false⟩ 0 := by
  cases hlies with
  | @literal v _ n type simple defined words =>
    cases assignable <;> cases heq
    exact ⟨⟨.value v, []⟩, .inr ⟨v, rfl, rfl⟩, .literal type simple defined words⟩
  | @value v _ before behind type defined split =>
    cases assignable <;> cases heq
    refine ⟨⟨.value v, []⟩, .inr ⟨v, rfl, rfl⟩, .part split (Value.cells_eq defined).symm rfl type
      hτ .whole (.inl rfl) (fun h => ?_) rfl (fun _ => rfl) (Int.le_refl 0) (Int.le_refl 0)⟩
    cases h
  | @«variable» location _ before behind split =>
    cases assignable <;> cases heq
    have hmem : Block.variable location τ ∈ layout := by
      rw [split]
      exact List.mem_append_right _ List.mem_cons_self
    obtain ⟨hproper, whole, hwhole, htype⟩ := hs.covers.typed hmem
    refine ⟨⟨.location location, []⟩, .inl rfl, .part split ?_ hwhole htype hproper .whole
      (.inr rfl) (fun _ => ⟨rfl, location, rfl, rfl⟩) rfl (fun _ => rfl) (Int.le_refl 0)
      (Int.le_refl 0)⟩
    rw [Block.cells, hwhole]
    rfl

/-- A field moves the offset. -/
theorem field {fields : Fields} {name : String} {offset sum : Int}
    (h : Selects layout s place (.record fields) assignable access index)
    (hfield : (Ty.record fields).field name = .ok (some (offset, τ)))
    (hselect : s.select place (.field name) = some place')
    (hsum : Word.add access.offset offset = .ok sum) :
    Selects layout s place' τ assignable { access with offset := sum } index := by
  obtain ⟨-, rfl⟩ := Word.add_eq_ok_iff.1 hsum
  obtain ⟨rfl, -⟩ := State.select_eq_some hselect
  cases h with
  | literal type simple defined words => obtain h | h | h := simple <;> cases h
  | part split cells contents type proper component entity assigns sum direct hoffset nonneg =>
    have hrecord := (component.le proper).1
    have hle := (Fields.Proper.find_le hrecord.2 hfield).1
    refine .part split cells contents type proper (.field component hfield) entity assigns ?_ direct
      ?_ nonneg
    · simp only
      omega
    · simp only
      omega

/-- Subscripts are within bounds, and so is what they select. -/
theorem bounds_index (hs : Situation Γ env entities frame layout temps s m) {length i : Int}
    (h : Selects layout s place (.array length τ) assignable access index)
    (hselect : s.select place (.index i) = some place') :
    0 ≤ i * τ.words ∧ i * τ.words ≤ Word.greatest ∧ 0 ≤ index ∧ 0 ≤ access.offset ∧
      index + i * τ.words ≤ Word.greatest ∧ 0 < τ.words ∧ τ.words ≤ Word.greatest ∧
      0 ≤ i ∧ i < length := by
  obtain ⟨-, whole', part, hwhole', hpart⟩ := State.select_eq_some hselect
  cases h with
  | literal type simple defined words => obtain h | h | h := simple <;> cases h
  | @part _ _ ρ _ _ _ k whole block before behind split cells contents type proper component entity
      assigns sum direct offset nonneg =>
    rw [contents] at hwhole'
    cases hwhole'
    obtain ⟨array, _, _, harray, htype, -⟩ := type.has component
    rw [Value.part_append, harray] at hpart
    rw [Option.bind_eq_bind, Option.bind_some, Value.part_singleton] at hpart
    obtain ⟨parts, rfl, helements⟩ := htype.array
    obtain ⟨hle, hlt⟩ := helements.of_select hpart
    have hcomponent := Ty.Component.index component hle hlt
    obtain ⟨hproper, -, -⟩ := hcomponent.le proper
    obtain ⟨hbefore, hk, hfits, -⟩ :=
      Access.Selects.bounds hs.covers split cells type proper hcomponent
    have hgreatest := hs.size_le
    have hwords := hproper.words_pos
    have hnonneg : 0 ≤ i * τ.words := Int.mul_nonneg hle (Int.le_of_lt hwords)
    obtain ⟨-, hk', -⟩ := component.le proper
    exact ⟨hnonneg, by omega, nonneg, offset, by omega, hwords, by omega, hle, hlt⟩

/-- A subscript moves the offset or the index. -/
theorem element {length i : Int}
    (h : Selects layout s place (.array length τ) assignable access index)
    (hselect : s.select place (.index i) = some place') (hle : 0 ≤ i) (hlt : i < length)
    (hentity : access'.entity = access.entity)
    (hsum : access'.offset + index' = access.offset + index + i * τ.words)
    (hdirect : access'.indexed = false → index' = 0) (hoffset : 0 ≤ access'.offset)
    (hindex : 0 ≤ index') :
    Selects layout s place' τ assignable access' index' := by
  obtain ⟨rfl, -⟩ := State.select_eq_some hselect
  cases h with
  | literal type simple defined words => obtain h | h | h := simple <;> cases h
  | part split cells contents type proper component entity assigns sum direct offset nonneg =>
    rw [← hentity] at entity assigns
    exact .part split cells contents type proper (.index component hle hlt) entity assigns
      (by rw [hsum, sum]) hdirect hoffset hindex

end Access.Selects

/-- Scaling a subscript and adding it to the index before it. -/
theorem performs_scale (hm : Conforms device step) (m : Memory) {element i : Int}
    (hdirect : access.indexed = false → index = 0)
    (hnonneg : 0 ≤ i * element) (hgreatest : i * element ≤ Word.greatest) (hindex : 0 ≤ index)
    (hsum : index + i * element ≤ Word.greatest) :
    Performs step (scaleCode element access.indexed) ((access.after index m).push [i])
      (m.push [index + i * element]) := by
  have hscale : ∀ m : Memory, Performs step
      (if element ≠ 1 then literalCode element ++ primitiveCode .mult else []) (m.push [i])
      (m.push [i * element]) := by
    intro m
    split
    · have hword : Primitive.result? .mult i element = some (i * element) :=
        word?_of_le (by simp only [Word.greatest] at *; omega) hgreatest
      have h := (hm.loadl (m.push [i]) element).performs
      rw [Memory.push_push] at h
      exact h.append (hm.call _ _ .mult (.result m hword)).performs
    · rename_i heq
      rw [not_not.1 heq, Int.mul_one]
      exact .nil _
  cases hindexed : access.indexed with
  | false =>
    rw [Access.after, hindexed, hdirect hindexed, Int.zero_add, scaleCode]
    simpa using hscale m
  | true =>
    rw [Access.after, hindexed, scaleCode]
    simp only [if_true]
    refine (hscale _).append ?_
    rw [Memory.push_push]
    exact performs_add hm m (by omega) hsum

end Triangle
