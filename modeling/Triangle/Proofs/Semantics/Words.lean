import Triangle.Proofs.Encoding.Sizes
import Triangle.Proofs.Machine.Execution

/-!
# The words of values

How a value lies in the memory of the machine: the words of its parts one after the other, in the
order of the type.  A part that nothing was assigned to takes up its words all the same, but nothing
is known about them; so what a value says about memory is a list of cells, some of which are open.

A path into a type leads to a component at a fixed distance.  For a value of the type there is a
part at the end of the path, and its cells are the ones at that distance.
-/

namespace Triangle

/-! ## Cells -/

mutual

/-- What is known of the words of a value. -/
def Value.cells : Value → List (Option Int)
  | .undefined => [none]
  | .bool b => [some (Machine.truth b)]
  | .char code => [some code]
  | .int n => [some n]
  | .composite parts => parts.cells

/-- What is known of the words of parts. -/
def Parts.cells : Parts → List (Option Int)
  | .nil => []
  | .cons _ value rest => value.cells ++ rest.cells

end

/-- The words of a value that is defined. -/
def Value.words (value : Value) : List Int := value.cells.map (Option.getD · 0)

@[simp] theorem Value.length_words (value : Value) : value.words.length = value.cells.length :=
  List.length_map _

mutual

/-- All words of a value that is defined are known. -/
theorem Value.cells_eq : {value : Value} → value.defined = true → value.cells = value.words.map some
  | .bool _, _ | .char _, _ | .int _, _ => rfl
  | .composite parts, h => by
    have hparts : parts.defined = true := h
    exact Parts.cells_eq hparts

theorem Parts.cells_eq : {parts : Parts} → parts.defined = true →
    parts.cells = (parts.cells.map (Option.getD · 0)).map some
  | .nil, _ => rfl
  | .cons _ value rest, h => by
    obtain ⟨hvalue, hrest⟩ := Bool.and_eq_true_iff.1 h
    rw [Parts.cells, List.map_append, List.map_append, ← Parts.cells_eq hrest, ← Value.words,
      ← Value.cells_eq hvalue]

end

/-! ## Values of a type -/

/-- A number is a word, and so is its negation. -/
def Machine.Bounded (n : Int) : Prop := -Word.greatest ≤ n ∧ n ≤ Word.greatest

mutual

/-- A value has the shape of a type. -/
def Value.OfType : Value → Ty → Prop
  | .undefined => fun τ => τ = .bool ∨ τ = .char ∨ τ = .int
  | .bool _ => fun τ => τ = .bool
  | .char code => fun τ => τ = .char ∧ Machine.Bounded code
  | .int n => fun τ => τ = .int ∧ Machine.Bounded n
  | .composite parts => fun τ =>
    (∃ length of, τ = .array length of ∧ parts.Elements of 0 length) ∨
      ∃ fields, τ = .record fields ∧ parts.OfFields fields

/-- Parts are the elements of an array, from an index up to the length. -/
def Parts.Elements : Parts → Ty → Int → Int → Prop
  | .nil => fun _ start length => start = length
  | .cons selector value rest => fun of start length =>
    selector = .index start ∧ value.OfType of ∧ rest.Elements of (start + 1) length

/-- Parts are the fields of a record, in order. -/
def Parts.OfFields : Parts → Fields → Prop
  | .nil => fun fields => fields = .nil
  | .cons selector value rest => fun fields =>
    ∃ name of others, fields = .cons name of others ∧ selector = .field name ∧ value.OfType of ∧
      rest.OfFields others

end

mutual

theorem Value.OfType.length_cells : {value : Value} → ∀ {τ}, value.OfType τ → (value.cells.length :
    Int) = τ.words
  | .undefined => by
    intro h
    obtain rfl | rfl | rfl := h <;> rfl
  | .bool _ => by
    intro rfl
    rfl
  | .char _ | .int _ => by
    rintro ⟨rfl, -⟩
    rfl
  | .composite parts => by
    intro h
    obtain ⟨length, of, rfl, h⟩ | ⟨fields, rfl, h⟩ := h
    · rw [Value.cells, Ty.words, (Parts.Elements.length_cells h).2, Int.sub_zero]
    · rw [Value.cells, Ty.words, Parts.OfFields.length_cells h]

theorem Parts.Elements.length_cells : {parts : Parts} → {of : Ty} → {start length : Int} →
    parts.Elements of start length →
    start ≤ length ∧ (parts.cells.length : Int) = (length - start) * of.words
  | .nil, _, _, _, h => by
    obtain rfl := h
    simp [Parts.cells]
  | .cons _ value rest, of, start, length, h => by
    obtain ⟨-, hvalue, hrest⟩ := h
    obtain ⟨hle, hlength⟩ := Parts.Elements.length_cells hrest
    refine ⟨by omega, ?_⟩
    rw [Parts.cells, List.length_append, Int.natCast_add, hlength, Value.OfType.length_cells hvalue]
    have hsplit : length - start = (length - (start + 1)) + 1 := by omega
    rw [hsplit, Int.add_mul, Int.one_mul, Int.add_comm]

theorem Parts.OfFields.length_cells : {parts : Parts} → ∀ {fields}, parts.OfFields fields →
    (parts.cells.length : Int) = fields.words
  | .nil => by
    intro rfl
    rfl
  | .cons _ value rest => by
    rintro ⟨name, of, others, rfl, -, hvalue, hrest⟩
    rw [Parts.cells, List.length_append, Int.natCast_add, Value.OfType.length_cells hvalue,
      Parts.OfFields.length_cells hrest, Fields.words]

end

theorem Value.OfType.length_words {value : Value} {τ : Ty} (h : value.OfType τ) :
    (value.words.length : Int) = τ.words := by
  rw [Value.length_words, h.length_cells]

/-! ## What variables hold at first -/

theorem Parts.elements_ofElements {of : Ty} : {values : List Value} → {start : Int} →
    (∀ value ∈ values, value.OfType of) →
    (Parts.ofElements start values).Elements of start (start + values.length)
  | [], start, _ => (Int.add_zero start).symm
  | value :: rest, start, h => by
    refine ⟨rfl, h value List.mem_cons_self, ?_⟩
    have hrest : (Parts.ofElements (start + 1) rest).Elements of (start + 1)
        (start + 1 + rest.length) :=
      Parts.elements_ofElements fun other hother => h other (List.mem_cons_of_mem value hother)
    rwa [Int.add_assoc, Int.add_comm 1, ← Int.natCast_succ] at hrest

mutual

theorem Ty.Proper.ofType_unassigned : {τ : Ty} → τ.Proper → τ.unassigned.OfType τ
  | .bool, _ => .inl rfl
  | .char, _ => .inr (.inl rfl)
  | .int, _ => .inr (.inr rfl)
  | .array length of, h => by
    have hof : ∀ value ∈ List.replicate length.toNat of.unassigned, value.OfType of := by
      intro value hvalue
      rw [(List.mem_replicate.1 hvalue).2]
      exact Ty.Proper.ofType_unassigned h.2
    have helements : (Parts.ofElements 0 (List.replicate length.toNat of.unassigned)).Elements of 0
        (0 + (List.replicate length.toNat of.unassigned).length) := Parts.elements_ofElements hof
    rw [List.length_replicate, Int.toNat_of_nonneg (Int.le_of_lt h.1), Int.zero_add] at helements
    exact .inl ⟨length, of, rfl, helements⟩
  | .record fields, h => .inr ⟨fields, rfl, Fields.Proper.ofFields_unassigned h.2⟩

theorem Fields.Proper.ofFields_unassigned : {fields : Fields} → fields.Proper →
    fields.unassigned.OfFields fields
  | .nil, _ => rfl
  | .cons name of rest, h =>
    ⟨name, of, rest, rfl, rfl, Ty.Proper.ofType_unassigned h.2.1,
      Fields.Proper.ofFields_unassigned h.2.2⟩

end

theorem Parts.mem_cells_ofElements {c : Option Int} : {values : List Value} → {start : Int} →
    c ∈ (Parts.ofElements start values).cells → ∃ value ∈ values, c ∈ value.cells
  | [], _, h => (List.not_mem_nil h).elim
  | value :: rest, _, h => by
    obtain h | h := List.mem_append.1 h
    · exact ⟨value, List.mem_cons_self, h⟩
    · obtain ⟨other, hother, h⟩ := Parts.mem_cells_ofElements h
      exact ⟨other, List.mem_cons_of_mem value hother, h⟩

mutual

/-- Nothing is known of the words of a variable that nothing was assigned to. -/
theorem Ty.eq_none_of_mem_unassigned : {τ : Ty} → ∀ {c}, c ∈ τ.unassigned.cells → c = none
  | .bool | .char | .int | .any | .error => fun h => List.mem_singleton.1 h
  | .array length of => by
    intro h
    obtain ⟨value, hvalue, h⟩ := Parts.mem_cells_ofElements h
    rw [(List.mem_replicate.1 hvalue).2] at h
    exact Ty.eq_none_of_mem_unassigned h
  | .record fields => fun h => Fields.eq_none_of_mem_unassigned h

theorem Fields.eq_none_of_mem_unassigned : {fields : Fields} → ∀ {c}, c ∈ fields.unassigned.cells →
    c = none
  | .nil => fun h => (List.not_mem_nil h).elim
  | .cons _ of rest => by
    intro h
    obtain h | h := List.mem_append.1 h
    · exact Ty.eq_none_of_mem_unassigned h
    · exact Fields.eq_none_of_mem_unassigned h

end

/-! ## Paths -/

namespace Value

theorem part_append (value : Value) (path path' : List Selector) :
    value.part (path ++ path') = value.part path >>= fun inner => inner.part path' := by
  induction path generalizing value with
  | nil => rfl
  | cons selector path ih =>
    rw [List.cons_append, part, part]
    cases value.select selector with
    | none => rfl
    | some inner => exact ih inner

theorem update_append (value new : Value) (path path' : List Selector) :
    value.update (path ++ path') new = (do
      let inner ← value.part path
      value.update path (← inner.update path' new)) := by
  induction path generalizing value with
  | nil => simp [part, update]
  | cons selector path ih =>
    rw [List.cons_append, part, update]
    cases hselect : value.select selector with
    | none => rfl
    | some inner =>
      simp only [Option.bind_eq_bind, Option.bind_some, ih inner, update, hselect,
        Option.bind_assoc]

theorem part_singleton (value : Value) (selector : Selector) :
    value.part [selector] = value.select selector := by
  rw [part]
  cases value.select selector <;> rfl

end Value

/-- A path leads to a component of a type, at a distance in words. -/
inductive Ty.Component (τ : Ty) : List Selector → Ty → Int → Prop
  | whole : Component τ [] τ 0
  | field {path : List Selector} {fields : Fields} {name : String} {σ : Ty} {k offset : Int}
    (record : Component τ path (.record fields) k)
    (field : (Ty.record fields).field name = .ok (some (offset, σ))) :
    Component τ (path ++ [.field name]) σ (k + offset)
  | index {path : List Selector} {σ : Ty} {k length i : Int}
    (array : Component τ path (.array length σ) k) (nonneg : 0 ≤ i) (lt : i < length) :
    Component τ (path ++ [.index i]) σ (k + i * σ.words)

/-- A field lies within the record. -/
theorem Fields.Proper.find_le : {fields : Fields} → ∀ {name before offset σ}, fields.Proper →
    fields.find name before = .ok (some (offset, σ)) → before ≤ offset ∧ offset + σ.words ≤ before +
    fields.words
  | .nil => fun _ h => by cases h
  | .cons x of rest => by
    intro hproper h
    have hrest := (Fields.Proper.words_nonneg hproper.2.2).1
    rw [Fields.words]
    rw [Fields.find] at h
    split at h
    · cases h
      exact ⟨Int.le_refl _, by omega⟩
    · obtain ⟨size, hsize, h⟩ := bind_eq_ok_iff.1 h
      obtain ⟨sum, hsum, h⟩ := bind_eq_ok_iff.1 h
      obtain ⟨-, rfl⟩ := Word.add_eq_ok_iff.1 hsum
      have hof := Ty.Proper.words_pos hproper.2.1
      have ih := Fields.Proper.find_le hproper.2.2 h
      rw [Ty.words_of_size hsize] at ih
      exact ⟨by omega, by omega⟩

/-- A component lies within the type. -/
theorem Ty.Component.le {τ σ : Ty} {path : List Selector} {k : Int} (h : τ.Component path σ k)
    (hτ : τ.Proper) : σ.Proper ∧ 0 ≤ k ∧ k + σ.words ≤ τ.words := by
  induction h with
  | whole => exact ⟨hτ, Int.le_refl 0, by omega⟩
  | field record field ih =>
    obtain ⟨hproper, hnonneg, hle⟩ := ih
    obtain ⟨hbefore, hbehind⟩ := Fields.Proper.find_le hproper.2 field
    rw [Ty.words] at hle
    exact ⟨hproper.2.of_find field, by omega, by omega⟩
  | @index path σ k length i array nonneg lt ih =>
    obtain ⟨hproper, hnonneg, hle⟩ := ih
    have hwords := Ty.Proper.words_pos hproper.2
    have hbefore : 0 ≤ i * σ.words := Int.mul_nonneg nonneg (Int.le_of_lt hwords)
    have hbehind : (i + 1) * σ.words ≤ length * σ.words :=
      Int.mul_le_mul_of_nonneg_right (by omega) (Int.le_of_lt hwords)
    rw [Int.add_mul, Int.one_mul] at hbehind
    rw [Ty.words] at hle
    exact ⟨hproper.2, by omega, by omega⟩

theorem Value.OfType.array {value : Value} {length : Int} {of : Ty}
    (h : value.OfType (.array length of)) :
    ∃ parts, value = .composite parts ∧ parts.Elements of 0 length := by
  cases value with
  | composite parts =>
    obtain ⟨_, _, heq, helements⟩ | ⟨_, heq, -⟩ := h
    · cases heq
      exact ⟨parts, rfl, helements⟩
    · cases heq
  | undefined => obtain heq | heq | heq := h <;> cases heq
  | bool b => cases h
  | char code => cases h.1
  | int n => cases h.1

theorem Value.OfType.record {value : Value} {fields : Fields} (h : value.OfType (.record fields)) :
    ∃ parts, value = .composite parts ∧ parts.OfFields fields := by
  cases value with
  | composite parts =>
    obtain ⟨_, _, heq, -⟩ | ⟨_, heq, hfields⟩ := h
    · cases heq
    · cases heq
      exact ⟨parts, rfl, hfields⟩
  | undefined => obtain heq | heq | heq := h <;> cases heq
  | bool b => cases h
  | char code => cases h.1
  | int n => cases h.1

/-- Parts have one under a selector, of a type and at a distance, which can be replaced while a
property stays. -/
def Parts.Has (parts : Parts) (P : Parts → Prop) (selector : Selector) (σ : Ty) (k : Int) : Prop :=
  ∃ part before behind, parts.select selector = some part ∧ part.OfType σ ∧
    parts.cells = before ++ part.cells ++ behind ∧ (before.length : Int) = k ∧
    ∀ new : Value, new.OfType σ → ∃ parts', parts.replace selector new = some parts' ∧ P parts' ∧
      parts'.cells = before ++ new.cells ++ behind

section

variable {selector other : Selector} {value : Value} {rest : Parts} {P Q : Parts → Prop} {σ : Ty}
  {k : Int}

theorem Parts.Has.imp {parts : Parts} (h : parts.Has Q selector σ k)
    (hP : ∀ parts, Q parts → P parts) :
    parts.Has P selector σ k := by
  obtain ⟨part, before, behind, hselect, hpart, hcells, hk, hreplace⟩ := h
  refine ⟨part, before, behind, hselect, hpart, hcells, hk, fun new hnew => ?_⟩
  obtain ⟨parts', hparts', hQ, hcells'⟩ := hreplace new hnew
  exact ⟨parts', hparts', hP parts' hQ, hcells'⟩

theorem Parts.Has.head (hvalue : value.OfType σ)
    (hP : ∀ new : Value, new.OfType σ → P (.cons selector new rest)) :
    (Parts.cons selector value rest).Has P selector σ 0 := by
  refine ⟨value, [], rest.cells, if_pos rfl, hvalue, rfl, rfl, fun new hnew => ?_⟩
  exact ⟨.cons selector new rest, if_pos rfl, hP new hnew, rfl⟩

theorem Parts.Has.tail (h : rest.Has Q selector σ k) (hne : other ≠ selector)
    (hP : ∀ parts, Q parts → P (.cons other value parts)) :
    (Parts.cons other value rest).Has P selector σ (value.cells.length + k) := by
  obtain ⟨part, before, behind, hselect, hpart, hcells, rfl, hreplace⟩ := h
  refine ⟨part, value.cells ++ before, behind, (if_neg hne).trans hselect, hpart, ?_, by simp, ?_⟩
  · rw [Parts.cells, hcells]
    simp
  · intro new hnew
    obtain ⟨parts', hparts', hQ, hcells'⟩ := hreplace new hnew
    refine ⟨.cons other value parts', ?_, hP parts' hQ, ?_⟩
    · rw [Parts.replace, if_neg hne, hparts']
      rfl
    · rw [Parts.cells, hcells']
      simp

end

/-- A record has its fields. -/
theorem Parts.OfFields.has : {parts : Parts} → {fields : Fields} → {name : String} →
    {before offset : Int} → {σ : Ty} → parts.OfFields fields →
    fields.find name before = .ok (some (offset, σ)) →
    parts.Has (·.OfFields fields) (.field name) σ (offset - before)
  | .nil, _, _, _, _, _, h, hfind => by
    obtain rfl := h
    cases hfind
  | .cons _ value rest, _, name, before, offset, σ, h, hfind => by
    obtain ⟨x, of, others, rfl, rfl, hvalue, hrest⟩ := h
    rw [Fields.find] at hfind
    split at hfind
    · rename_i heq
      cases hfind
      subst heq
      rw [Int.sub_self]
      exact .head hvalue fun new hnew => ⟨x, _, others, rfl, rfl, hnew, hrest⟩
    · rename_i hne
      obtain ⟨size, hsize, hfind⟩ := bind_eq_ok_iff.1 hfind
      obtain ⟨sum, hsum, hfind⟩ := bind_eq_ok_iff.1 hfind
      obtain ⟨-, rfl⟩ := Word.add_eq_ok_iff.1 hsum
      have hhas := Parts.OfFields.has hrest hfind
      have hdistance : offset - before = value.cells.length + (offset - (before + size)) := by
        rw [hvalue.length_cells, Ty.words_of_size hsize]
        omega
      rw [hdistance]
      exact hhas.tail (fun heq => hne (Selector.field.inj heq)) fun parts hparts =>
        ⟨x, of, others, rfl, rfl, hvalue, hparts⟩

/-- An array has its elements. -/
theorem Parts.Elements.has : {parts : Parts} → {of : Ty} → {start length i : Int} →
    parts.Elements of start length → start ≤ i → i < length →
    parts.Has (·.Elements of start length) (.index i) of ((i - start) * of.words)
  | .nil, _, _, _, _, h, hle, hlt => by
    obtain rfl := h
    omega
  | .cons _ value rest, of, start, length, i, h, hle, hlt => by
    obtain ⟨rfl, hvalue, hrest⟩ := h
    obtain rfl | hne := Int.decEq start i |>.em
    · rw [Int.sub_self, Int.zero_mul]
      exact .head hvalue fun new hnew => ⟨rfl, hnew, hrest⟩
    · have hhas := Parts.Elements.has hrest (by omega) hlt
      have hdistance : (i - start) * of.words =
          value.cells.length + (i - (start + 1)) * of.words := by
        rw [hvalue.length_cells, show i - start = 1 + (i - (start + 1)) by omega, Int.add_mul,
          Int.one_mul]
      rw [hdistance]
      exact hhas.tail (fun heq => hne (Selector.index.inj heq)) fun parts hparts =>
        ⟨rfl, hvalue, hparts⟩

/-- A value has a part at the end of a path, of a type and at a distance, which can be replaced
while the value keeps its type. -/
def Value.Has (whole : Value) (τ : Ty) (path : List Selector) (σ : Ty) (k : Int) : Prop :=
  ∃ part before behind, whole.part path = some part ∧ part.OfType σ ∧
    whole.cells = before ++ part.cells ++ behind ∧ (before.length : Int) = k ∧
    ∀ new : Value, new.OfType σ → ∃ whole', whole.update path new = some whole' ∧
      whole'.OfType τ ∧ whole'.cells = before ++ new.cells ++ behind

/-- A part of a part. -/
theorem Value.Has.step {whole : Value} {τ σ ρ : Ty} {path : List Selector} {selector : Selector}
    {k offset : Int} (h : whole.Has τ path σ k)
    (hpart : ∀ part : Value, part.OfType σ → ∃ parts, part = .composite parts ∧
      parts.Has (fun parts => (Value.composite parts).OfType σ) selector ρ offset) :
    whole.Has τ (path ++ [selector]) ρ (k + offset) := by
  obtain ⟨inner, before, behind, hinner, htype, hcells, rfl, hupdate⟩ := h
  obtain ⟨parts, rfl, part, before', behind', hselect, hρ, hcells', rfl, hreplace⟩ := hpart _ htype
  refine ⟨part, before ++ before', behind' ++ behind, ?_, hρ, ?_, by simp, fun new hnew => ?_⟩
  · rw [Value.part_append, hinner]
    exact (Value.part_singleton _ _).trans hselect
  · rw [hcells, Value.cells, hcells']
    simp
  · obtain ⟨parts', hparts', htype', hnew'⟩ := hreplace new hnew
    obtain ⟨whole', hwhole', hτ, hwhole⟩ := hupdate _ htype'
    refine ⟨whole', ?_, hτ, ?_⟩
    · rw [Value.update_append, hinner]
      simp only [Option.bind_eq_bind, Option.bind_some, Value.update, Value.select, hselect,
        Value.replace, hparts', Option.map_some]
      exact hwhole'
    · rw [hwhole, Value.cells, hnew']
      simp

/-- A value has the components of its type. -/
theorem Value.OfType.has {whole : Value} {τ σ : Ty} {path : List Selector} {k : Int}
    (h : whole.OfType τ) (hcomponent : τ.Component path σ k) : whole.Has τ path σ k := by
  induction hcomponent with
  | whole => exact ⟨whole, [], [], rfl, h, by simp, rfl, fun new hnew => ⟨new, rfl, hnew, by simp⟩⟩
  | @field _ fields _ _ _ _ record field ih =>
    refine ih.step fun part hpart => ?_
    obtain ⟨parts, rfl, hfields⟩ := hpart.record
    have hhas := hfields.has field
    rw [Int.sub_zero] at hhas
    exact ⟨parts, rfl, hhas.imp fun parts' hparts' => .inr ⟨fields, rfl, hparts'⟩⟩
  | @index _ σ _ length i array nonneg lt ih =>
    refine ih.step fun part hpart => ?_
    obtain ⟨parts, rfl, helements⟩ := hpart.array
    have hhas := helements.has nonneg lt
    rw [Int.sub_zero] at hhas
    exact ⟨parts, rfl, hhas.imp fun parts' hparts' => .inl ⟨length, σ, rfl, hparts'⟩⟩

/-! ## Equality -/

mutual

/-- A value is known by its cells and its type. -/
theorem Value.OfType.eq_of_cells : {a b : Value} → {τ : Ty} → a.OfType τ → b.OfType τ →
    a.cells = b.cells → a = b
  | .composite parts, b, _, ha, hb, h => by
    obtain ⟨length, of, rfl, hparts⟩ | ⟨fields, rfl, hparts⟩ := ha
    · obtain ⟨parts', rfl, hparts'⟩ := hb.array
      rw [Parts.Elements.eq_of_cells hparts hparts' h]
    · obtain ⟨parts', rfl, hparts'⟩ := hb.record
      rw [Parts.OfFields.eq_of_cells hparts hparts' h]
  | .undefined, b, _, ha, hb, h => by
    cases b with
    | undefined => rfl
    | composite parts => obtain rfl | rfl | rfl := ha <;> simp [Value.OfType] at hb
    | _ => cases h
  | .bool x, b, _, ha, hb, h => by
    obtain rfl := ha
    cases b with
    | bool y =>
      simp only [Value.cells, List.cons.injEq, Option.some.injEq, Machine.truth_inj, and_true] at h
      rw [h]
    | undefined => cases h
    | _ => simp [Value.OfType] at hb
  | .char x, b, _, ha, hb, h => by
    obtain ⟨rfl, -⟩ := ha
    cases b with
    | char y =>
      cases h
      rfl
    | undefined => cases h
    | _ => simp [Value.OfType] at hb
  | .int x, b, _, ha, hb, h => by
    obtain ⟨rfl, -⟩ := ha
    cases b with
    | int y =>
      cases h
      rfl
    | undefined => cases h
    | _ => simp [Value.OfType] at hb

theorem Parts.Elements.eq_of_cells : {a b : Parts} → {of : Ty} → {start length : Int} →
    a.Elements of start length → b.Elements of start length → a.cells = b.cells → a = b
  | .nil, .nil, _, _, _, _, _, _ => rfl
  | .nil, .cons _ _ rest, _, _, _, ha, hb, _ | .cons _ _ rest, .nil, _, _, _, hb, ha, _ => by
    have hle := (Parts.Elements.length_cells hb.2.2).1
    obtain rfl := ha
    omega
  | .cons _ x rest, .cons _ y rest', _, _, _, ha, hb, h => by
    obtain ⟨rfl, hx, hrest⟩ := ha
    obtain ⟨rfl, hy, hrest'⟩ := hb
    have hlength : x.cells.length = y.cells.length := by
      have := hx.length_cells.trans hy.length_cells.symm
      omega
    obtain ⟨hhead, htail⟩ := List.append_inj h hlength
    rw [Value.OfType.eq_of_cells hx hy hhead, Parts.Elements.eq_of_cells hrest hrest' htail]

theorem Parts.OfFields.eq_of_cells : {a b : Parts} → {fields : Fields} → a.OfFields fields →
    b.OfFields fields → a.cells = b.cells → a = b
  | .nil, .nil, _, _, _, _ => rfl
  | .nil, .cons _ _ _, _, ha, hb, _ | .cons _ _ _, .nil, _, hb, ha, _ => by
    obtain ⟨_, _, _, rfl, -⟩ := hb
    cases ha
  | .cons _ x rest, .cons _ y rest', _, ha, hb, h => by
    obtain ⟨name, of, others, rfl, rfl, hx, hrest⟩ := ha
    obtain ⟨_, _, _, heq, rfl, hy, hrest'⟩ := hb
    cases heq
    have hlength : x.cells.length = y.cells.length := by
      have := hx.length_cells.trans hy.length_cells.symm
      omega
    obtain ⟨hhead, htail⟩ := List.append_inj h hlength
    rw [Value.OfType.eq_of_cells hx hy hhead, Parts.OfFields.eq_of_cells hrest hrest' htail]

end

/-- Values of one type are the same if their words are. -/
theorem Value.OfType.equal?_eq {a b : Value} {τ : Ty} {same : Bool} (ha : a.OfType τ)
    (hb : b.OfType τ) (ha' : a.defined = true) (hb' : b.defined = true)
    (h : a.equal? b = some same) : same = decide (a.words = b.words) := by
  have hwords : a.words = b.words ↔ a = b := by
    refine ⟨fun hwords => ha.eq_of_cells hb ?_, fun heq => by rw [heq]⟩
    rw [Value.cells_eq ha', Value.cells_eq hb', hwords]
  have hsame : a.equal? b = some (decide (a = b)) := by
    cases a <;> cases b <;> simp_all [Value.equal?]
  rw [hsame] at h
  cases h
  exact decide_eq_decide.2 hwords.symm

end Triangle
