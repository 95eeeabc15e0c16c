import Triangle.Proofs.Encoding.Sizes

/-!
# Fields tile their record

The size of a record and the offsets of its fields are computed by two loops, in word arithmetic.
Neither overflows if the exact size of the record is a word, since no sum that is formed on the way
exceeds the last one.  So the fields lie side by side from the first word of the record to the last.
-/

namespace Triangle

mutual

/-- Neither `any` nor `error` occurs in a type, and its arrays have elements. -/
def Ty.Solid : Ty → Prop
  | .bool | .char | .int => True
  | .any | .error => False
  | .array length element => 1 ≤ length ∧ element.Solid
  | .record fields => fields.Solid

def Fields.Solid : Fields → Prop
  | .nil => True
  | .cons _ of rest => of.Solid ∧ rest.Solid

end

/-- The names and types of some fields, in order. -/
def Fields.toList : Fields → List (String × Ty)
  | .nil => []
  | .cons name of rest => (name, of) :: rest.toList

/-- One type is the other or occurs in it. -/
inductive Ty.Part (part : Ty) : Ty → Prop where
  | refl : part.Part part
  | array {length : Int} {element : Ty} : part.Part element → part.Part (.array length element)
  | field {fields : Fields} {entry : String × Ty} :
      entry ∈ fields.toList → part.Part entry.2 → part.Part (.record fields)

/-! ## Sizes -/

theorem Word.add_of_nonneg {m n : Int} (h : 0 ≤ m + n) (hfits : m + n ≤ greatest) :
    add m n = .ok (m + n) :=
  add_eq_ok_iff.2 ⟨fits_iff.2 ⟨by rw [least]; omega, hfits⟩, rfl⟩

mutual

theorem Ty.Solid.size_eq : {τ : Ty} → τ.Solid →
    0 ≤ τ.words ∧ (τ.words ≤ Word.greatest → τ.size = .ok τ.words)
  | .bool, _ | .char, _ | .int, _ => ⟨by decide, fun _ => rfl⟩
  | .array length element, h => by
    obtain ⟨hnonneg, hsize⟩ := Ty.Solid.size_eq (τ := element) h.2
    have hle := Int.mul_le_mul_of_nonneg_right h.1 hnonneg
    rw [Ty.words]
    refine ⟨by omega, fun hfits => bind_eq_ok_iff.2 ⟨_, hsize (by omega), ?_⟩⟩
    exact Word.mul_eq_ok_iff.2 ⟨Word.fits_iff.2 ⟨by rw [Word.least]; omega, hfits⟩, rfl⟩
  | .record fields, h => by
    obtain ⟨hnonneg, hsize⟩ := Fields.Solid.sizeFrom_eq (f := fields) h
    rw [Ty.words, Ty.size, ← Int.zero_add fields.words]
    exact ⟨by omega, hsize (Int.le_refl 0)⟩

theorem Fields.Solid.sizeFrom_eq : {f : Fields} → f.Solid → 0 ≤ f.words ∧ ∀ {before : Int},
    0 ≤ before → before + f.words ≤ Word.greatest → f.sizeFrom before = .ok (before + f.words)
  | .nil, _ => ⟨by decide, fun _ _ => by simp [Fields.sizeFrom, Fields.words]⟩
  | .cons _ of rest, h => by
    obtain ⟨hof, hsize⟩ := Ty.Solid.size_eq (τ := of) h.1
    obtain ⟨hrest, hsizes⟩ := Fields.Solid.sizeFrom_eq (f := rest) h.2
    rw [Fields.words]
    refine ⟨by omega, fun {before} hbefore hfits => ?_⟩
    have hsum := Word.add_of_nonneg (show 0 ≤ before + of.words by omega) (by omega)
    rw [← Int.add_assoc, Fields.sizeFrom]
    exact bind_eq_ok_iff.2 ⟨_, hsize (by omega), bind_eq_ok_iff.2 ⟨_, hsum,
      hsizes (by omega) (by omega)⟩⟩

end

theorem Fields.Solid.of_mem {entry : String × Ty} {fields : Fields} (h : fields.Solid)
    (hmem : entry ∈ fields.toList) : entry.2.Solid ∧ entry.2.words ≤ fields.words := by
  cases fields with
  | nil => cases hmem
  | cons name of rest =>
    have hof := h.1.size_eq.1
    have hrest := h.2.sizeFrom_eq.1
    rw [Fields.words]
    rcases List.mem_cons.1 hmem with rfl | hmem
    · exact ⟨h.1, Int.le_add_of_nonneg_right hrest⟩
    · obtain ⟨hsolid, hle⟩ := Fields.Solid.of_mem h.2 hmem
      exact ⟨hsolid, by omega⟩

/-- What occurs in a type takes up no more words. -/
theorem Ty.Part.words_le {part whole : Ty} (h : part.Part whole) (hwhole : whole.Solid) :
    part.Solid ∧ part.words ≤ whole.words := by
  induction h with
  | refl => exact ⟨hwhole, Int.le_refl _⟩
  | @array length element _ ih =>
    obtain ⟨hsolid, hle⟩ := ih hwhole.2
    have hmul := Int.mul_le_mul_of_nonneg_right hwhole.1 hwhole.2.size_eq.1
    rw [Ty.words]
    exact ⟨hsolid, by omega⟩
  | field hmem _ ih =>
    obtain ⟨hentry, hle⟩ := Fields.Solid.of_mem hwhole hmem
    obtain ⟨hsolid, hle'⟩ := ih hentry
    exact ⟨hsolid, Int.le_trans hle' hle⟩

/-! ## Offsets -/

/-- The words of some entries. -/
def entryWords (entries : List (String × Ty)) : Int :=
  entries.foldr (fun entry words => entry.2.words + words) 0

namespace Fields

variable {name : String} {offset : Int} {of : Ty}

/-- The first field with a name, and the words of the fields before it. -/
def Places (fields : Fields) (name : String) (offset : Int) (of : Ty) : Prop :=
  ∃ before after, fields.toList = before ++ (name, of) :: after ∧
    (∀ entry ∈ before, entry.1 ≠ name) ∧ offset = entryWords before

theorem places_cons_iff {x : String} {first : Ty} {rest : Fields} :
    (cons x first rest).Places name offset of ↔ (x = name ∧ offset = 0 ∧ of = first) ∨
      (x ≠ name ∧ rest.Places name (offset - first.words) of) := by
  constructor
  · rintro ⟨before, after, hlist, hbefore, rfl⟩
    cases before with
    | nil =>
      obtain ⟨hentry, -⟩ := List.cons.inj hlist
      cases hentry
      exact .inl ⟨rfl, rfl, rfl⟩
    | cons entry before =>
      obtain ⟨rfl, hrest⟩ := List.cons.inj hlist
      obtain ⟨hx, hbefore⟩ := List.forall_mem_cons.1 hbefore
      exact .inr ⟨hx, before, after, hrest, hbefore,
        by simp only [entryWords, List.foldr_cons]; omega⟩
  · rintro (⟨rfl, rfl, rfl⟩ | ⟨hx, before, after, hlist, hbefore, hoffset⟩)
    · exact ⟨[], rest.toList, rfl, by simp, rfl⟩
    · refine ⟨(x, first) :: before, after, congrArg _ hlist,
        List.forall_mem_cons.2 ⟨hx, hbefore⟩, ?_⟩
      simp only [entryWords, List.foldr_cons] at hoffset ⊢
      omega

/-- To look for a field finds where it is. -/
theorem Solid.find_eq (name : String) {fields : Fields} (h : fields.Solid) {before : Int}
    (hbefore : 0 ≤ before) (hfits : before + fields.words ≤ Word.greatest) :
    ∃ found, fields.find name before = .ok found ∧
      ∀ offset of, found = some (offset, of) ↔ fields.Places name (offset - before) of := by
  cases fields with
  | nil => exact ⟨none, rfl, by simp [Places, toList]⟩
  | cons x first rest =>
    obtain ⟨hfirst, hsize⟩ := h.1.size_eq
    have hrest := h.2.sizeFrom_eq.1
    rw [Fields.words] at hfits
    rw [Fields.find]
    split
    · rename_i hx
      refine ⟨_, rfl, fun offset of => ?_⟩
      simp [places_cons_iff, hx, eq_comm, Int.sub_eq_zero]
    · rename_i hx
      obtain ⟨found, hfound, hiff⟩ := Solid.find_eq name h.2
        (show 0 ≤ before + first.words by omega) (by omega)
      have hsum := Word.add_of_nonneg (show 0 ≤ before + first.words by omega) (by omega)
      refine ⟨found, bind_eq_ok_iff.2 ⟨_, hsize (by omega), bind_eq_ok_iff.2 ⟨_, hsum, hfound⟩⟩,
        fun offset of => ?_⟩
      rw [hiff, places_cons_iff, ← Int.sub_sub]
      simp [hx]

theorem exists_places_iff {fields : Fields} :
    (∃ offset of, fields.Places name offset of) ↔ name ∈ fields.toList.map Prod.fst := by
  cases fields with
  | nil => simp [Places, toList]
  | cons x first rest =>
    have ih : _ ↔ name ∈ rest.toList.map Prod.fst := exists_places_iff
    simp only [places_cons_iff, toList, List.map_cons, List.mem_cons, ← ih]
    constructor
    · rintro ⟨offset, of, ⟨hx, -⟩ | ⟨-, hplaces⟩⟩
      · exact .inl hx.symm
      · exact .inr ⟨_, of, hplaces⟩
    · intro h
      by_cases hx : x = name
      · exact ⟨0, first, .inl ⟨hx, rfl, rfl⟩⟩
      · obtain ⟨offset, of, hplaces⟩ := h.resolve_left (Ne.symm hx)
        exact ⟨offset + first.words, of, .inr ⟨hx, by rwa [Int.add_sub_cancel]⟩⟩

theorem Solid.places_le {fields : Fields} (h : fields.Solid) {offset : Int}
    (hplaces : fields.Places name offset of) : 0 ≤ offset ∧ offset + of.words ≤ fields.words := by
  cases fields with
  | nil => simp [Places, toList] at hplaces
  | cons x first rest =>
    have hfirst := h.1.size_eq.1
    have hrest := h.2.sizeFrom_eq.1
    rw [Fields.words]
    obtain ⟨-, rfl, rfl⟩ | ⟨-, hplaces⟩ := places_cons_iff.1 hplaces
    · omega
    · have ih := Solid.places_le h.2 hplaces
      omega

theorem Solid.pairwise_places {fields : Fields} (h : fields.Solid)
    (hnames : (fields.toList.map Prod.fst).Nodup) :
    fields.toList.Pairwise fun first second => ∀ offset of offset' of',
      fields.Places first.1 offset of → fields.Places second.1 offset' of' →
      offset + of.words ≤ offset' := by
  cases fields with
  | nil => exact .nil
  | cons x first rest =>
    obtain ⟨hx, hnames⟩ := List.nodup_cons.1 hnames
    have hrest {entry} (hmem : entry ∈ rest.toList) {offset of}
        (hplaces : (cons x first rest).Places entry.1 offset of) :
        rest.Places entry.1 (offset - first.words) of := by
      refine ((places_cons_iff.1 hplaces).resolve_left fun h => hx ?_).2
      exact List.mem_map.2 ⟨entry, hmem, h.1.symm⟩
    refine .cons (fun second hmem offset of offset' of' hfirst hsecond => ?_) ?_
    · obtain ⟨-, rfl, rfl⟩ := (places_cons_iff.1 hfirst).resolve_right fun h => h.1 rfl
      have hle := (h.2.places_le (hrest hmem hsecond)).1
      omega
    · refine (Solid.pairwise_places h.2 hnames).imp_of_mem
        fun hmem hmem' ih offset of offset' of' hfirst hsecond => ?_
      have hle := ih _ of _ of' (hrest hmem hfirst) (hrest hmem' hsecond)
      omega

theorem Solid.exists_places {fields : Fields} (h : fields.Solid)
    (hnames : (fields.toList.map Prod.fst).Nodup) {word : Int} (hword : 0 ≤ word)
    (hlt : word < fields.words) : ∃ name offset of, fields.Places name offset of ∧
      offset ≤ word ∧ word < offset + of.words := by
  cases fields with
  | nil => exact absurd hlt (Int.not_lt.2 hword)
  | cons x first rest =>
    obtain ⟨hx, hnames⟩ := List.nodup_cons.1 hnames
    by_cases hfirst : word < first.words
    · exact ⟨x, 0, first, places_cons_iff.2 (.inl ⟨rfl, rfl, rfl⟩), hword, by omega⟩
    · rw [Fields.words] at hlt
      obtain ⟨name, offset, of, hplaces, hle, hlt⟩ :=
        Solid.exists_places h.2 hnames (show 0 ≤ word - first.words by omega) (by omega)
      have hname : x ≠ name := fun h => hx (h ▸ exists_places_iff.1 ⟨_, _, hplaces⟩)
      refine ⟨name, offset + first.words, of,
        places_cons_iff.2 (.inr ⟨hname, ?_⟩), by omega, by omega⟩
      rwa [Int.add_sub_cancel]

end Fields

/-- **Fields tile their record.**  In a record of solid types whose exact size is a word, the field
found is the first with the name, and it lies inside the record.  Fields of different names lie one
after the other as they are declared, and every word of the record belongs to one of them.  No size
and no offset overflows, of the record or of a type in it. -/
theorem Fields.Solid.tile_record {fields : Fields} (h : fields.Solid)
    (hfits : fields.words ≤ Word.greatest) :
    (∀ name offset of, (Ty.record fields).field name = .ok (some (offset, of)) ↔
      fields.Places name offset of) ∧
    (∀ name, (∃ offset of, (Ty.record fields).field name = .ok (some (offset, of))) ↔
      name ∈ fields.toList.map Prod.fst) ∧
    (∀ name offset of, (Ty.record fields).field name = .ok (some (offset, of)) →
      0 ≤ offset ∧ offset + of.words ≤ fields.words) ∧
    ((fields.toList.map Prod.fst).Nodup →
      (fields.toList.Pairwise fun first second => ∀ offset of offset' of',
        (Ty.record fields).field first.1 = .ok (some (offset, of)) →
        (Ty.record fields).field second.1 = .ok (some (offset', of')) →
          offset + of.words ≤ offset') ∧
      ∀ word, 0 ≤ word → word < fields.words → ∃ name offset of,
        (Ty.record fields).field name = .ok (some (offset, of)) ∧ offset ≤ word ∧
        word < offset + of.words) ∧
    ∀ part, Ty.Part part (.record fields) → part.size = .ok part.words ∧
      ∀ name, ∃ found, part.field name = .ok found := by
  have hfield (name : String) (offset : Int) (of : Ty) :
      (Ty.record fields).field name = .ok (some (offset, of)) ↔ fields.Places name offset of := by
    obtain ⟨found, hfound, hiff⟩ := h.find_eq name (Int.le_refl 0) (by omega)
    rw [Ty.field, hfound, Except.ok.injEq, hiff, Int.sub_zero]
  simp only [hfield, Fields.exists_places_iff, implies_true, true_and]
  refine ⟨fun _ _ _ => h.places_le, fun hnames => ⟨h.pairwise_places hnames,
    fun _ => h.exists_places hnames⟩, fun part hpart => ?_⟩
  obtain ⟨hsolid, hle⟩ := hpart.words_le h
  refine ⟨hsolid.size_eq.2 (Int.le_trans hle hfits), fun name => ?_⟩
  cases part with
  | record inner =>
    obtain ⟨found, hfound, -⟩ := Fields.Solid.find_eq name hsolid (Int.le_refl 0)
      (by rw [Int.zero_add]; exact Int.le_trans hle hfits)
    exact ⟨found, hfound⟩
  | _ => exact ⟨none, rfl⟩

/-- A record that takes up all words there are but one. -/
theorem largest_tile : let fields := Fields.cons "a" (.array 2147483645 .int) (.cons "b" .char .nil)
    fields.Solid ∧ fields.words = 2147483646 ∧
      (Ty.record fields).field "b" = .ok (some (2147483645, .char)) := by
  intro fields
  have h : fields.Solid := ⟨⟨by decide, trivial⟩, trivial, trivial⟩
  exact ⟨h, rfl, (h.tile_record (by decide)).1 _ _ _ |>.2 ⟨[_], [], rfl, by decide, rfl⟩⟩

end Triangle
