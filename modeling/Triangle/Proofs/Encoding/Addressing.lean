import Triangle.Proofs.Encoding.Heights
import Triangle.Proofs.Encoding.Runs
import Triangle.Proofs.Typing.Records

/-!
# The words that V-names select

A literal subscript is added to the offset of an access while code is generated, and any other is
computed by code that leaves one number of words on the stack.  However the two kinds and the fields
of records follow each other, the code that uses the access goes to the address of the entity and so
many words further.  This is said with exact numbers, for every V-name and every run of its code
generation.
-/

namespace Triangle

open Encode

/-! ## Distances -/

/-- The words before the field with a name. -/
def Ty.distance (name : String) : Ty → Int
  | .record fields =>
    if fields.declares name then entryWords (fields.toList.takeWhile (·.1 ≠ name)) else 0
  | _ => 0

/-- The words before the part that a V-name selects, where subscripts have certain values. -/
def Vname.distance (A : Annotations) (value : Expression → Int) : Vname → Int
  | .simple _ _ => 0
  | .dot _ record field => record.distance A value +
      ((A.typeOf? record.mark.id).map (Ty.distance field.spelling)).getD 0
  | .subscript m array index =>
    array.distance A value + index.integerLiteral?.getD (value index) * A.wordsOf m.id

/-- The subscripts that have to be computed, from left to right. -/
def Vname.computed : Vname → List Expression
  | .simple _ _ => []
  | .dot _ record _ => record.computed
  | .subscript _ array index =>
    array.computed ++ if index.integerLiteral?.isSome then [] else [index]

theorem Fields.find_exact {name : String} {fields : Fields} {before : Int}
    {found : Option (Int × Ty)} (h : fields.find name before = .ok found) :
    found.map Prod.fst = if fields.declares name then
      some (before + entryWords (fields.toList.takeWhile (·.1 ≠ name))) else none := by
  cases fields with
  | nil =>
    cases h
    rfl
  | cons x of rest =>
    rw [Fields.find] at h
    split at h
    · rename_i hx
      cases h
      simp [Fields.declares, Fields.toList, hx, entryWords]
    · rename_i hx
      obtain ⟨size, hsize, h⟩ := bind_eq_ok_iff.1 h
      obtain ⟨sum, hsum, h⟩ := bind_eq_ok_iff.1 h
      obtain ⟨-, rfl⟩ := Word.add_eq_ok_iff.1 hsum
      rw [Fields.find_exact h, Ty.words_of_size hsize]
      simp [Fields.declares, Fields.toList, hx, entryWords, Int.add_assoc]

theorem Annotations.fieldOffset_exact {A : Annotations} {record : Vname} {field : Terminal}
    {offset : Int} (h : A.fieldOffset record field = .ok offset) :
    offset = ((A.typeOf? record.mark.id).map (Ty.distance field.spelling)).getD 0 := by
  rw [Annotations.fieldOffset] at h
  split at h
  · rename_i ty htype
    obtain ⟨found, hfound, h⟩ := bind_eq_ok_iff.1 h
    cases h
    rw [htype, Option.map_some, Option.getD_some]
    cases ty with
    | record fields =>
      rw [Fields.find_exact hfound, Ty.distance, Int.zero_add]
      split <;> rfl
    | _ =>
      cases hfound
      rfl
  · rename_i htype
    cases h
    rw [htype]
    rfl

theorem Annotations.sizeOf_exact {A : Annotations} {id : NodeId} {size : Int}
    (h : A.sizeOf id = .ok size) : size = A.wordsOf id := by
  rw [Annotations.wordsOf]
  cases htype : A.typeOf? id with
  | none =>
    rw [Annotations.sizeOf, htype] at h
    cases h
    rfl
  | some τ => exact Annotations.words_of_sizeOf htype h

/-! ## Exact evaluation -/

/-- Where the registers point, what the words of the store are, and what subscripts evaluate to. -/
structure Setting where
  base : Register → Int
  word : Int → Int
  value : Expression → Int

/-- What an instruction that computes an address does to the stack, with exact numbers. -/
def Instruction.effect? (S : Setting) : Instruction → List Int → Option (List Int)
  | ⟨.loadl, _, _, d⟩, stack => some (d :: stack)
  | ⟨.loada, r, _, d⟩, stack => some ((S.base r + d) :: stack)
  | ⟨.load, r, n, d⟩, stack => if n = 1 then some (S.word (S.base r + d) :: stack) else none
  | ⟨.call, .pb, _, d⟩, y :: x :: stack =>
    if d = Primitive.add.displacement then some ((x + y) :: stack)
    else if d = Primitive.mult.displacement then some ((x * y) :: stack)
    else none
  | _, _ => none

/-- The address that an instruction moves words from or to. -/
def Instruction.reached? (S : Setting) : Instruction → List Int → Option Int
  | ⟨.load, r, _, d⟩, _ | ⟨.store, r, _, d⟩, _ => some (S.base r + d)
  | ⟨.loadi, _, _, _⟩, address :: _ | ⟨.storei, _, _, _⟩, address :: _ => some address
  | _, _ => none

/-- One after the other, code does this to the stack. -/
def exactly? (S : Setting) (code : List Instruction) (stack : List Int) : Option (List Int) :=
  code.foldlM (fun stack instruction => instruction.effect? S stack) stack

/-- The last instruction of some code moves words from or to an address. -/
def Reaches (S : Setting) (code : List Instruction) (stack : List Int) (address : Int) : Prop :=
  ∃ init last rest, code = init ++ [last] ∧ exactly? S init stack = some rest ∧
    last.reached? S rest = some address

/-- The address at which an entity starts, for code in a frame. -/
def Entity.start? (S : Setting) (frame : Frame) : Entity → Option Int
  | .unknownValue address | .knownAddress address =>
    (frame.display? address).map fun register => S.base register + address.displacement
  | .unknownAddress address =>
    (frame.display? address).map fun register => S.word (S.base register + address.displacement)
  | _ => none

/-- The stack with the index on top that an access may leave there. -/
def Access.above (access : Access) (index : Int) (stack : List Int) : List Int :=
  if access.indexed then index :: stack else stack

/-! ## Subscripts -/

/-- A step of the code of a V-name: an instruction, or a subscript that is evaluated in a frame. -/
inductive Selecting where
  | own (instruction : Instruction)
  | index (subscript : Expression) (frame : Frame)

namespace Selecting

/-- Code generation takes one state over into another by a step. -/
def Runs (A : Annotations) (s s' : EncodeState) : Selecting → Prop
  | own instruction => s' = { s with store := s.store.emit instruction }
  | index subscript frame => ∃ size, Yields (subscript.encode A frame) s size s'

/-- Code generation takes one state over into another by steps in order. -/
def Run (A : Annotations) (s' : EncodeState) : List Selecting → EncodeState → Prop
  | [], s => s' = s
  | step :: rest, s => ∃ t, step.Runs A s t ∧ Run A s' rest t

/-- What a step does to the stack. -/
def effect? (S : Setting) (stack : List Int) : Selecting → Option (List Int)
  | own instruction => instruction.effect? S stack
  | index subscript _ => some (S.value subscript :: stack)

/-- The subscript that is evaluated, if one is, and its frame. -/
def evaluated? : Selecting → Option (Expression × Frame)
  | own _ => none
  | index subscript frame => some (subscript, frame)

theorem Run.append {A : Annotations} {steps steps' : List Selecting} {s t u : EncodeState}
    (h : Run A t steps s) (h' : Run A u steps' t) : Run A u (steps ++ steps') s := by
  induction steps generalizing s with
  | nil =>
    obtain rfl := h
    exact h'
  | cons step rest ih =>
    obtain ⟨r, hr, h⟩ := h
    exact ⟨r, hr, ih h⟩

end Selecting

/-- The code of a V-name consists of certain steps.  Each subscript that has to be computed is
evaluated once, from left to right.  Where one is evaluated, those before it have left one number on
the stack at most, and its frame counts what they left.  So do they all, and together with the
offset that number is the distance of the part. -/
structure Vname.Selects (A : Annotations) (v : Vname) (frame : Frame) (s : EncodeState)
    (access : Access) (s' : EncodeState) (steps : List Selecting) : Prop where
  runs : Selecting.Run A s' steps s
  order : steps.filterMap Selecting.evaluated? = v.computed.zipIdx.map fun (e, i) =>
    (e, if i = 0 then frame else ⟨frame.level, frame.size + 1⟩)
  waiting : ∀ (S : Setting) (stack : List Int) (before after : List Selecting) (e : Expression)
    (above : Frame), steps = before ++ .index e above :: after → ∃ waiting : List Int,
      before.foldlM (Selecting.effect? S) stack = some (waiting ++ stack) ∧ waiting.length ≤ 1 ∧
      above = ⟨frame.level, frame.size + waiting.length⟩
  entity : access.entity = A.entityOf s.entities v.root
  indexed : access.indexed = !v.computed.isEmpty
  exact : ∀ S : Setting, ∃ index, (access.indexed = false → index = 0) ∧
    access.offset + index = v.distance A S.value ∧
    ∀ stack, steps.foldlM (Selecting.effect? S) stack = some (access.above index stack)

section

variable {A : Annotations} {s s' : EncodeState}

/-- A subscript is evaluated, scaled and added to the one before it. -/
theorem yields_computed {whole access : Access} {element : Int} {index : Expression} {frame : Frame}
    (h : Yields (do
        let frame ← if whole.indexed then frame.expand Machine.primitiveSize else pure frame
        let _ ← index.encode A frame
        if element ≠ 1 then
          Encode.literal element
          callPrimitive .mult
        if whole.indexed then
          callPrimitive .add
        return ({ whole with indexed := true } : Access)) s access s') :
    access = { whole with indexed := true } ∧
      Selecting.Run A s' (.index index
        (if whole.indexed then ⟨frame.level, frame.size + 1⟩ else frame) ::
          (scaleCode element whole.indexed).map .own) s := by
  obtain ⟨entity, offset, indexed⟩ := whole
  obtain ⟨size, t, hindex, h⟩ : ∃ size t, Yields (index.encode A
      (if indexed then ⟨frame.level, frame.size + 1⟩ else frame)) s size t ∧ Yields (do
        if element ≠ 1 then
          Encode.literal element
          callPrimitive .mult
        if indexed then
          callPrimitive .add
        return (⟨entity, offset, true⟩ : Access)) t access s' := by
    cases indexed with
    | false => exact yields_bind.1 h
    | true =>
      simp only [if_true, yields_bind, yields_lift] at h
      obtain ⟨above, _, ⟨habove, rfl⟩, size, t, hindex, h⟩ := h
      obtain ⟨rfl, -⟩ := Frame.expand_eq habove
      exact ⟨size, t, hindex, h⟩
  simp only [Encode.literal, callPrimitive, Encode.emit, reduceCtorEq, if_false] at h
  have hrun : access = ⟨entity, offset, true⟩ ∧
      Selecting.Run A s' ((scaleCode element indexed).map .own) t := by
    cases indexed <;> split at h <;> rename_i helement <;>
      simp only [yields_bind, yields_modify, yields_pure, if_true, if_false, reduceCtorEq] at h <;>
      simp [scaleCode, literalCode, primitiveCode, helement, Selecting.Run,
        Selecting.Runs] <;> grind
  exact ⟨hrun.1, t, ⟨size, hindex⟩, hrun.2⟩

theorem exact_scale {S : Setting} {whole : Access} {element index value : Int} (stack : List Int)
    (hdirect : whole.indexed = false → index = 0) :
    ((scaleCode element whole.indexed).map Selecting.own).foldlM (Selecting.effect? S)
      (value :: whole.above index stack) = some ((index + value * element) :: stack) := by
  obtain ⟨entity, offset, indexed⟩ := whole
  cases indexed with
  | false =>
    obtain rfl := hdirect rfl
    by_cases h : element = 1 <;>
      simp [scaleCode, literalCode, primitiveCode, h, Access.above, Selecting.effect?,
        Instruction.effect?, Primitive.displacement]
  | true =>
    by_cases h : element = 1 <;>
      simp [scaleCode, literalCode, primitiveCode, h, Access.above, Selecting.effect?,
        Instruction.effect?, Primitive.displacement]

/-- The steps of one more subscript follow those before it.  A subscript among them all is one of
those before it or itself, because its own instructions evaluate none. -/
theorem Vname.Selects.waiting_append {v : Vname} {frame above : Frame} {access : Access}
    {steps before after : List Selecting} {index e : Expression} {code : List Instruction}
    (h : v.Selects A frame s access s' steps)
    (heq : steps ++ .index index
      (if access.indexed then ⟨frame.level, frame.size + 1⟩ else frame) ::
      code.map .own = before ++ .index e above :: after) (S : Setting) (stack : List Int) :
    ∃ waiting : List Int, before.foldlM (Selecting.effect? S) stack = some (waiting ++ stack) ∧
      waiting.length ≤ 1 ∧ above = ⟨frame.level, frame.size + waiting.length⟩ := by
  obtain ⟨i, -, -, hstack⟩ := h.exact S
  have hlast : ∃ waiting : List Int, steps.foldlM (Selecting.effect? S) stack =
      some (waiting ++ stack) ∧ waiting.length ≤ 1 ∧
      (if access.indexed then ⟨frame.level, frame.size + 1⟩ else frame) =
        (⟨frame.level, frame.size + waiting.length⟩ : Frame) := by
    rw [hstack, Access.above]
    cases access.indexed with
    | false => exact ⟨[], rfl, Nat.zero_le _, by simp⟩
    | true => exact ⟨[i], rfl, Nat.le_refl _, by simp⟩
  rcases List.append_eq_append_iff.1 heq with ⟨more, rfl, hmore⟩ | ⟨more, rfl, hmore⟩
  · cases more with
    | nil =>
      obtain ⟨⟨rfl, rfl⟩, -⟩ : (_ ∧ _) ∧ _ := by simpa using hmore
      rwa [List.append_nil]
    | cons first more =>
      have hown := (List.cons.inj hmore).2
      have hmem : Selecting.index e above ∈ code.map Selecting.own := by simp [hown]
      simp at hmem
  · cases more with
    | nil =>
      obtain ⟨⟨rfl, rfl⟩, -⟩ : (_ ∧ _) ∧ _ := by simpa using hmore
      simpa using hlast
    | cons first more =>
      obtain ⟨rfl, -⟩ := List.cons.inj hmore
      exact h.waiting S stack before more e above rfl

/-- How the code of a V-name selects its part. -/
theorem Vname.exists_selects {v : Vname} {frame s access s'} :
    Yields (v.encode A frame) s access s' → ∃ steps, v.Selects A frame s access s' steps := by
  cases v with
  | simple m name =>
    intro h
    simp only [Vname.encode, yields_bind, yields_pure] at h
    obtain ⟨entity, _, hentity, rfl, rfl⟩ := h
    obtain ⟨rfl, rfl⟩ := yields_entityOf hentity
    exact ⟨[], rfl, rfl, fun _ _ _ _ _ _ heq => by simp at heq, rfl, rfl,
      fun S => ⟨0, fun _ => rfl, rfl, fun _ => rfl⟩⟩
  | dot m record field =>
    intro h
    simp only [Vname.encode, yields_bind, yields_lift, yields_pure] at h
    obtain ⟨whole, _, h, offset, _, ⟨hoffset, rfl⟩, sum, _, ⟨hsum, rfl⟩, rfl, rfl⟩ := h
    obtain ⟨-, rfl⟩ := Word.add_eq_ok_iff.1 hsum
    obtain ⟨steps, hsteps⟩ := Vname.exists_selects h
    refine ⟨steps, hsteps.runs, hsteps.order, hsteps.waiting, hsteps.entity, hsteps.indexed,
      fun S => ?_⟩
    obtain ⟨index, hdirect, hdistance, hstack⟩ := hsteps.exact S
    refine ⟨index, hdirect, ?_, hstack⟩
    rw [Vname.distance, ← hdistance, ← Annotations.fieldOffset_exact hoffset]
    exact Int.add_right_comm _ _ _
  | subscript m array index =>
    intro h
    rw [Vname.encode] at h
    simp only [yields_bind, yields_lift] at h
    obtain ⟨whole, t, h, element, _, ⟨helement, rfl⟩, h'⟩ := h
    obtain rfl := Annotations.sizeOf_exact helement
    obtain ⟨steps, hsteps⟩ := Vname.exists_selects h
    split at h'
    -- a literal index goes into the offset, any other one is computed on the stack
    · rename_i value hliteral
      simp only [yields_bind, yields_lift, yields_pure] at h'
      obtain ⟨words, _, ⟨hwords, rfl⟩, sum, _, ⟨hsum, rfl⟩, rfl, rfl⟩ := h'
      obtain ⟨-, rfl⟩ := Word.mul_eq_ok_iff.1 hwords
      obtain ⟨-, rfl⟩ := Word.add_eq_ok_iff.1 hsum
      have hcomputed : (Vname.subscript m array index).computed = array.computed := by
        rw [Vname.computed, hliteral, Option.isSome_some, if_pos rfl, List.append_nil]
      refine ⟨steps, hsteps.runs, by rw [hcomputed, hsteps.order], hsteps.waiting, hsteps.entity,
        by rw [hcomputed, hsteps.indexed], fun S => ?_⟩
      obtain ⟨i, hdirect, hdistance, hstack⟩ := hsteps.exact S
      refine ⟨i, hdirect, ?_, hstack⟩
      rw [Vname.distance, ← hdistance, hliteral, Option.getD_some]
      exact Int.add_right_comm _ _ _
    · rename_i hliteral
      have hcomputed : (Vname.subscript m array index).computed = array.computed ++ [index] := by
        rw [Vname.computed, hliteral, Option.isSome_none, if_neg Bool.false_ne_true]
      obtain ⟨rfl, hrun⟩ := yields_computed h'
      have hown : ∀ code : List Instruction,
          (code.map Selecting.own).filterMap Selecting.evaluated? = [] := by
        intro code
        induction code <;> simp_all [Selecting.evaluated?]
      refine ⟨_, hsteps.runs.append hrun, ?_, fun S stack before after e above heq => ?_,
        hsteps.entity, by simp [hcomputed], fun S => ?_⟩
      · rw [List.filterMap_append, hsteps.order, hcomputed, List.zipIdx_append, List.map_append]
        simp [Selecting.evaluated?, hown, hsteps.indexed]
      · exact hsteps.waiting_append heq S stack
      · obtain ⟨i, hdirect, hdistance, hstack⟩ := hsteps.exact S
        refine ⟨i + S.value index * A.wordsOf m.id, Bool.noConfusion, ?_, fun stack => ?_⟩
        · rw [Vname.distance, ← hdistance, hliteral, Option.getD_none, Int.add_assoc]
        · rw [List.foldlM_append, hstack]
          exact exact_scale stack hdirect

/-! ## Uses -/

variable {S : Setting} {access : Access} {frame : Frame} {span : Span} {stack : List Int}
  {start index : Int} {u : Unit}

/-- Code is stored, and it reaches an address. -/
def Stores (S : Setting) (s s' : EncodeState) (stack : List Int) (address : Int) : Prop :=
  ∃ code, s'.store = code.foldl CodeStore.emit s.store ∧ Reaches S code stack address

theorem display_eq {address : Address} {register : Register}
    (h : frame.display? address = some register) : display frame address span = pure register := by
  rw [display, h]

/-- Words are moved from or to the selected part of a value or variable. -/
theorem stores_move {direct indirect : Opcode} {address : Address} {n : Int} {register : Register}
    (hdirect : ∀ n d stack, (⟨direct, register, n, d⟩ : Instruction).reached? S stack =
      some (S.base register + d))
    (hindirect : ∀ n address stack, (⟨indirect, .cb, n, 0⟩ : Instruction).reached? S
      (address :: stack) = some address)
    (hregister : frame.display? address = some register)
    (hindex : access.indexed = false → index = 0)
    (h : Yields (move direct indirect access address n frame span) s u s') :
    Stores S s s' (access.above index stack)
      (S.base register + address.displacement + (access.offset + index)) := by
  obtain ⟨entity, offset, indexed⟩ := access
  simp only [move, display_eq hregister, pure_bind, yields_bind, yields_lift] at h
  obtain ⟨displacement, _, ⟨hsum, rfl⟩, h⟩ := h
  obtain ⟨-, rfl⟩ := Word.add_eq_ok_iff.1 hsum
  cases indexed with
  | false =>
    obtain rfl := hindex rfl
    obtain rfl := yields_modify.1 h
    refine ⟨[_], rfl, [], _, _, rfl, rfl, ?_⟩
    rw [hdirect, Int.add_zero, Int.add_assoc]
  | true =>
    simp only [if_true, callPrimitive, Encode.emit, yields_bind, yields_modify, reduceCtorEq,
      if_false] at h
    obtain ⟨_, _, rfl, _, _, rfl, rfl⟩ := h
    refine ⟨[_, _, _], rfl, [_, _], _, _, rfl, rfl, ?_⟩
    rw [hindirect]
    exact congrArg some (by dsimp only; omega)

/-- The address of the selected part of a variable is computed from the address of the variable. -/
theorem exactly_indirect {address : Address} {register : Register}
    (hregister : frame.display? address = some register)
    (hindex : access.indexed = false → index = 0)
    (h : Yields (indirectAddress access address frame span) s u s') :
    ∃ code, s'.store = code.foldl CodeStore.emit s.store ∧
      exactly? S code (access.above index stack) = some
        ((S.word (S.base register + address.displacement) + (access.offset + index)) :: stack) := by
  obtain ⟨entity, offset, indexed⟩ := access
  simp only [indirectAddress, display_eq hregister, pure_bind, callPrimitive, Encode.literal,
    Encode.emit, reduceCtorEq, if_false, yields_bind, yields_modify] at h
  obtain ⟨_, _, rfl, h⟩ := h
  cases indexed with
  | false =>
    obtain rfl := hindex rfl
    simp only [Bool.false_eq_true, if_false] at h
    split at h
    · simp only [yields_bind, yields_modify] at h
      obtain ⟨_, _, rfl, rfl⟩ := h
      exact ⟨[_, _, _], rfl,
        by simp [exactly?, Instruction.effect?, Access.above, Machine.addressSize]⟩
    · rename_i hoffset
      obtain ⟨-, rfl⟩ := yields_pure.1 h
      exact ⟨[_], rfl,
        by simp_all [exactly?, Instruction.effect?, Access.above, Machine.addressSize]⟩
  | true =>
    simp only [if_true, yields_bind, yields_modify] at h
    obtain ⟨_, _, rfl, h⟩ := h
    split at h
    · simp only [yields_bind, yields_modify] at h
      obtain ⟨_, _, rfl, rfl⟩ := h
      refine ⟨[_, _, _, _], rfl, ?_⟩
      simp [exactly?, Instruction.effect?, Access.above, Machine.addressSize]
      omega
    · rename_i hoffset
      obtain ⟨-, rfl⟩ := yields_pure.1 h
      refine ⟨[_, _], rfl, ?_⟩
      simp_all [exactly?, Instruction.effect?, Access.above, Machine.addressSize]
      omega

theorem store_of_limit {size n : Int} (h : Yields (limit size span) s n s') :
    s'.store = s.store := by
  rw [limit] at h
  split at h
  · simp only [restrict, yields_bind, yields_modify, yields_pure] at h
    obtain ⟨_, _, rfl, -, rfl⟩ := h
    rfl
  · obtain ⟨-, rfl⟩ := yields_pure.1 h
    rfl

/-- Words are moved through the address of the selected part. -/
theorem stores_indirect {op : Opcode} {address : Address} {register : Register} {n : Int}
    (hop : ∀ address stack,
      (⟨op, .cb, n, 0⟩ : Instruction).reached? S (address :: stack) = some address)
    (hregister : frame.display? address = some register)
    (hindex : access.indexed = false → index = 0)
    (h : Yields (do
      indirectAddress access address frame span
      emit op .cb n 0) s u s') :
    Stores S s s' (access.above index stack)
      (S.word (S.base register + address.displacement) + (access.offset + index)) := by
  obtain ⟨_, t, hpointer, h⟩ := yields_bind.1 h
  obtain rfl := yields_modify.1 h
  obtain ⟨code, hcode, hexact⟩ := exactly_indirect hregister hindex hpointer
  exact ⟨code ++ [_], by simp [hcode], code, _, _, rfl, hexact, hop _ _⟩

theorem stores_fetch {size : Int} (hstart : access.entity.start? S frame = some start)
    (hindex : access.indexed = false → index = 0)
    (h : Yields (fetch access size frame span) s u s') :
    Stores S s s' (access.above index stack) (start + (access.offset + index)) := by
  obtain ⟨entity, offset, indexed⟩ := access
  obtain ⟨n, t, hlimit, h⟩ := yields_bind.1 h
  rw [Stores, ← store_of_limit hlimit]
  cases entity with
  | unknownValue address | knownAddress address =>
    obtain ⟨register, hregister, rfl⟩ := Option.map_eq_some_iff.1 hstart
    exact stores_move (fun _ _ _ => rfl) (fun _ _ _ => rfl) hregister hindex h
  | unknownAddress address =>
    obtain ⟨register, hregister, rfl⟩ := Option.map_eq_some_iff.1 hstart
    exact stores_indirect (fun _ _ => rfl) hregister hindex h
  | _ => cases hstart

theorem stores_store {size : Int} (hstart : access.entity.start? S frame = some start)
    (hvariable : ∀ address, access.entity ≠ .unknownValue address)
    (hindex : access.indexed = false → index = 0)
    (h : Yields (store access size frame span) s u s') :
    Stores S s s' (access.above index stack) (start + (access.offset + index)) := by
  obtain ⟨entity, offset, indexed⟩ := access
  obtain ⟨n, t, hlimit, h⟩ := yields_bind.1 h
  rw [Stores, ← store_of_limit hlimit]
  cases entity with
  | knownAddress address =>
    obtain ⟨register, hregister, rfl⟩ := Option.map_eq_some_iff.1 hstart
    exact stores_move (fun _ _ _ => rfl) (fun _ _ _ => rfl) hregister hindex h
  | unknownAddress address =>
    obtain ⟨register, hregister, rfl⟩ := Option.map_eq_some_iff.1 hstart
    exact stores_indirect (fun _ _ => rfl) hregister hindex h
  | unknownValue address => exact absurd rfl (hvariable address)
  | _ => cases hstart

theorem exactly_fetchAddress (hstart : access.entity.start? S frame = some start)
    (hindex : access.indexed = false → index = 0)
    (h : Yields (fetchAddress access frame span) s u s') :
    ∃ code, s'.store = code.foldl CodeStore.emit s.store ∧
      exactly? S code (access.above index stack) =
        some ((start + (access.offset + index)) :: stack) := by
  obtain ⟨entity, offset, indexed⟩ := access
  cases entity with
  | unknownValue address | knownAddress address =>
    obtain ⟨register, hregister, rfl⟩ := Option.map_eq_some_iff.1 hstart
    simp only [fetchAddress, display_eq hregister, pure_bind, yields_bind, yields_lift] at h
    obtain ⟨displacement, _, ⟨hsum, rfl⟩, _, _, hload, h⟩ := h
    obtain ⟨-, rfl⟩ := Word.add_eq_ok_iff.1 hsum
    obtain rfl := yields_modify.1 hload
    cases indexed with
    | false =>
      obtain rfl := hindex rfl
      obtain ⟨-, rfl⟩ := yields_pure.1 h
      exact ⟨[_], rfl, by simp [exactly?, Instruction.effect?, Access.above, Int.add_assoc]⟩
    | true =>
      obtain rfl := yields_modify.1 h
      exact ⟨[_, _], rfl, by simp [exactly?, Instruction.effect?, Access.above]; omega⟩
  | unknownAddress address =>
    obtain ⟨register, hregister, rfl⟩ := Option.map_eq_some_iff.1 hstart
    exact exactly_indirect hregister hindex h
  | _ => cases hstart

end

/-- **Literal and computed subscripts address the same word.**  The code of a V-name leaves one
number on the stack at most, and fetching from the part that it selects, storing into it and taking
its address all go to the start of the entity and the distance of the part further. -/
theorem Vname.addresses {A : Annotations} {v : Vname} {frame : Frame} {s t : EncodeState}
    {access : Access} (h : Yields (v.encode A frame) s access t) :
    ∃ steps, v.Selects A frame s access t steps ∧ ∀ (S : Setting) (stack : List Int),
      ∃ index, steps.foldlM (Selecting.effect? S) stack = some (access.above index stack) ∧
        ∀ ⦃frame start⦄, access.entity.start? S frame = some start →
          (∀ ⦃size span u⦄, Yields (fetch access size frame span) t () u →
            Stores S t u (access.above index stack) (start + v.distance A S.value)) ∧
          (∀ ⦃size span u⦄, (∀ address, access.entity ≠ .unknownValue address) →
            Yields (store access size frame span) t () u →
            Stores S t u (access.above index stack) (start + v.distance A S.value)) ∧
          ∀ ⦃span u⦄, Yields (fetchAddress access frame span) t () u →
            ∃ code, u.store = code.foldl CodeStore.emit t.store ∧
              exactly? S code (access.above index stack) =
                some ((start + v.distance A S.value) :: stack) := by
  obtain ⟨steps, hsteps⟩ := Vname.exists_selects h
  refine ⟨steps, hsteps, fun S stack => ?_⟩
  obtain ⟨index, hindex, hdistance, hstack⟩ := hsteps.exact S
  refine ⟨index, hstack stack, fun frame start hstart => ?_⟩
  rw [← hdistance]
  exact ⟨fun _ _ _ => stores_fetch hstart hindex,
    fun _ _ _ hvariable => stores_store hstart hvariable hindex,
    fun _ _ => exactly_fetchAddress hstart hindex⟩

/-- A node, wherever it is. -/
def Mark.ofId (id : NodeId) : Mark := ⟨id, default⟩

/-- The subscript `i`. -/
def Expression.i : Expression := .vname (.ofId 22) (.simple (.ofId 23) ⟨.ofId 24, "i"⟩)

/-- The V-name `rows[2].cells[i][3]`. -/
def Vname.cell : Vname :=
  let two : Expression := .integer (.ofId 20) ⟨.ofId 21, "2"⟩
  let three : Expression := .integer (.ofId 25) ⟨.ofId 26, "3"⟩
  .subscript (.ofId 4) (.subscript (.ofId 3) (.dot (.ofId 2)
    (.subscript (.ofId 1) (.simple (.ofId 0) ⟨.ofId 10, "rows"⟩) two) ⟨.ofId 11, "cells"⟩) .i) three

/-- Its parts are of these types, and `rows` and `i` are declared at two other nodes. -/
def Annotations.cell : Annotations :=
  let cells : Ty := .array 5 (.array 4 .int)
  let row : Ty := .record (.cons "size" .int (.cons "cells" cells .nil))
  (((((((Annotations.empty.withType 0 (.array 3 row)).withType 1 row).withType 2 cells).withType 3
    (.array 4 .int)).withType 4 .int).withType 22 .int).withReferent 10 (.node 30)).withReferent 24
      (.node 31)

/-- `rows` is at the base of the globals, and `i` after it. -/
def EncodeState.cell : EncodeState :=
  ⟨.empty, (NodeMap.empty.insert 30 (.knownAddress ⟨0, 0⟩)).insert 31 (.knownAddress ⟨0, 63⟩),
    .empty false⟩

/-- The word of `rows[2].cells[i][3]` is stored into at the base of the globals, two rows, the size
of a row, `i` lines and three words further. -/
theorem Vname.cell_addresses :
    ∃ access t u, Yields (Vname.cell.encode .cell .global) .cell access t ∧
    Yields (store access 1 .global default) t () u ∧ access.indexed = true ∧
    ∀ (S : Setting) (stack : List Int), ∃ index, Stores S t u (access.above index stack)
      (S.base .sb + (46 + S.value .i * 4)) := by
  have hruns : ((do
      let access ← Vname.cell.encode .cell .global
      store access 1 .global default : Encode Unit).run .cell).isOk = true := by decide +kernel
  obtain ⟨_, u, hrun⟩ := exists_yields hruns
  obtain ⟨access, t, hvname, hstore⟩ := yields_bind.1 hrun
  obtain ⟨steps, hsteps, haddresses⟩ := Vname.addresses hvname
  have hentity : access.entity = .knownAddress ⟨0, 0⟩ := by
    rw [hsteps.entity]
    decide +kernel
  have hdistance (value : Expression → Int) :
      Vname.cell.distance .cell value = 46 + value .i * 4 := by
    have hrow : (2 : Int) * Annotations.cell.wordsOf 1 = 42 := by decide +kernel
    have hline : Annotations.cell.wordsOf 3 = 4 := by decide +kernel
    have hcells : ((Annotations.cell.typeOf? 1).map (Ty.distance "cells")).getD 0 = 1 := by
      decide +kernel
    have hword : (3 : Int) * Annotations.cell.wordsOf 4 = 3 := by decide +kernel
    show 0 + 2 * Annotations.cell.wordsOf 1 +
      ((Annotations.cell.typeOf? 1).map (Ty.distance "cells")).getD 0 +
      value .i * Annotations.cell.wordsOf 3 + 3 * Annotations.cell.wordsOf 4 = _
    rw [hrow, hline, hcells, hword]
    omega
  refine ⟨access, t, u, hvname, hstore, hsteps.indexed, fun S stack => ?_⟩
  obtain ⟨index, -, huses⟩ := haddresses S stack
  have hstart : access.entity.start? S .global = some (S.base .sb) := by
    rw [hentity]
    exact congrArg some (Int.add_zero _)
  have hstored := (huses hstart).2.1 (by simp [hentity]) hstore
  rw [hdistance] at hstored
  exact ⟨index, hstored⟩

end Triangle
