import Triangle.Proofs.Encoding.Traversal
import Triangle.Proofs.Parsing.Trees
import Triangle.Proofs.Typing.Resolution

/-!
# Every use is within reach of the display

A name refers to a declaration around its use, so the routine that the declaration belongs to is one
of those around the use: its level is at most the level of the frame that the use runs in.  Routines
are nested seven deep at most, and the display reaches six levels out.  The one level beyond is that
of the main program, which has a register of its own.  So a display register is found for every
address that code generation looks up, and nothing is ever out of reach.

The invariant ties the entities filed so far to the spots of the tree: an address has the level of
the spot where it was declared.  This needs the resolution of names only, so it does not matter
whether the program has errors.
-/

namespace Triangle

open Encode

variable {entity : Entity} {name : Terminal} {frame : Frame} {s : EncodeState} {level : Nat}
  {ρ : Referents}

/-- A declaration stands at a spot. -/
def Spot.Declares (p : Spot) (id : NodeId) : Prop := ∃ name typed, p.site = .binder id name typed

/-! ## Entities and the spots they were declared at -/

/-- An entity belongs to a routine of at most the given level. -/
def Entity.Around (level : Nat) (entity : Entity) : Prop :=
  ∀ address, entity.address? = some address → address.level ≤ level

theorem Entity.around_ofStandard (level : Nat) (declaration : Standard) :
    (Entity.ofStandard declaration).Around level := by
  intro address h
  cases declaration <;> cases h

/-- The uses among the spots are annotated with what they refer to, and no identity has two spots.
-/
structure Charted (A : Annotations) (W : List Spot) : Prop where
  unique : ∀ p ∈ W, ∀ q ∈ W, p.site.id = q.site.id → p = q
  within : ∀ p ∈ W, p.names.Within W p.level
  resolves : ∀ id referent, A.referentOf? id = some referent → ∃ p ∈ W, p.Resolves id referent

/-- Entities have the levels of their declarations, and no lookup has failed since the log was
`before`. -/
structure EncodeState.Grounded (W : List Spot) (before : Log Problem) (s : EncodeState) : Prop where
  entities : ∀ id entity address, s.entities.get? id = some entity →
    entity.address? = some address → ∃ p ∈ W, p.Declares id ∧ p.level = address.level
  log : ∀ diagnostic ∈ s.log.diagnostics,
    diagnostic ∈ before.diagnostics ∨ diagnostic.complaint ≠ .restriction .outOfReach

variable {id : NodeId} {address : Address} {access : Access}

section

variable {A : Annotations} {W : List Spot} {before : Log Problem} {s : EncodeState} {level : Nat}
  {ρ : Referents}

/-- No entity is filed yet, and nothing has been complained about since. -/
theorem EncodeState.Grounded.initial (W : List Spot) (log : Log Problem) :
    EncodeState.Grounded W log ⟨.empty, .empty, log⟩ where
  entities _ _ _ h := by simp at h
  log _ h := .inl h

/-- Only the entities and the log matter. -/
theorem EncodeState.Grounded.withStore (h : s.Grounded W before) (store : CodeStore) :
    EncodeState.Grounded W before { s with store } :=
  ⟨h.entities, h.log⟩

theorem EncodeState.Grounded.report (h : s.Grounded W before) (span : Span) {problem : Problem}
    (hproblem : problem ≠ .restriction .outOfReach) :
    EncodeState.Grounded W before { s with log := s.log.report span problem } where
  entities := h.entities
  log := by
    simp only [Log.report, Log.add]
    split
    · exact h.log
    · refine List.forall_mem_append.2 ⟨h.log, List.forall_mem_singleton.2 (.inr hproblem)⟩

theorem EncodeState.Grounded.represent (h : s.Grounded W before)
    (hentity : ∀ address, entity.address? = some address →
      ∃ p ∈ W, p.Declares id ∧ p.level = address.level) :
    EncodeState.Grounded W before { s with entities := s.entities.insert id entity } where
  entities other found address hfound haddress := by
    simp only [NodeMap.get?_insert] at hfound
    split at hfound
    · rename_i heq
      cases hfound
      exact heq ▸ hentity address haddress
    · exact h.entities other found address hfound haddress
  log := h.log

/-- **No use from outside.**  What a name stands for belongs to a routine around the use. -/
theorem EncodeState.Grounded.around (h : s.Grounded W before) (hA : Charted A W)
    (hspot : ⟨.use name, level, ρ⟩ ∈ W) (hname : A.referentOf? name.mark.id = some (.node id))
    (hentity : s.entities.get? id = some entity) : entity.Around level := by
  intro address haddress
  obtain ⟨p, hp, other, hsite, hid, hfind⟩ := hA.resolves _ _ hname
  obtain rfl := hA.unique p hp _ hspot (by rw [hsite]; exact hid)
  cases hsite
  obtain ⟨q, hq, ⟨_, hqsite⟩, hqlevel⟩ := (hA.within _ hspot).find? hfind
  obtain ⟨q', hq', ⟨_, _, hqsite'⟩, hqlevel'⟩ := h.entities id entity address hentity haddress
  obtain rfl := hA.unique q hq q' hq' (by rw [hqsite, hqsite']; rfl)
  rw [← hqlevel']
  exact hqlevel

end

/-! ## Lookups within reach -/

/-- The display is a row of registers from the base of the innermost frame on. -/
theorem Register.display?_eq : ∀ levels : Fin 7,
    Register.display? levels = Register.ofCode? (Register.lb.code + (levels : Nat)) := by
  decide

/-- What happens to a frame keeps to the levels that there are, and a lookup finds its register. -/
def CodeEvent.InReach : CodeEvent → Prop
  | .placed _ | .patched _ _ => True
  | .entered frame => frame.level ≤ Machine.maxRoutineLevel
  | .consulted frame address => frame.level ≤ Machine.maxRoutineLevel ∧
    (address.level = 0 ∨ address.level ≤ frame.level ∧ frame.level - address.level ≤ 6)

/-- An address around a frame that is not too deep is within reach. -/
theorem CodeEvent.inReach_of_le (hframe : frame.level ≤ Machine.maxRoutineLevel)
    (hle : address.level ≤ frame.level) : CodeEvent.InReach (.consulted frame address) := by
  rw [Machine.maxRoutineLevel] at hframe
  refine ⟨hframe, ?_⟩
  by_cases hzero : address.level = 0
  · exact .inl hzero
  · exact .inr ⟨hle, by omega⟩

/-- The register of a lookup within reach. -/
theorem CodeEvent.InReach.display? {frame : Frame}
    (h : CodeEvent.InReach (.consulted frame address)) :
    address.level = 0 ∧ frame.display? address = some .sb ∨
      address.level ≤ frame.level ∧ frame.level - address.level ≤ 6 ∧
        frame.display? address =
          Register.ofCode? (Register.lb.code + (frame.level - address.level : Nat)) := by
  obtain hzero | ⟨hle, hnear⟩ := h.2
  · refine .inl ⟨hzero, ?_⟩
    rw [Frame.display?, if_pos hzero]
  · by_cases hzero : address.level = 0
    · refine .inl ⟨hzero, ?_⟩
      rw [Frame.display?, if_pos hzero]
    · refine .inr ⟨hle, hnear, ?_⟩
      rw [Frame.display?, if_neg hzero, if_pos hle]
      exact Register.display?_eq ⟨_, Nat.lt_succ_of_le hnear⟩

theorem CodeEvent.InReach.display?_isSome (h : CodeEvent.InReach (.consulted frame address)) :
    ∃ register, frame.display? address = some register := by
  obtain ⟨-, heq⟩ | ⟨-, hnear, heq⟩ := h.display?
  · exact ⟨.sb, heq⟩
  · have hfound : ∀ levels : Fin 7,
        (Register.ofCode? (Register.lb.code + (levels : Nat))).isSome := by decide
    rw [heq]
    exact Option.isSome_iff_exists.1 (hfound ⟨_, Nat.lt_succ_of_le hnear⟩)

/-! ## Steps within reach -/

/-- Every run of a step keeps the state grounded. -/
abbrev Keeping (W : List Spot) (before : Log Problem) {α : Type} (x : Encode α) : Prop :=
  Along (fun s s' => s.Grounded W before → s'.Grounded W before) x

section

variable {α β : Type} {W : List Spot} {before : Log Problem}

theorem Keeping.pure (a : α) : Keeping W before (pure a : Encode α) := Along.pure (fun _ h => h) a

theorem Keeping.bind {x : Encode α} {f : α → Encode β} (hx : Keeping W before x)
    (hf : ∀ a, Keeping W before (f a)) : Keeping W before (x >>= f) :=
  Along.bind (fun _ _ _ h₁ h₂ h => h₂ (h₁ h)) hx hf

/-- Code has nothing to do with what entities are known. -/
theorem keeping_emit (op : Opcode) (r : Register) (n d : Int) :
    Keeping W before (emit op r n d) :=
  Along.modify fun _ hs => hs.withStore _

theorem keeping_get : Keeping W before (get : Encode EncodeState) := Along.get fun _ h => h

theorem keeping_nextAddress : Keeping W before nextAddress := keeping_get.bind fun _ => .pure _

theorem keeping_forward (op : Opcode) (n : Int) : Keeping W before (forward op n) :=
  keeping_nextAddress.bind fun _ => (keeping_emit _ _ _ _).bind fun _ => .pure _

end

/-- From a grounded state, what a step tells is within reach, and it ends in a grounded state with a
result as described. -/
def Logged.Reaching (W : List Spot) (before : Log Problem) {α : Type} (Q : α → Prop)
    (t : Logged α) : Prop :=
  ∀ s, s.Grounded W before → (∀ event ∈ (t s).2, event.InReach) ∧
    ∀ a s', Yields t.erase s a s' → Q a ∧ s'.Grounded W before

namespace Logged.Reaching

variable {α β : Type} {A : Annotations} {W : List Spot} {before : Log Problem} {Q : α → Prop}
  {R : β → Prop} {x : Encode α}

theorem bind {t : Logged α} {f : α → Logged β} (ht : Reaching W before Q t)
    (hf : ∀ a, Q a → Reaching W before R (f a)) : Reaching W before R (t >>= f) := by
  intro s hs
  obtain ⟨hevents, hend⟩ := ht s hs
  cases hrun : (t s).1 with
  | error cause =>
    refine ⟨?_, fun b s' h => ?_⟩
    · rw [Logged.bind_error hrun]
      exact hevents
    · rw [Yields, StateT.run, Logged.erase, Logged.bind_error hrun] at h
      cases h
  | ok pair =>
    obtain ⟨a, u⟩ := pair
    obtain ⟨ha, hu⟩ := hend a u hrun
    obtain ⟨hevents', hend'⟩ := hf a ha u hu
    refine ⟨?_, fun b s' h => hend' b s' ?_⟩
    · rw [Logged.bind_ok hrun]
      exact List.forall_mem_append.2 ⟨hevents, hevents'⟩
    · rw [Yields, StateT.run, Logged.erase, Logged.bind_ok hrun] at h
      exact h

/-- A step that tells nothing. -/
theorem lift (hx : ∀ s a s', Yields x s a s' → s.Grounded W before →
    Q a ∧ s'.Grounded W before) : Reaching W before Q (liftM x) :=
  fun s hs => ⟨fun _ hevent => (nomatch hevent), fun a s' h => hx s a s' h hs⟩

theorem pure {a : α} (ha : Q a) : Reaching W before Q (pure a) := by
  refine lift fun s b s' h hs => ?_
  obtain ⟨rfl, rfl⟩ := yields_pure.1 h
  exact ⟨ha, hs⟩

theorem checked {x : Checked α} (hx : ∀ a, x = .ok a → Q a) : Reaching W before Q (liftM x) := by
  refine lift fun s a s' h hs => ?_
  obtain ⟨ha, rfl⟩ := yields_lift.1 h
  exact ⟨hx a ha, hs⟩

theorem of_keeping (hx : Keeping W before x) : Reaching W before (fun _ => True) (liftM x) :=
  lift fun s a s' h hs => ⟨trivial, hx s a s' h hs⟩

theorem note (event : CodeEvent) (h : event.InReach) :
    Reaching W before (fun _ => True) (Logged.note event) := by
  refine fun s hs => ⟨List.forall_mem_singleton.2 h, fun _ s' hrun => ?_⟩
  obtain ⟨-, rfl⟩ := yields_pure.1 hrun
  exact ⟨trivial, hs⟩

theorem emit {op : Opcode} {r : Register} {n d : Int} :
    Reaching W before (fun _ => True) (liftM (Encode.emit op r n d)) :=
  of_keeping (keeping_emit op r n d)

theorem forward {op : Opcode} {n : Int} :
    Reaching W before (fun _ => True) (Logged.forward op n) :=
  (of_keeping (keeping_forward op n)).bind fun _ _ => (note (.placed _) trivial).bind fun _ _ =>
    pure trivial

theorem patch {label : Nat} : Reaching W before (fun _ => True) (Logged.patch label) :=
  (of_keeping keeping_nextAddress).bind fun _ _ => (note (.patched _ _) trivial).bind fun _ _ =>
    of_keeping (Along.modify fun _ hs => hs.withStore _)

theorem restrict {span : Span} {restriction : Restriction} (h : restriction ≠ .outOfReach) :
    Reaching W before (fun _ => True) (liftM (Encode.restrict span restriction)) := by
  refine of_keeping (Along.modify fun s hs => hs.report span ?_)
  rintro ⟨⟩
  exact h rfl

/-- What a declaration stands for is filed with the level of its spot. -/
theorem represent {name : String} {typed : Bool}
    (hspot : ⟨.binder id name typed, level, ρ⟩ ∈ W)
    (hlevel : ∀ address, entity.address? = some address → address.level = level) :
    Reaching W before (fun _ => True) (liftM (Encode.represent id entity)) :=
  of_keeping (Along.modify fun _ hs => hs.represent fun address haddress =>
    ⟨_, hspot, ⟨_, _, rfl⟩, (hlevel address haddress).symm⟩)

theorem entityOf (hA : Charted A W) (hspot : ⟨.use name, level, ρ⟩ ∈ W) :
    Reaching W before (Entity.Around level) (liftM (Encode.entityOf A name)) := by
  refine lift fun s entity s' h hs => ?_
  rw [Encode.entityOf] at h
  split at h
  · rename_i id hname
    simp only [yields_bind, yields_get, yields_pure] at h
    obtain ⟨_, _, ⟨rfl, rfl⟩, rfl, rfl⟩ := h
    refine ⟨?_, hs⟩
    cases hfound : s.entities.get? id with
    | none => exact fun _ hnone => absurd hnone (Option.some_ne_none _).symm
    | some entity => exact hs.around hA hspot hname hfound
  · obtain ⟨rfl, rfl⟩ := yields_pure.1 h
    exact ⟨Entity.around_ofStandard _ _, hs⟩
  · obtain ⟨rfl, rfl⟩ := yields_pure.1 h
    exact ⟨fun _ hnone => absurd hnone (Option.some_ne_none _).symm, hs⟩

/-- A register is found for every address around a frame. -/
theorem display (hframe : frame.At level) (haddress : address.level ≤ level) {span : Span} :
    Reaching W before (fun _ => True) (Logged.display frame address span) := by
  have hreach : CodeEvent.InReach (.consulted frame address) :=
    CodeEvent.inReach_of_le (hframe.level_eq ▸ hframe.shallow) (hframe.level_eq ▸ haddress)
  refine (note _ hreach).bind fun _ _ => lift fun s register s' h hs => ?_
  obtain ⟨found, hfound⟩ := hreach.display?_isSome
  rw [Encode.display, hfound] at h
  obtain ⟨-, rfl⟩ := yields_pure.1 h
  exact ⟨trivial, hs⟩

/-- The frame of a routine that is not nested too deep. -/
theorem push (hframe : frame.At level) (hlt : level < Machine.maxRoutineLevel) {size : Int} :
    Reaching W before (Frame.At (level + 1)) (Logged.push frame size) :=
  (checked fun _ => hframe.push hlt).bind fun _ hinner =>
    (note (.entered _) (Nat.le_trans (Nat.le_of_eq hinner.level_eq) hinner.shallow)).bind
      fun _ _ => pure hinner

end Logged.Reaching

theorem Logged.closed_reaching {A : Annotations} {W : List Spot} (hA : Charted A W)
    (before : Log Problem) :
    Logged.Closed A (· ∈ W) Entity.Around fun _ _ => Logged.Reaching W before where
  pure := .pure
  bind := .bind
  checked := .checked
  emit _ := .emit
  back _ := .emit
  address hf := .bind (.of_keeping keeping_nextAddress) fun start _ => hf start
  forward _ hf := .bind .forward fun label _ => hf label
  patch _ _ _ _ ht := .bind .patch fun _ _ => ht
  restrict := .restrict
  represent := .represent
  entityOf := .entityOf hA
  display hframe hentity haddress := .display hframe (hentity _ haddress)
  push hframe hlt := .push hframe hlt

/-! ## Programs -/

/-- Checking charts the uses of names, whatever its outcome. -/
theorem Program.charted_of_check {program : Program} {A : Annotations} {log log' : Log Problem}
    (hnodup : program.ids.Nodup) (h : program.check log = .ok (A, log')) :
    Charted A program.spots where
  unique _ hp _ hq hid := Program.spot_eq_of_id_eq hnodup hp hq hid
  within := program.within_spots
  resolves _ _ hid := Program.resolves_of_check h hid

theorem Program.reaching_logged {program : Program} {A : Annotations}
    (hA : Charted A program.spots) (before : Log Problem) :
    Logged.Reaching program.spots before (fun _ => True) (program.logged A) := by
  have hcommand : Logged.Reaching program.spots before (fun _ => True)
      (program.command.logged A .global) :=
    program.closed_command (Logged.closed_reaching hA before) fun _ hp => hp
  refine (Logged.Reaching.note (.entered .global) (Nat.zero_le _)).bind fun _ _ =>
    hcommand.bind fun _ _ => .bind .emit fun _ _ => .bind (.of_keeping keeping_get) fun s _ => ?_
  split
  · exact .restrict (by simp)
  · exact .pure trivial

/-- What a program uses is within reach: the lookups of the display, as the log tells them, find
their registers, the frames are not too deep, and nothing is reported to be out of reach. -/
structure Program.InReach (program : Program) (A : Annotations) (before : Log Problem) : Prop where
  /-- The run with a log is a run of code generation. -/
  run : (program.logged A ⟨.empty, .empty, before⟩).1.map
    (fun ended => (ended.2.store.object, ended.2.log)) = program.encode A before
  /-- The register is the base of the main program, or that of a frame up to six levels out. -/
  lookups : ∀ frame address,
    .consulted frame address ∈ (program.logged A ⟨.empty, .empty, before⟩).2 →
    address.level = 0 ∧ frame.display? address = some .sb ∨
      address.level ≤ frame.level ∧ frame.level - address.level ≤ 6 ∧
        frame.display? address =
          Register.ofCode? (Register.lb.code + (frame.level - address.level : Nat))
  /-- The frames that a lookup is made from are no deeper than those of routines. -/
  levels : ∀ frame, (.entered frame ∈ (program.logged A ⟨.empty, .empty, before⟩).2 ∨
    ∃ address, .consulted frame address ∈ (program.logged A ⟨.empty, .empty, before⟩).2) →
    frame.level ≤ 7
  /-- Nothing is out of reach. -/
  reports : ∀ object log, program.encode A before = .ok (object, log) →
    ∀ diagnostic ∈ log.diagnostics,
      diagnostic ∈ before.diagnostics ∨ diagnostic.complaint ≠ .restriction .outOfReach

/-- **Every use is within reach of the display.**  For every source, with the annotations of a check
that may have reported errors, the display registers that code generation looks up are there. -/
theorem Program.inReach_of_check (source : Source) (failFast : Bool) {A : Annotations}
    {log log' : Log Problem} (h : (parse source failFast).program.check log = .ok (A, log'))
    (before : Log Problem) : (parse source failFast).program.InReach A before := by
  have hnodup : (parse source failFast).program.ids.Nodup :=
    (parse_ids source failFast).nodup_iff.2 List.nodup_range
  obtain ⟨hevents, hend⟩ := Program.reaching_logged (Program.charted_of_check hnodup h) before _
    (.initial _ before)
  rw [Program.erase_logged] at hend
  refine ⟨?_, fun frame address hevent => (hevents _ hevent).display?, ?_, ?_⟩
  · change ((Program.logged _ A).erase.run _).map _ = _
    rw [Program.erase_logged, Program.encode]
    generalize StateT.run _ _ = ended
    rcases ended with cause | ⟨_, s⟩ <;> rfl
  · rintro frame (hevent | ⟨address, hevent⟩)
    · exact hevents _ hevent
    · exact (hevents _ hevent).1
  · intro object log'' hencode
    obtain ⟨⟨_, s⟩, hrun, heq⟩ := bind_eq_ok_iff.1 hencode
    cases heq
    exact (hend _ _ hrun).2.log

/-- A source with nested routines.  The innermost one uses a parameter of the outermost one, two
levels out, and a name that is not declared. -/
def Source.nested : Source :=
  ⟨"nested.tri",
    "let proc a(var x: Char) ~ let proc b() ~ let proc c() ~ x := y in c() in b() in"⟩

theorem Program.nested_inReach : ∃ A log,
    (parse Source.nested false).program.check (.empty false) = .ok (A, log) ∧ log.errors = 1 ∧
      .consulted ⟨3, 3⟩ ⟨1, -1⟩ ∈
        ((parse Source.nested false).program.logged A ⟨.empty, .empty, log⟩).2 ∧
      (parse Source.nested false).program.InReach A log := by
  have hdeep : (((parse Source.nested false).program.check (.empty false)).toOption.any
      fun found => found.2.errors = 1 ∧ .consulted ⟨3, 3⟩ ⟨1, -1⟩ ∈
        ((parse Source.nested false).program.logged found.1 ⟨.empty, .empty, found.2⟩).2) =
          true := by
    decide +kernel
  cases hcheck : (parse Source.nested false).program.check (.empty false) with
  | error cause =>
    rw [hcheck] at hdeep
    exact nomatch hdeep
  | ok found =>
    rw [hcheck] at hdeep
    obtain ⟨herrors, hlookup⟩ := of_decide_eq_true hdeep
    exact ⟨found.1, found.2, rfl, herrors, hlookup,
      Program.inReach_of_check Source.nested false hcheck found.2⟩

end Triangle
