import Triangle.Proofs.Encoding.Balance
import Triangle.Proofs.Encoding.Flow
import Triangle.Proofs.Encoding.Storage

/-!
# Passing parameters

A routine looks for its parameters right below its frame, the last one on top, and takes them off
the stack when it returns.  A caller pushes the arguments one after the other and knows no more of
the routine than a signature.  The two agree on where each argument is: the words of the parameters
follow from the signature, and what a call can enter has the signature that the call was checked
against.
-/

namespace Triangle

variable {entities : NodeMap Entity} {ps : List Parameter} {p : Draft} {trace : List Event}
  {height : Nat → Int}

/-! ## Where a routine looks for its parameters -/

/-- The words that are passed for some parameters together. -/
def Parameter.total (A : Annotations) (ps : List Parameter) : Int :=
  ps.foldr (fun p words => p.words A + words) 0

/-- How a parameter at an address is reached. -/
def Parameter.entity (address : Address) : Parameter → Entity
  | .const _ _ _ => .unknownValue address
  | .func _ _ _ _ | .proc _ _ _ => .unknownRoutine address
  | .var _ _ _ => .unknownAddress address

/-- Where the data is that an entity is about. -/
def Entity.displacement : Entity → Int
  | .unknownValue address | .knownAddress address | .unknownAddress address
  | .knownRoutine address | .unknownRoutine address => address.displacement
  | _ => 0

/-- The words in which a routine looks for a parameter. -/
def Parameter.extent (A : Annotations) (entities : NodeMap Entity) (p : Parameter) : Extent :=
  ⟨(entities.entity p.mark.id).displacement,
    (entities.entity p.mark.id).displacement + p.words A⟩

/-- Some words are next to each other, in that order, and fill what is between two. -/
def Extent.Tile : Int → Int → List Extent → Prop
  | start, stop, [] => start = stop
  | start, stop, x :: xs => x.start = start ∧ x.start < x.stop ∧ Tile x.stop stop xs

variable {A : Annotations}

@[simp] theorem Parameter.total_nil : Parameter.total A [] = 0 := rfl

@[simp] theorem Parameter.total_cons (p : Parameter) (ps : List Parameter) :
    Parameter.total A (p :: ps) = p.words A + Parameter.total A ps := by
  simp [Parameter.total]

@[simp] theorem Parameter.displacement_entity (address : Address) (p : Parameter) :
    (p.entity address).displacement = address.displacement := by
  cases p <;> rfl

theorem Parameter.words_formal (A : Annotations) (p : Parameter) :
    (p.formal A).words = p.words A := by
  cases p with
  | const m name of =>
    rw [Parameter.formal, Parameter.words, Formal.words, Annotations.typeAt, Annotations.wordsOf]
    cases A.typeOf? m.id <;> rfl
  | _ => rfl

variable {frame : Frame} {q : Draft} {size : Int} {Γ : Context}

theorem Parameter.Placed.eq {p : Parameter} {Δ : Context} {formal : Formal} {r : Draft}
    (ht : p.Typed A Γ formal Δ) (he : p.Placed A frame r size q) :
    size = p.words A ∧
      q = r.represent p.mark.id (p.entity ⟨frame.level, -frame.size - p.words A⟩) := by
  have hsize : size = p.words A := by rw [he.size_eq ht, ht.words_eq]
  have hpoint : ∃ address, frame.parameter size = .ok address ∧
      q = r.represent p.mark.id (p.entity address) := by
    cases p <;> exact he.2
  obtain ⟨address, haddress, rfl⟩ := hpoint
  obtain ⟨_, hsub, heq⟩ := bind_eq_ok_iff.1 haddress
  obtain ⟨-, rfl⟩ := Word.sub_eq_ok_iff.1 hsub
  cases heq
  rw [hsize]
  exact ⟨rfl, rfl⟩

/-- Each parameter is below those that come after it. -/
theorem Parameters.Placed.entity {ps : Parameters} {Γ Δ formals frame r q size} :
    ps.Typed A Γ formals Δ → ps.Placed A frame r size q → (ps.toList.map (·.mark.id)).Nodup →
    size = Parameter.total A ps.toList ∧ ∀ p rest, p :: rest <:+ ps.toList →
    q.entities.get? p.mark.id = some (p.entity ⟨frame.level, -frame.size - Parameter.total A (p ::
    rest)⟩) := by
  cases ps with
  | empty _ =>
    intro _ he _
    refine ⟨he.1, fun p rest hsuffix => ?_⟩
    cases List.suffix_nil.1 hsuffix
  | single _ first =>
    rintro ⟨_, hp, -⟩ he _
    obtain ⟨rfl, rfl⟩ := Parameter.Placed.eq hp he
    refine ⟨by simp [Parameters.toList], fun p rest hsuffix => ?_⟩
    obtain heq | hsuffix := List.suffix_cons_iff.1 hsuffix
    · cases heq
      simp [NodeMap.get?_insert]
    · cases List.suffix_nil.1 hsuffix
  | multiple _ first others =>
    rintro ⟨_, _, _, hp, hothers, -⟩ ⟨after, r', above, _, hr', habove, hq, hsum⟩ hnodup
    obtain ⟨hfirst, hnodup⟩ := List.nodup_cons.1 hnodup
    obtain ⟨rfl, hentity⟩ := Parameters.Placed.entity hothers hr' hnodup
    obtain ⟨rfl, -⟩ := Frame.expand_eq habove
    obtain ⟨rfl, rfl⟩ := hq.eq hp
    obtain ⟨-, rfl⟩ := Word.add_eq_ok_iff.1 hsum
    refine ⟨by simp [Parameters.toList], fun p rest hsuffix => ?_⟩
    obtain heq | hsuffix := List.suffix_cons_iff.1 hsuffix
    · cases heq
      rw [Draft.entities_represent, NodeMap.get?_insert, if_pos rfl, Parameter.total_cons]
      congr 3
      simp only
      omega
    · have hmem : p ∈ others.toList := hsuffix.subset List.mem_cons_self
      have hne : first.mark.id ≠ p.mark.id := fun heq => hfirst (List.mem_map.2 ⟨p, hmem, heq.symm⟩)
      rw [Draft.entities_represent, NodeMap.get?_insert, if_neg hne]
      exact hentity p rest hsuffix

theorem Parameter.Typed.words_pos {p : Parameter} {Δ : Context} {formal : Formal}
    (h : p.Typed A Γ formal Δ) (hΓ : Γ.Proper) : 0 < p.words A := by
  cases p with
  | const m name of =>
    obtain ⟨τ, hτ, htype, -⟩ := h
    rw [Parameter.words, Annotations.wordsOf_eq htype]
    exact (hτ.proper hΓ.types).words_pos
  | func | proc | var =>
    rw [Parameter.words]
    decide

theorem Parameters.Typed.words_pos {ps : Parameters} {Γ Δ formals} :
    ps.Typed A Γ formals Δ →
    Γ.Proper → ∀ p ∈ ps.toList, 0 < p.words A := by
  cases ps with
  | empty _ => rintro _ _ _ ⟨⟩
  | single _ _ =>
    rintro ⟨_, h, -⟩ hΓ p hp
    obtain rfl := List.mem_singleton.1 hp
    exact h.words_pos hΓ
  | multiple _ _ _ =>
    rintro ⟨_, _, _, h, hrest, -⟩ hΓ p hp
    obtain rfl | hp := List.mem_cons.1 hp
    · exact h.words_pos hΓ
    · exact Parameters.Typed.words_pos hrest (h.proper hΓ) p hp

/-- Parameters that are each below those that come after them fill the words below the frame. -/
theorem Parameter.tile {level : Nat} (hpos : ∀ p ∈ ps, 0 < p.words A)
    (hentity : ∀ p rest, p :: rest <:+ ps →
      entities.get? p.mark.id = some (p.entity ⟨level, -Parameter.total A (p :: rest)⟩)) :
    Extent.Tile (-Parameter.total A ps) 0 (ps.map (Parameter.extent A entities)) := by
  induction ps with
  | nil => rfl
  | cons p ps ih =>
    have hp := hentity p ps (List.suffix_rfl)
    have hextent : p.extent A entities = ⟨-Parameter.total A (p :: ps), -Parameter.total A ps⟩ := by
      rw [Parameter.extent, NodeMap.entity, hp, Option.getD_some, Parameter.displacement_entity,
        Parameter.total_cons]
      congr 1
      simp only
      omega
    have := hpos p List.mem_cons_self
    rw [List.map_cons, hextent]
    refine ⟨rfl, by simp only [Parameter.total_cons]; omega, ?_⟩
    exact ih (fun p' hp' => hpos p' (List.mem_cons_of_mem _ hp'))
      fun p' rest hsuffix => hentity p' rest (hsuffix.trans (List.suffix_cons _ _))

/-- What a visit of a routine shows about its parameters. -/
structure Visit.Receives (visit : Visit) (A : Annotations) (entities : NodeMap Entity)
    (code : List Instruction) (trace : List Event) (d : Declaration) (ps : Parameters) : Prop where
  /-- A parameter is one level deeper than the routine, below the parameters that come after it. -/
  entity : ∀ p rest, p :: rest <:+ ps.toList → entities.get? p.mark.id =
    some (p.entity ⟨visit.frame.level + 1, -Parameter.total A (p :: rest)⟩)
  /-- The parameters fill the words below the frame, in their order. -/
  tiles : Extent.Tile (-Parameter.total A ps.toList) 0
    (ps.toList.map (Parameter.extent A entities))
  /-- The routine takes all of them off the stack. -/
  returns : ∃ last result, visit.stop = last + 1 ∧
    .routine d.mark.id (visit.start + 1) last ∈ trace ∧
    code[last]? = some ⟨.return_, .cb, result, Parameter.total A ps.toList⟩

theorem Parameters.mark_mem_ids {ps : Parameters} {p : Parameter} (h : p ∈ ps.toList) :
    p.mark.id ∈ ps.ids := by
  have hmem : p.mark.id ∈ ps.toList.map (·.mark.id) := List.mem_map_of_mem h
  exact List.count_pos_iff.1 (Nat.lt_of_lt_of_le (List.count_pos_iff.2 hmem) (ps.count_marks _))

/-- The body of a routine leaves the parameters where they are. -/
theorem Emission.Routine.receives {visit : Visit} {d : Declaration} {ps : Parameters}
    {Θ : Context} {formals : Formals} {body : Frame → Draft → Int → Draft → Prop}
    {ids : List NodeId} {code : List Instruction}
    (he : Emission.Routine A d.mark ps visit.frame body p q) (hstart : visit.start = p.address)
    (hstop : visit.stop = q.address) (ht : ps.Typed A Γ formals Θ) (hΓ : Γ.Proper)
    (hbody : ∀ inner p words q, body inner p words q → p.Extends ids q)
    (hids : ∀ id : Nat, ps.ids.count id + ids.count id ≤ 1) (hq : q.Within code trace)
    (hsettled : ∀ id ∈ ps.ids, entities.get? id = q.entities.get? id) :
    visit.Receives A entities code trace d ps := by
  obtain ⟨inner, outer, arguments, result, r₁, r₂, -, houter, -, hr₁, hr₂, -, rfl⟩ := he
  obtain rfl := Frame.push_eq houter
  have hnodup : (ps.toList.map (·.mark.id)).Nodup := by
    refine List.nodup_iff_count_le_one.2 fun id => ?_
    have h₁ := ps.count_marks id
    have h₂ := hids id
    omega
  obtain ⟨rfl, hplaced⟩ := hr₁.entity ht hnodup
  have hentity : ∀ x rest, x :: rest <:+ ps.toList → entities.get? x.mark.id =
      some (x.entity ⟨visit.frame.level + 1, -Parameter.total A (x :: rest)⟩) := by
    intro x rest hsuffix
    have hmem := Parameters.mark_mem_ids (hsuffix.subset List.mem_cons_self)
    have hbelow : x.mark.id ∉ ids := by
      have h₁ := List.count_pos_iff.2 hmem
      have h₂ := hids x.mark.id
      rw [← List.count_eq_zero]
      omega
    have hlast := (hbody _ _ _ _ hr₂).entities x.mark.id hbelow
    rw [hsettled _ hmem, Draft.entities_record, Draft.entities_emit, hlast, hplaced x rest hsuffix]
    simp
  refine ⟨hentity, Parameter.tile (ht.words_pos hΓ) hentity, r₂.address, result, ?_, ?_,
    hq.of_record.getElem?⟩
  · rw [hstop, Draft.address_record, Draft.address_emit, List.length_singleton]
  · rw [hstart]
    exact hq.traces (List.mem_append_right _ List.mem_cons_self)

theorem Visit.Explained.receives {W : Whole} {I : Context → List Declaration → Frame → Prop}
    {visit : Visit} {point : Point} {d : Declaration} {ps : Parameters}
    (h : visit.Explained W I point) (hd : point.phrase = .declaration d)
    (hps : d.parameters? = some ps) :
    visit.Receives W.annotations W.entities W.code W.trace d ps := by
  obtain ⟨hphrase, Γ, F, p, q, hscene, hemitted, hstart, hstop⟩ := h
  rw [hphrase, hd] at hscene hemitted
  obtain ⟨Δ, ht, he⟩ := hemitted
  have hproper := ht.proper hscene.proper
  have hsettled := hscene.settled
  have hnodup := hscene.nodup
  cases d with
  | func m name parameters result body =>
    cases hps
    obtain ⟨_, _, _, -, -, -, -, htyped, hbody⟩ := ht
    obtain ⟨r, hr, -, rfl⟩ := he
    refine Emission.Routine.receives hr hstart hstop htyped hproper
      (fun _ _ _ _ h => ((Phrase.expression body).files ⟨_, hbody, h⟩).2)
      (fun id => ?_) hscene.within.of_record fun id hid => hsettled id ?_
    · have := hnodup id
      simp only [Phrase.ids, Declaration.ids, List.count_append] at this ⊢
      omega
    · simp [Phrase.ids, Declaration.ids, hid]
  | proc m name parameters body =>
    cases hps
    obtain ⟨_, _, -, -, htyped, hbody⟩ := ht
    obtain ⟨r, hr, -, rfl⟩ := he
    refine Emission.Routine.receives hr hstart hstop htyped hproper
      (fun _ _ _ _ h => ((Phrase.command body).files ⟨hbody, h⟩).2)
      (fun id => ?_) hscene.within.of_record fun id hid => hsettled id ?_
    · have := hnodup id
      simp only [Phrase.ids, Declaration.ids, List.count_append] at this ⊢
      omega
    · simp [Phrase.ids, Declaration.ids, hid]
  | _ => cases hps

/-! ## Where a caller puts the arguments -/

/-- The code of arguments, one after the other from an address up to another, puts each of them into
the words in which a routine looks for its parameter, if the frame of the routine has its base at a
certain height. -/
inductive Passed (A : Annotations) (entities : NodeMap Entity) (trace : List Event)
    (height : Nat → Int) (base : Int) :
    List Argument → List Parameter → Frame → Nat → Nat → Prop
  | nil {frame : Frame} {address : Nat} (above : height address = base) :
    Passed A entities trace height base [] [] frame address address
  | cons {argument : Argument} {p : Parameter} {arguments : List Argument} {ps : List Parameter}
    {frame : Frame} {start next stop : Nat} {address : Address}
    (visited : .visit (.argument argument) frame start next (p.words A) ∈ trace)
    (placed : entities.get? p.mark.id = some (p.entity address))
    (below : height start = base + address.displacement)
    (pushed : height next = height start + p.words A)
    (rest : Passed A entities trace height base arguments ps
      ⟨frame.level, frame.size + p.words A⟩ next stop) :
    Passed A entities trace height base (argument :: arguments) (p :: ps) frame start stop

/-- All arguments are on the stack in the end. -/
theorem Passed.height_stop {base : Int} {arguments : List Argument} {start stop : Nat}
    (h : Passed A entities trace height base arguments ps frame start stop) :
    height stop = base := by
  induction h with
  | nil above => exact above
  | cons _ _ _ _ _ ih => exact ih

theorem Argument.Emits.visited {a : Argument} {F : List Parameter}
    (h : a.Emits A F frame p size q) :
    .visit (.argument a) frame p.address q.address size ∈ q.trace := by
  cases a with
  | const =>
    obtain ⟨_, -, rfl⟩ := h
    exact List.mem_append_right _ List.mem_cons_self
  | func | proc =>
    obtain ⟨_, -, -, rfl⟩ := h
    exact List.mem_append_right _ List.mem_cons_self
  | var =>
    obtain ⟨_, _, _, -, -, -, rfl⟩ := h
    exact List.mem_append_right _ List.mem_cons_self

section

variable {entities : NodeMap Entity} {code : List Instruction} {trace : List Event}
  {height : Nat → Int} {level : Nat}

theorem Argument.Emits.passed {a : Argument} {x : Parameter} {xs : List Parameter}
    {F : List Parameter} {p : Draft} {arguments : List Argument} {stop : Nat}
    (hheight : ∀ event ∈ trace, event.Consistent code height)
    (hplaced : entities.get? x.mark.id = some (x.entity ⟨level, -Parameter.total A (x :: xs)⟩))
    (ht : a.Typed A Γ (x.formal A)) (he : a.Emits A F frame p size q) (hq : q.trace ⊆ trace)
    (hrest : Passed A entities trace height (frame.size + Parameter.total A (x :: xs)) arguments xs
      ⟨frame.level, frame.size + x.words A⟩ q.address stop) :
    Passed A entities trace height (frame.size + Parameter.total A (x :: xs)) (a :: arguments)
      (x :: xs) frame p.address stop := by
  have hsize : size = x.words A := by rw [he.size_eq ht, x.words_formal]
  have hvisited := hq he.visited
  rw [hsize] at hvisited
  obtain ⟨hstart, hnext⟩ := hheight _ hvisited
  refine .cons hvisited hplaced ?_ ?_ hrest
  · simp only
    omega
  · omega

theorem Arguments.Emits.passed (hheight : ∀ event ∈ trace, event.Consistent code height)
    {arguments : Arguments} {ps formals Γ F frame p q size} :
    formals.toList = ps.map (·.formal A) → arguments.Typed A Γ formals →
    arguments.Emits A F frame p size q → q.trace ⊆ trace →
    (∀ x rest, x :: rest <:+ ps → entities.get? x.mark.id = some (x.entity ⟨level, -Parameter.total
    A (x :: rest)⟩)) → Passed A entities trace height (frame.size + Parameter.total A ps)
    arguments.toList ps frame p.address q.address := by
  cases arguments with
  | empty _ =>
    rintro hformals rfl ⟨rfl, rfl⟩ hq _
    obtain rfl := List.map_eq_nil_iff.1 hformals.symm
    obtain ⟨hstart, -⟩ := hheight _ (hq (List.mem_append_right _ List.mem_cons_self))
    exact .nil (by rw [Parameter.total_nil, Int.add_zero]; exact hstart)
  | single _ argument =>
    rintro hformals ⟨_, hargument, rfl⟩ ⟨r, hr, rfl⟩ hq hplaced
    obtain ⟨x, xs, rfl, rfl, hxs⟩ := List.map_eq_cons_iff.1 hformals.symm
    obtain rfl := List.map_eq_nil_iff.1 hxs
    have htrace : r.trace ⊆ trace := fun _ h => hq (List.mem_append_left _ h)
    refine hr.passed hheight (hplaced x [] List.suffix_rfl) hargument htrace (.nil ?_)
    obtain ⟨-, hstop⟩ := hheight _ (htrace hr.visited)
    rw [hr.size_eq hargument, x.words_formal] at hstop
    simpa using hstop
  | multiple _ first rest =>
    rintro hformals ⟨_, _, hfirst, hrest, rfl⟩ ⟨_, above, _, r₁, r₂, hr₁, habove, hr₂, -, rfl⟩ hq
      hplaced
    obtain ⟨x, xs, rfl, rfl, hxs⟩ := List.map_eq_cons_iff.1 hformals.symm
    have htrace₂ : r₂.trace ⊆ trace := fun _ h => hq (List.mem_append_left _ h)
    have htrace₁ : r₁.trace ⊆ trace := fun _ h => htrace₂ ((hr₂.grows hrest).trace.subset h)
    obtain ⟨rfl, -⟩ := Frame.expand_eq habove
    refine hr₁.passed hheight (hplaced x xs List.suffix_rfl) hfirst htrace₁ ?_
    have hpassed := Arguments.Emits.passed hheight hxs.symm hrest hr₂ htrace₂
      fun y ys hsuffix => hplaced y ys (hsuffix.trans (List.suffix_cons x xs))
    have hsize := hr₁.size_eq hfirst
    rw [x.words_formal] at hsize
    rw [hsize] at hpassed
    rw [Parameter.total_cons, ← Int.add_assoc]
    exact hpassed

end

/-- A visit of a call shows that its arguments are passed as parameters: they are all on the stack
where the code begins that calls, and the frame of what is called has its base there. -/
def Visit.Passes (visit : Visit) (A : Annotations) (entities : NodeMap Entity) (trace : List Event)
    (height : Nat → Int) (name : Terminal) (actuals : Arguments) (ps : Parameters) : Prop :=
  ∃ address entity formals above,
    Passed A entities trace height (height address) actuals.toList ps.toList visit.frame visit.start
      address ∧
    .use name (.call entity) formals above address ∈ trace

/-- Caller and callee agree at a visit, be it of a routine or of a call. -/
structure Visit.Agrees (visit : Visit) (program : Program) (A : Annotations)
    (entities : NodeMap Entity) (code : List Instruction) (trace : List Event)
    (height : Nat → Int) : Prop where
  callee : ∀ d ps, visit.phrase = .declaration d → d.parameters? = some ps →
    visit.Receives A entities code trace d ps
  caller : ∀ name actuals id d ps, visit.phrase.call? = some (name, actuals) →
    A.referentOf? name.mark.id = some (.node id) → program.Enters A id d →
    d.parameters? = some ps → visit.Passes A entities trace height name actuals ps

theorem Program.visits_agree {program : Program} (ht : program.command.Typed A .empty)
    (hids : program.command.ids.Nodup) (he : program.command.Emits A [] .global .empty q)
    (hheight : ∀ event ∈ q.trace, event.Consistent (program.whole A q).code height) :
    List.Forall₂ (fun visit point => visit.phrase = point.phrase ∧
        visit.Agrees program A q.entities (program.whole A q).code q.trace height)
      (q.trace.filterMap Event.visit?) (program.command.points []) := by
  have hvisits := Program.visits_explained ht hids he (inherits_drawn (program.whole A q))
    fun _ _ _ h => nomatch h
  have hexplained : ∀ point ∈ program.command.points [], ∃ visit : Visit,
      visit.Explained (program.whole A q)
        (fun Γ _ _ => Γ.Drawn A (program.command.points [])) point := by
    intro point hpoint
    obtain ⟨i, hi, rfl⟩ := List.getElem_of_mem hpoint
    exact ⟨_, hvisits.get (by rwa [hvisits.length_eq]) hi⟩
  have hcalls : ∀ point ∈ program.command.points [], ∀ name actuals,
      point.phrase.call? = some (name, actuals) →
      ∃ Γ formals, Γ.Drawn A (program.command.points []) ∧
        Phrase.Checked A Γ name actuals formals := by
    intro point hpoint name actuals hcall
    obtain ⟨visit, hphrase, Γ, F, p, r, hscene, hemitted, -⟩ := hexplained point hpoint
    rw [← hphrase] at hcall
    obtain ⟨formals, -, -, -, -, hchecked, -⟩ := hemitted.call hcall
    exact ⟨Γ, formals, hscene.holds, hchecked⟩
  refine hvisits.imp fun visit point hvisit => ⟨hvisit.phrase, fun d ps hd hps => ?_, ?_⟩
  · exact hvisit.receives (hvisit.phrase ▸ hd) hps
  · intro name actuals id d ps hcall hid henters hps
    obtain ⟨D, hd⟩ := henters.declared
    obtain ⟨visit', hvisit'⟩ := hexplained _ hd
    have hplaced := (hvisit'.receives rfl hps).entity
    obtain ⟨hphrase, Γ, F, p, r, hscene, hemitted, hstart, -⟩ := hvisit
    obtain ⟨formals, size, r', entity, above, ⟨meaning, hname, hmeaning, htyped⟩, hr',
        htrace, huse⟩ :=
      hemitted.call hcall
    obtain rfl := henters.signature ht hids he hcalls
      (hname.drawn hid hmeaning hscene.holds) hps
    have hsubset := hscene.within.traces
    have hpassed := hr'.passed hheight (ps.toList_formals A) htyped
      (fun _ hevent => hsubset (htrace hevent)) hplaced
    rw [← hstart, ← hpassed.height_stop] at hpassed
    exact ⟨r'.address, entity, F, above, hpassed, hsubset huse⟩

/-- Caller and callee agree on parameters.  There are heights of the stack for the code of a source,
by which the code of each argument of a call puts it into the words in which the routine looks for
the parameter, whichever routine the call can enter; the parameters of a routine fill the words
below its frame, and it takes them off the stack when it returns. -/
theorem Translates.parameters_agree {source : Source} {failFast folding : Bool} {program : Program}
    {object : ObjectCode} (h : Translates source failFast folding program A object) :
    (∃ s q, program.Generated A object s q) ∧ ∀ s q, program.Generated A object s q →
      ∃ height : Nat → Int, height 0 = 0 ∧
        (∀ (i : Nat) instruction, object.instructions[i]? = some instruction →
          instruction.Consistent A object.instructions q.trace height i) ∧
        List.Forall₂ (fun visit point => visit.phrase = point.phrase ∧
            visit.Agrees program A s.entities object.instructions q.trace height)
          (q.trace.filterMap Event.visit?) (program.command.points []) := by
  refine ⟨h.generated, fun s q hs => ?_⟩
  have hcode : object.instructions = (program.whole A q).code := by
    rw [hs.object, ← hs.code]
    rfl
  obtain ⟨height, hzero, hinstructions, hevents⟩ :=
    Program.Emits.exists_height h.typed ⟨q, hs.emits, hcode, rfl⟩
  refine ⟨height, hzero, hinstructions, ?_⟩
  rw [hcode] at hevents ⊢
  rw [← hs.entities]
  exact Program.visits_agree h.typed h.ids_nodup hs.emits hevents

theorem Translates.relay_parameters_agree :
    ∃ program A object s q, Translates .relay false true program A object ∧
      program.Generated A object s q ∧
      ∃ height : Nat → Int, height 0 = 0 ∧
        (∀ (i : Nat) instruction, object.instructions[i]? = some instruction →
          instruction.Consistent A object.instructions q.trace height i) ∧
        List.Forall₂ (fun visit point => visit.phrase = point.phrase ∧
            visit.Agrees program A s.entities object.instructions q.trace height)
          (q.trace.filterMap Event.visit?) (program.command.points []) := by
  obtain ⟨program, A, object, h⟩ := Translates.relay
  obtain ⟨⟨s, q, hs⟩, hagree⟩ := h.parameters_agree
  exact ⟨program, A, object, s, q, h, hs, hagree s q hs⟩

end Triangle
