import Mathlib.Data.List.Forall2
import Mathlib.Data.List.Nodup
import Triangle.Proofs.Encoding.Formals

/-!
# The phrases that code generation visits

The phrases of a program in the order in which their code is complete, each with the declarations
that are in scope there: this can be read off the tree (`Command.points`).  The visits in a trace
are those, one by one.  What is to hold at every visit needs to be proved of three steps only
(`Inherits`): words are pushed, a declaration comes into scope, the body of a routine is entered.
What a visit can rely on besides is in `Visit.Explained`: the phrase is well typed, its code is the
part of the code that the visit says, and what is filed under its identities is final.
-/

namespace Triangle

/-! ## Visits -/

/-- A visit of a phrase. -/
structure Visit where
  phrase : Phrase
  frame : Frame
  start : Nat
  stop : Nat
  pushed : Int

/-- The visit that an event is, if it is one. -/
def Event.visit? : Event → Option Visit
  | .visit phrase frame start stop pushed => some ⟨phrase, frame, start, stop, pushed⟩
  | _ => none

/-- What is there when all the code of a program has been generated. -/
structure Whole where
  annotations : Annotations
  code : List Instruction
  trace : List Event
  entities : NodeMap Entity
  points : List Point

/-- A phrase with certain identities and points is visited, which is complete with a draft, and in
between it is known what its parts may rely on. -/
structure Scene (W : Whole) (I : Context → List Declaration → Frame → Prop) (Γ : Context)
    (D : List Declaration) (frame : Frame) (q : Draft) (ids : List NodeId) (points : List Point) :
    Prop where
  holds : I Γ D frame
  proper : Γ.Proper
  within : q.Within W.code W.trace
  listed : ∀ point ∈ points, point ∈ W.points
  nodup : ∀ id : Nat, ids.count id ≤ 1
  settled : ∀ id ∈ ids, W.entities.get? id = q.entities.get? id

/-- What a visit of the phrase at a point can rely on. -/
structure Visit.Explained (W : Whole) (I : Context → List Declaration → Frame → Prop)
    (visit : Visit) (point : Point) : Prop where
  phrase : visit.phrase = point.phrase
  emitted : ∃ Γ F p q, Scene W I Γ point.scope visit.frame q visit.phrase.ids [point] ∧
    visit.phrase.Emitted W.annotations Γ F visit.frame p visit.pushed q ∧
    visit.start = p.address ∧ visit.stop = q.address

/-- A property is kept by the three steps that lead from a phrase to its parts. -/
structure Inherits (W : Whole) (I : Context → List Declaration → Frame → Prop) : Prop where
  expand : ∀ {Γ D frame above size}, I Γ D frame → 0 ≤ size → frame.expand size = .ok above →
    I Γ D above
  declare : ∀ {d : Declaration} {Γ Δ D F frame above p size q},
    Scene W I Γ D frame q d.ids (d.points D) → d.name?.isSome = true → d.Typed W.annotations Γ Δ →
    d.Emits W.annotations F frame p size q → frame.expand size = .ok above → I Δ (D ++ [d]) above
  enter : ∀ {d : Declaration} {parameters : Parameters} {formals Γ Δ Θ D frame inner q},
    Scene W I Γ D frame q d.ids (d.points D) → d.parameters? = some parameters →
    d.Typed W.annotations Γ Δ → parameters.Typed W.annotations Δ formals Θ →
    frame.push Machine.linkDataSize = .ok inner → I Θ (D ++ [d]) inner

/-- The visits between two drafts are those of certain points, in that order. -/
def Draft.Visits (R : Visit → Point → Prop) (p q : Draft) (points : List Point) : Prop :=
  ∃ new, q.trace = p.trace ++ new ∧ List.Forall₂ R (new.filterMap Event.visit?) points

namespace Draft.Visits

variable {R : Visit → Point → Prop} {p q r : Draft} {points points' : List Point}

theorem refl (R : Visit → Point → Prop) (p : Draft) : p.Visits R p [] :=
  ⟨[], by simp, .nil⟩

theorem trans (h₁ : p.Visits R r points) (h₂ : r.Visits R q points') :
    p.Visits R q (points ++ points') := by
  obtain ⟨new₁, htrace₁, h₁⟩ := h₁
  obtain ⟨new₂, htrace₂, h₂⟩ := h₂
  refine ⟨new₁ ++ new₂, by rw [htrace₂, htrace₁, List.append_assoc], ?_⟩
  rw [List.filterMap_append]
  exact List.rel_append h₁ h₂

theorem emit (h : p.Visits R q points) (code : List Instruction) :
    p.Visits R (q.emit code) points := h

theorem represent (h : p.Visits R q points) (id : NodeId) (entity : Entity) :
    p.Visits R (q.represent id entity) points := h

/-- What is no visit does not count. -/
theorem skip (h : p.Visits R q points) {event : Event} (hevent : event.visit? = none) :
    p.Visits R (q.record event) points := by
  have hnew : q.Visits R (q.record event) [] := ⟨[event], rfl, by simp [hevent]⟩
  simpa using h.trans hnew

theorem visit (h : p.Visits R q points) {point : Point} {frame : Frame} {start : Nat}
    {pushed : Int} (hpoint : R ⟨point.phrase, frame, start, q.address, pushed⟩ point) :
    p.Visits R (q.visit point.phrase frame start pushed) (points ++ [point]) :=
  h.trans ⟨[.visit point.phrase frame start q.address pushed], rfl, .cons hpoint .nil⟩

end Draft.Visits

theorem Draft.Extends.within {ids : List NodeId} {p q : Draft} {code : List Instruction}
    {trace : List Event} (h : p.Extends ids q)
    (hq : q.Within code trace) : p.Within code trace :=
  ⟨h.code.trans hq.codes, Nat.lt_of_le_of_lt h.code.length_le hq.room,
    fun _ hevent => hq.traces (h.trace.subset hevent)⟩

namespace Scene

variable {W : Whole} {I : Context → List Declaration → Frame → Prop} {Γ Δ : Context}
  {D D' : List Declaration} {F : List Parameter} {frame inner : Frame} {p q r : Draft}
  {ids ids' more : List NodeId} {points points' : List Point}

theorem of_record {event : Event} (h : Scene W I Γ D frame (q.record event) ids points) :
    Scene W I Γ D frame q ids points :=
  ⟨h.holds, h.proper, h.within.of_record, h.listed, h.nodup, h.settled⟩

/-- A part of the phrase, after which certain identities are still to come. -/
theorem part (h : Scene W I Γ D frame q ids points) (hr : r.Extends more q)
    (holds : I Δ D' inner) (proper : Δ.Proper)
    (hpoints : ∀ point ∈ points', point ∈ points := by
      intro point hpoint
      simp only [Command.points, Expression.points, Declaration.points, Vname.points,
        Argument.points, Arguments.points, ArrayAggregate.points, RecordAggregate.points,
        List.mem_append, hpoint, true_or, or_true])
    (hids : ∀ id : Nat, ids'.count id + more.count id ≤ ids.count id := by
      intro id
      simp only [Command.ids, Expression.ids, Declaration.ids, Vname.ids, Argument.ids,
        Arguments.ids, ArrayAggregate.ids, RecordAggregate.ids, List.count_append, List.count_nil]
      omega) :
    Scene W I Δ D' inner r ids' points' := by
  refine ⟨holds, proper, hr.within h.within, fun point hpoint =>
    h.listed point (hpoints point hpoint), fun id => ?_, fun id hid => ?_⟩
  · have := hids id
    have := h.nodup id
    omega
  · have hcount := List.count_pos_iff.2 hid
    have hmore : id ∉ more := by
      rw [← List.count_eq_zero]
      have := hids id
      have := h.nodup id
      omega
    have hmem : id ∈ ids := by
      rw [← List.count_pos_iff]
      have := hids id
      omega
    rw [h.settled id hmem, hr.entities id hmore]

/-- The visit of the phrase itself, after those of its parts. -/
theorem close (phrase : Phrase) (pushed : Int) (h : Scene W I Γ D frame q phrase.ids points)
    (he : phrase.Emitted W.annotations Γ F frame p pushed q) :
    ∀ ⦃r points'⦄, q = r.visit phrase frame p.address pushed → points = points' ++ [⟨phrase, D⟩] →
      p.Visits (Visit.Explained W I) r points' → p.Visits (Visit.Explained W I) q points := by
  rintro r points' rfl rfl hparts
  have hlisted : ∀ point ∈ [(⟨phrase, D⟩ : Point)], point ∈ W.points := fun point hpoint =>
    h.listed point (List.mem_append_right _ hpoint)
  exact hparts.visit ⟨rfl, Γ, F, p, _,
    ⟨h.holds, h.proper, h.within, hlisted, h.nodup, h.settled⟩, he, rfl, rfl⟩

end Scene

section

variable {W : Whole} {I : Context → List Declaration → Frame → Prop}

/-- The visits in a routine are those in its body. -/
theorem Emission.Routine.visits {A : Annotations} {m : Mark} {parameters : Parameters}
    {frame : Frame} {body : Frame → Draft → Int → Draft → Prop} {p q : Draft}
    {R : Visit → Point → Prop} {points : List Point}
    (he : Emission.Routine A m parameters frame body p q)
    (hbody : ∀ inner r₁ words r₂, frame.push Machine.linkDataSize = .ok inner →
      body inner r₁ words r₂ → r₂.Extends [] q → r₁.Visits R r₂ points) :
    p.Visits R q points := by
  obtain ⟨inner, _, _, result, r₁, r₂, -, -, hinner, hr₁, hr₂, -, rfl⟩ := he
  obtain ⟨new, htrace, hnew⟩ := hbody inner r₁ result r₂ hinner hr₂
    (((Draft.Extends.refl [] r₂).emit _).record _)
  obtain ⟨-, hsilent⟩ := hr₁.silent
  have hvisits : p.Visits R r₂ points := ⟨new, by rw [htrace, hsilent]; rfl, hnew⟩
  exact (hvisits.emit _).skip rfl

/-- What comes into scope with a declaration. -/
theorem Declaration.Emits.inherits (hI : Inherits W I) {d : Declaration}
    {Γ Δ D F frame above p q size} : d.Typed W.annotations Γ Δ →
    d.Emits W.annotations F frame p size q → Scene W I Γ D frame q d.ids (d.points D) →
    frame.expand size = .ok above → I Δ (D ++ d.parts) above := by
  cases d with
  | sequential m first second =>
    rintro ⟨Θ, hfirst, hsecond⟩ ⟨_, above', _, r₁, r₂, hr₁, habove', hr₂, hsum, rfl⟩ h habove
    have hend := h.of_record
    have hr₂' : r₁.Extends second.ids r₂ := ((Phrase.declaration second).files ⟨_, hsecond, hr₂⟩).2
    have hI₁ := Declaration.Emits.inherits hI hfirst hr₁ (hend.part hr₂' h.holds h.proper) habove'
    have hI₂ := Declaration.Emits.inherits hI hsecond hr₂
      (hend.part (.refl [] r₂) hI₁ (hfirst.proper h.proper)) (Frame.expand_add habove' hsum habove)
    rwa [Declaration.parts, ← List.append_assoc]
  | _ => exact fun ht he h habove => hI.declare h rfl ht he habove

/-- The visits of a phrase are those of its points. -/
def Phrase.Visited (W : Whole) (I : Context → List Declaration → Frame → Prop) (phrase : Phrase) :
    Prop :=
  ∀ ⦃Γ D F frame p n q⦄, phrase.Emitted W.annotations Γ F frame p n q →
    Scene W I Γ D frame q phrase.ids (phrase.points D) →
    p.Visits (Visit.Explained W I) q (phrase.points D)

-- What is filed is known at the end, so each step is told what is still to come after it.
theorem Phrase.Progress.visits (hI : Inherits W I) {whole : Phrase} {Γ Δ : Context}
    {F : List Parameter} {D E : List Declaration} {frame above : Frame} {p q s : Draft} {x : Int}
    {ids more : List NodeId} {points : List Point}
    (h : whole.Progress W.annotations Γ F D frame p Δ E above x ids points q)
    (ih : ∀ phrase : Phrase, sizeOf phrase < sizeOf whole → phrase.Visited W I)
    (hs : Scene W I Γ D frame s whole.ids (whole.points D)) (hq : q.Extends more s)
    (hids : ∀ id : Nat, ids.count id + more.count id ≤ whole.ids.count id)
    (hpoints : points ⊆ whole.points D) :
    (I Δ E above ∧ Δ.Proper) ∧ p.Visits (Visit.Explained W I) q points := by
  induction h generalizing more with
  | start => exact ⟨⟨hs.holds, hs.proper⟩, .refl _ _⟩
  | step _ hr hprogress =>
    obtain ⟨code, rfl | ⟨name, u, frame, rfl⟩⟩ := hr.shape
    · obtain ⟨hI', hv⟩ := hprogress hq.of_emit hids hpoints
      exact ⟨hI', hv.emit _⟩
    · obtain ⟨hI', hv⟩ := hprogress hq.of_emit.of_record hids hpoints
      exact ⟨hI', (hv.skip rfl).emit _⟩
  | file _ id entity _ hprogress =>
    have hfile p := (Draft.Extends.refl [id] p).represent (List.mem_singleton_self id) entity
    obtain ⟨hI', hv⟩ := hprogress ((hfile _).append hq) (by grind) hpoints
    exact ⟨hI', hv.represent _ _⟩
  | expand _ hsize htop hprogress =>
    obtain ⟨⟨hI', hΔ⟩, hv⟩ := hprogress hq hids hpoints
    exact ⟨⟨hI.expand hI' (hsize hΔ) htop, hΔ⟩, hv⟩
  | part _ phrase hr hlt hprogress =>
    obtain ⟨hI', hv⟩ := hprogress ((phrase.files hr).2.append hq) (by grind)
      (by grind)
    exact ⟨hI', hv.trans (ih phrase hlt hr (hs.part hq hI'.1 hI'.2 (by grind) (by grind)))⟩
  | @access _ _ _ _ _ _ _ _ _ _ _ _ _ _ vname hvname hr _ hlt hprogress =>
    have hq := hq.of_emit.of_record
    have hr : (Phrase.vname vname).Emitted _ _ _ _ _ _ _ := ⟨_, _, _, hvname, hr, rfl⟩
    obtain ⟨hI', hv⟩ := hprogress ((Phrase.files _ hr).2.append hq) (by grind) (by grind)
    have hv' := ih _ hlt hr (hs.part hq hI'.1 hI'.2 (by grind) (by grind))
    exact ⟨hI', ((hv.trans hv').skip rfl).emit _⟩
  | @declare _ _ E _ _ _ _ _ _ _ _ d hd hr htop hlt hprogress =>
    have hr' : (Phrase.declaration d).Emitted _ _ _ _ _ _ _ := ⟨_, hd, hr⟩
    obtain ⟨hI', hv⟩ := hprogress ((Phrase.files _ hr').2.append hq) (by grind) (by grind)
    have hscene : Scene W I _ _ _ _ (Phrase.declaration d).ids ((Phrase.declaration d).points E) :=
      hs.part hq hI'.1 hI'.2 (by grind) (by grind)
    exact ⟨⟨hr.inherits hI hd hscene htop, hd.proper hI'.2⟩, hv.trans (ih _ hlt hr' hscene)⟩
  | branch _ first second hr₂ hr₃ hlt₁ hlt₂ hprogress =>
    have hafter := ((second.files hr₃).2.append hq).of_emit
    obtain ⟨hI', hv⟩ := hprogress ((first.files hr₂).2.append hafter).of_emit (by grind) (by grind)
    have hv₂ := ih first hlt₁ hr₂ (hs.part hafter hI'.1 hI'.2 (by grind) (by grind))
    have hv₃ := ih second hlt₂ hr₃ (hs.part hq hI'.1 hI'.2 (by grind) (by grind))
    exact ⟨hI', (((hv.emit _).trans hv₂).emit _).trans hv₃⟩
  | whileDo body test hr₁ hr₂ hlt₁ hlt₂ =>
    have hq := hq.of_emit
    have hv₁ :=
      ih body hlt₁ hr₁ (hs.part ((test.files hr₂).2.append hq) hs.holds hs.proper (by grind)
      (by grind))
    have hv₂ := ih test hlt₂ hr₂ (hs.part hq hs.holds hs.proper (by grind) (by grind))
    exact ⟨⟨hs.holds, hs.proper⟩, ((((Draft.Visits.refl _ _).emit _).trans hv₁).trans hv₂).emit _⟩
  | loopWhile prelude test body hr₁ hr₂ hr₃ hlt₁ hlt₂ hlt₃ =>
    have hq := hq.of_emit
    have hafter := ((body.files hr₃).2.append hq).of_emit
    have hv₁ := ih prelude hlt₁ hr₁ (hs.part ((test.files hr₂).2.append hafter) hs.holds hs.proper
      (by grind) (by grind))
    have hv₂ := ih test hlt₂ hr₂ (hs.part hafter hs.holds hs.proper (by grind) (by grind))
    have hv₃ := ih body hlt₃ hr₃ (hs.part hq hs.holds hs.proper (by grind) (by grind))
    exact ⟨⟨hs.holds, hs.proper⟩, (((hv₁.trans hv₂).emit _).trans hv₃).emit _⟩

theorem Phrase.visited (hI : Inherits W I) (phrase : Phrase) : phrase.Visited W I := by
  intro Γ D F frame p n q he h
  have hclose := h.close phrase n he
  cases he.composed D with
  | parts hprogress hx hpoints hwhole hids =>
    exact hclose rfl hpoints (hprogress.visits hI (fun phrase _ => phrase.visited hI) h.of_record
      (.refl [] _) (by simpa using hids) (by grind)).2
  | routine body hn hr hd hparameters hΔ hfresh hmeaning ht hpoints hlt hids =>
    refine hclose rfl hpoints (hr.visits fun inner r₁ words r₂ hinner hr₂ hafter => ?_)
    have hproper := ht.proper (hd.proper h.proper)
    exact body.visited hI hr₂.1
      (h.of_record.part hafter (hI.enter h hparameters hd ht hinner) hproper
      (by grind [Phrase.points]) (by grind [Phrase.ids]))
termination_by sizeOf phrase

end

/-! ## Programs -/

/-- The program with all its code. -/
def Program.whole (program : Program) (A : Annotations) (q : Draft) : Whole :=
  ⟨A, q.code ++ [⟨.halt, .cb, 0, 0⟩], q.trace, q.entities, program.command.points []⟩

/-- What holds at the start and is inherited holds at every visit, and every phrase is visited in
its turn. -/
theorem Program.visits_explained {program : Program} {A : Annotations} {q : Draft}
    {I : Context → List Declaration → Frame → Prop} (ht : program.command.Typed A .empty)
    (hids : program.command.ids.Nodup) (he : program.command.Emits A [] .global .empty q)
    (hI : Inherits (program.whole A q) I) (hstart : I .empty [] .global) :
    List.Forall₂ (Visit.Explained (program.whole A q) I) (q.trace.filterMap Event.visit?)
      (program.command.points []) := by
  have hwithin : q.Within (program.whole A q).code (program.whole A q).trace :=
    ⟨List.prefix_append _ _, by simp [Draft.address, Program.whole], fun _ h => h⟩
  have hscene : Scene (program.whole A q) I .empty [] .global q program.command.ids
      (program.command.points []) :=
    ⟨hstart, (by rintro _ _ ⟨⟩), hwithin, fun _ h => h, List.nodup_iff_count_le_one.1 hids,
      fun _ _ => rfl⟩
  obtain ⟨new, htrace, hnew⟩ := (Phrase.command program.command).visited hI ⟨ht, he, rfl⟩ hscene
  rw [htrace]
  exact hnew

end Triangle
