import Triangle.Proofs.Encoding.Visits

/-!
# The routines that a call can enter

A call names a routine or a parameter.  A parameter stands for the routines that were passed for it,
by calls that again name a routine or a parameter.  `Program.Enters` is the least relation that
follows these ways through the tree.  It asks for no signatures, but the rules of typing do at each
step, so what a call can enter has the signature that the call was checked against.

Signatures are compared across scopes here, for a parameter is declared at one place and called at
another.  That every identity is used once in the tree makes the signature under it unique.
-/

namespace Triangle

variable {program : Program} {formals : Formals} {d : Declaration} {ps : Parameters} {Γ : Context}

/-! ## Signatures in the tree -/

/-- The type that is filed under an identity. -/
def Annotations.typeAt (A : Annotations) (id : NodeId) : Ty := (A.typeOf? id).getD .error

mutual

/-- A parameter as the caller sees it. -/
def Parameter.formal (A : Annotations) : Parameter → Formal
  | .const m _ _ => .const (A.typeAt m.id)
  | .func m _ parameters _ => .func (parameters.formals A) (A.typeAt m.id)
  | .proc _ _ parameters => .proc (parameters.formals A)
  | .var m _ _ => .var (A.typeAt m.id)

/-- Parameters as the caller sees them. -/
def Parameters.formals (A : Annotations) : Parameters → Formals
  | .empty _ => .nil
  | .single _ parameter => .cons (parameter.formal A) .nil
  | .multiple _ first rest => .cons (first.formal A) (rest.formals A)

end

variable {A : Annotations}

variable {id : NodeId} {name : Terminal}

theorem Annotations.typeAt_eq {τ : Ty} (h : A.typeOf? id = some τ) : A.typeAt id = τ := by
  rw [Annotations.typeAt, h, Option.getD_some]

mutual

theorem Parameter.Typed.formal_eq : {p : Parameter} → ∀ {Γ Δ formal}, p.Typed A Γ formal Δ →
    p.formal A = formal
  | .const _ _ _ | .var _ _ _ => by
    rintro ⟨_, -, htype, rfl, -⟩
    rw [Parameter.formal, Annotations.typeAt_eq htype]
  | .func _ _ _ _ => by
    rintro ⟨_, _, _, hparameters, -, htype, rfl, -⟩
    rw [Parameter.formal, Annotations.typeAt_eq htype, Parameters.Typed.formals_eq hparameters]
  | .proc _ _ _ => by
    rintro ⟨_, _, hparameters, rfl, -⟩
    rw [Parameter.formal, Parameters.Typed.formals_eq hparameters]

theorem Parameters.Typed.formals_eq : {ps : Parameters} → ∀ {Γ Δ formals}, ps.Typed A Γ formals Δ →
    ps.formals A = formals
  | .empty _ => by
    rintro ⟨rfl, -⟩
    rw [Parameters.formals]
  | .single _ _ => by
    rintro ⟨_, hp, rfl⟩
    rw [Parameters.formals, Parameter.Typed.formal_eq hp]
  | .multiple _ _ _ => by
    rintro ⟨_, _, _, hp, hrest, rfl⟩
    rw [Parameters.formals, Parameter.Typed.formal_eq hp, Parameters.Typed.formals_eq hrest]

end

/-- The signature of what can be called. -/
def Meaning.formals? : Meaning → Option Formals
  | .func formals _ | .proc formals => some formals
  | _ => none

/-- A parameter with its signature, if it can be called. -/
def Parameter.signature? (A : Annotations) (p : Parameter) : Option (NodeId × Formals) :=
  (p.formal A).meaning.formals?.map (p.mark.id, ·)

/-- The parameters that can be called, with their signatures. -/
def Parameters.signatures (A : Annotations) (ps : Parameters) : List (NodeId × Formals) :=
  ps.toList.filterMap (·.signature? A)

/-- What a phrase introduces that can be called, with the signatures. -/
def Phrase.signatures (A : Annotations) : Phrase → List (NodeId × Formals)
  | .declaration (.func m _ ps _ _) | .declaration (.proc m _ ps _) =>
    (m.id, ps.formals A) :: ps.signatures A
  | _ => []

/-- What can be called in the phrases at some points, with the signatures. -/
def Point.signatures (A : Annotations) (points : List Point) : List (NodeId × Formals) :=
  points.flatMap fun point => point.phrase.signatures A

/-- The identities of what can be called. -/
def Point.callable (A : Annotations) (points : List Point) : List NodeId :=
  (Point.signatures A points).map Prod.fst

section

variable (A)

theorem Point.callable_append (xs ys : List Point) :
    Point.callable A (xs ++ ys) = Point.callable A xs ++ Point.callable A ys := by
  simp [Point.callable, Point.signatures]

theorem Point.callable_singleton (point : Point) :
    Point.callable A [point] = (point.phrase.signatures A).map Prod.fst := by
  simp [Point.callable, Point.signatures]

end

/-! ## No identity is introduced twice -/

section

variable (A) (id : Nat)

theorem Parameter.count_mark (p : Parameter) : [p.mark.id].count id ≤ p.ids.count id := by
  cases p <;> simp only [Parameter.mark, Parameter.ids, List.count_append] <;> omega

theorem Parameters.count_marks (ps : Parameters) :
    (ps.toList.map (·.mark.id)).count id ≤ ps.ids.count id := by
  cases ps with
  | empty _ => exact Nat.zero_le _
  | single _ p =>
    have h := p.count_mark id
    simp only [Parameters.toList, List.map_cons, List.map_nil, Parameters.ids, List.count_append]
    omega
  | multiple _ first rest =>
    have h₁ := first.count_mark id
    have h₂ := rest.count_marks
    simp only [Parameters.toList, List.map_cons, List.count_cons, List.count_nil, Parameters.ids,
      List.count_append] at h₁ ⊢
    omega

/-- The parameters that can be called are among the parameters. -/
theorem Parameters.signatures_sublist (ps : Parameters) :
    ((ps.signatures A).map Prod.fst).Sublist (ps.toList.map (·.mark.id)) := by
  rw [Parameters.signatures]
  induction ps.toList with
  | nil => exact .slnil
  | cons p rest ih =>
    rw [List.filterMap_cons, List.map_cons]
    split
    · exact ih.cons _
    · rename_i signature hsignature
      obtain ⟨formals, -, rfl⟩ := Option.map_eq_some_iff.1 hsignature
      exact ih.cons_cons _

/-- Each parameter has at most one signature, under its own node. -/
theorem Parameters.count_signatures (ps : Parameters) :
    ((ps.signatures A).map Prod.fst).count id ≤ ps.ids.count id :=
  Nat.le_trans ((ps.signatures_sublist A).count_le id) (ps.count_marks id)

/-- A phrase that code was generated for introduces nothing that can be called twice. -/
def Phrase.Distinguishes (phrase : Phrase) : Prop :=
  ∀ ⦃Γ F frame p n q⦄, phrase.Emitted A Γ F frame p n q → ∀ D,
    (Point.callable A (phrase.points D)).count id ≤ phrase.ids.count id

variable {A id}

theorem Phrase.Progress.count_callable {whole : Phrase} {Γ Δ : Context} {F : List Parameter}
    {D E : List Declaration} {frame above : Frame} {p q : Draft} {x : Int} {ids : List NodeId}
    {points : List Point} (h : whole.Progress A Γ F D frame p Δ E above x ids points q)
    (ih : ∀ phrase : Phrase, sizeOf phrase < sizeOf whole → phrase.Distinguishes A id) :
    (Point.callable A points).count id ≤ ids.count id := by
  induction h with
  | start => exact Nat.le_refl _
  | step _ _ hprogress | expand _ _ _ hprogress => exact hprogress
  | file _ _ _ _ hprogress =>
    rw [List.count_append]
    exact Nat.le_add_right_of_le hprogress
  | part _ phrase hr hlt hprogress =>
    rw [Point.callable_append, List.count_append, List.count_append]
    exact Nat.add_le_add hprogress (ih phrase hlt hr _)
  | access _ hvname hr _ hlt hprogress =>
    rw [Point.callable_append, List.count_append, List.count_append]
    exact Nat.add_le_add hprogress (ih (.vname _) hlt ⟨_, _, _, hvname, hr, rfl⟩ _)
  | declare _ hd hr _ hlt hprogress =>
    rw [Point.callable_append, List.count_append, List.count_append]
    exact Nat.add_le_add hprogress (ih (.declaration _) hlt ⟨_, hd, hr⟩ _)
  | branch _ first second hr₂ hr₃ hlt₁ hlt₂ hprogress =>
    simp only [Point.callable_append, List.count_append]
    exact Nat.add_le_add (Nat.add_le_add hprogress (ih first hlt₁ hr₂ _)) (ih second hlt₂ hr₃ _)
  | whileDo body test hr₁ hr₂ hlt₁ hlt₂ =>
    simp only [Point.callable_append, List.count_append]
    exact Nat.add_le_add (ih body hlt₁ hr₁ _) (ih test hlt₂ hr₂ _)
  | loopWhile prelude test body hr₁ hr₂ hr₃ hlt₁ hlt₂ hlt₃ =>
    simp only [Point.callable_append, List.count_append]
    exact Nat.add_le_add (Nat.add_le_add (ih prelude hlt₁ hr₁ _) (ih test hlt₂ hr₂ _))
      (ih body hlt₃ hr₃ _)

/-- A routine is bound to the node of its declaration. -/
theorem Declaration.Typed.mark_eq {meaning : Meaning} (h : d.Typed A Γ (Γ.bind id meaning))
    (hps : d.parameters? = some ps) (hfresh : Γ id = none) : d.mark.id = id := by
  have hself := Context.bind_self Γ id meaning
  cases d with
  | func =>
    obtain ⟨_, _, _, -, -, -, heq, -, -⟩ := h
    rw [heq] at hself
    obtain ⟨rfl, -⟩ | ⟨-, hΓ⟩ := Context.bind_eq_some hself
    · rfl
    · cases hfresh.symm.trans hΓ
  | proc =>
    obtain ⟨_, _, -, heq, -, -⟩ := h
    rw [heq] at hself
    obtain ⟨rfl, -⟩ | ⟨-, hΓ⟩ := Context.bind_eq_some hself
    · rfl
    · cases hfresh.symm.trans hΓ
  | _ => cases hps

theorem Declaration.signatures_eq (h : d.parameters? = some ps) :
    (Phrase.declaration d).signatures A = (d.mark.id, ps.formals A) :: ps.signatures A := by
  cases d with
  | func | proc =>
    cases h
    rfl
  | _ => cases h

/-- Only routines introduce what can be called. -/
theorem Phrase.signatures_eq_nil {phrase : Phrase} (h : phrase.isRoutine = false) :
    phrase.signatures A = [] := by
  cases phrase with
  | declaration d => cases d <;> first | rfl | cases h
  | _ => rfl

theorem Phrase.distinguishes (phrase : Phrase) : phrase.Distinguishes A id := by
  intro Γ F frame p n q h D
  cases h.composed D with
  | parts hprogress _ hpoints hwhole hids =>
    have hparts := hprogress.count_callable fun phrase _ => phrase.distinguishes
    rw [hpoints, Point.callable_append, Point.callable_singleton, Phrase.signatures_eq_nil hwhole,
      List.map_nil, List.append_nil]
    exact Nat.le_trans hparts (hids id)
  | @routine d m parameters _ _ _ _ _ _ body _ hr hd hparameters hΔ hfresh _ _ hpoints hlt hids =>
    obtain ⟨inner, outer, arguments, result, r₁, r₂, -, -, -, -, ⟨hbody, -⟩, -, -⟩ := hr
    subst hΔ
    have hmark := hd.mark_eq hparameters hfresh
    have hcount := body.distinguishes hbody (D ++ [d])
    have hsignatures := parameters.count_signatures A id
    have hids := hids id
    change (Point.callable A (d.points D)).count id ≤ d.ids.count id
    rw [hpoints, Point.callable_append, Point.callable_singleton,
      Declaration.signatures_eq hparameters, List.map_cons, hmark]
    simp only [List.count_append, List.count_cons, List.count_nil] at hids ⊢
    omega
termination_by sizeOf phrase

end

/-- There is one signature under an identity. -/
theorem Program.signature_unique {formals' : Formals} {q : Draft}
    (ht : program.command.Typed A .empty) (hids : program.command.ids.Nodup)
    (he : program.command.Emits A [] .global .empty q)
    (h : (id, formals) ∈ Point.signatures A (program.command.points []))
    (h' : (id, formals') ∈ Point.signatures A (program.command.points [])) :
    formals = formals' := by
  have hnodup : (Point.callable A (program.command.points [])).Nodup :=
    List.nodup_iff_count_le_one.2 fun id =>
      Nat.le_trans ((Phrase.command program.command).distinguishes ⟨ht, he, rfl⟩ [])
        (List.nodup_iff_count_le_one.1 hids id)
  exact congrArg Prod.snd (List.inj_on_of_nodup_map hnodup h h' rfl)

/-! ## Signatures in contexts

A context forgets where a routine was declared.  That all of it is drawn from one tree is what makes
signatures comparable between scopes. -/

/-- What a context knows that can be called is introduced somewhere in the tree, with the signature
that the context knows. -/
def Context.Drawn (A : Annotations) (points : List Point) (Γ : Context) : Prop :=
  ∀ ⦃id meaning formals⦄, Γ id = some meaning → meaning.formals? = some formals →
    (id, formals) ∈ Point.signatures A points

section

variable {Γ Δ : Context} {points : List Point}

theorem Point.mem_signatures {point : Point} {signature : NodeId × Formals} (h : point ∈ points)
    (hsignature : signature ∈ point.phrase.signatures A) : signature ∈ Point.signatures A points :=
  List.mem_flatMap.2 ⟨point, h, hsignature⟩

theorem Declaration.point_mem (d : Declaration) (D : List Declaration) :
    ⟨.declaration d, D⟩ ∈ d.points D := by
  cases d <;> exact List.mem_append_right _ List.mem_cons_self

/-- What the tree introduces may be bound. -/
theorem Context.Drawn.bind {meaning : Meaning} (h : Γ.Drawn A points)
    (hmeaning : ∀ formals, meaning.formals? = some formals →
      (id, formals) ∈ Point.signatures A points) : (Γ.bind id meaning).Drawn A points := by
  intro other meaning' formals hother hformals
  obtain ⟨rfl, rfl⟩ | ⟨-, hother⟩ := Context.bind_eq_some hother
  · exact hmeaning formals hformals
  · exact h hother hformals

theorem Parameter.Typed.drawn {p : Parameter} {formal : Formal} (ht : p.Typed A Γ formal Δ)
    (h : Γ.Drawn A points)
    (hp : ∀ signature, p.signature? A = some signature → signature ∈ Point.signatures A points) :
    Δ.Drawn A points := by
  rw [ht.binds.2]
  refine h.bind fun formals hformals => hp _ ?_
  rw [Parameter.signature?, ht.formal_eq, hformals, Option.map_some]

theorem Parameters.Typed.drawn : {ps : Parameters} → ∀ {Γ Δ formals}, ps.Typed A Γ formals Δ →
    Γ.Drawn A points → (∀ p ∈ ps.toList, ∀ signature, p.signature? A = some signature → signature ∈
    Point.signatures A points) → Δ.Drawn A points
  | .empty _ => by
    rintro ⟨-, rfl⟩ h _
    exact h
  | .single _ p => by
    rintro ⟨_, hp, -⟩ h hps
    exact hp.drawn h (hps p List.mem_cons_self)
  | .multiple _ p _ => by
    rintro ⟨_, _, _, hp, hrest, -⟩ h hps
    exact Parameters.Typed.drawn hrest (hp.drawn h (hps p List.mem_cons_self))
      fun p' hp' => hps p' (List.mem_cons_of_mem _ hp')

/-- A declaration by itself introduces nothing that can be called but a routine. -/
theorem Declaration.Typed.drawn (ht : d.Typed A Γ Δ) (h : Γ.Drawn A points)
    (hsingle : d.name?.isSome = true) {D : List Declaration} (hd : ⟨.declaration d, D⟩ ∈ points) :
    Δ.Drawn A points := by
  cases d with
  | binaryOperator | unaryOperator => exact ht.elim
  | sequential => cases hsingle
  | const | type | var =>
    obtain ⟨_, -, -, -, rfl⟩ := ht
    exact h.bind fun _ hformals => nomatch hformals
  | func m name ps result body =>
    obtain ⟨_, _, _, -, -, -, rfl, hps, -⟩ := ht
    refine h.bind fun formals hformals => Point.mem_signatures hd ?_
    cases hformals
    rw [← hps.formals_eq]
    exact List.mem_cons_self
  | proc m name ps body =>
    obtain ⟨_, _, -, rfl, hps, -⟩ := ht
    refine h.bind fun formals hformals => Point.mem_signatures hd ?_
    cases hformals
    rw [← hps.formals_eq]
    exact List.mem_cons_self

end

/-- Every context inside a program is drawn from it. -/
theorem inherits_drawn (W : Whole) :
    Inherits W fun Γ _ _ => Γ.Drawn W.annotations W.points where
  expand h _ _ := h
  declare {d} _ _ D _ _ _ _ _ _ hscene hsingle ht _ _ :=
    ht.drawn hscene.holds hsingle (hscene.listed _ (d.point_mem D))
  enter {d} _ _ _ _ _ D _ _ _ hscene hparameters ht htparameters _ := by
    have hpoint := hscene.listed _ (d.point_mem D)
    have hsingle : d.name?.isSome = true := by
      cases d with
      | sequential => cases hparameters
      | _ => rfl
    refine htparameters.drawn (ht.drawn hscene.holds hsingle hpoint)
      fun p hp signature hsignature => ?_
    refine Point.mem_signatures hpoint ?_
    rw [Declaration.signatures_eq hparameters]
    exact List.mem_cons_of_mem _ (List.mem_filterMap.2 ⟨p, hp, hsignature⟩)

/-! ## Calls -/

/-- The name and the arguments of a call. -/
def Phrase.call? : Phrase → Option (Terminal × Arguments)
  | .command (.call _ name actuals) | .expression (.call _ name actuals) => some (name, actuals)
  | _ => none

/-- The name of a routine that is passed. -/
def Argument.routine? : Argument → Option Terminal
  | .func _ name | .proc _ name => some name
  | _ => none

/-- The arguments in a sequence. -/
def Arguments.toList : Arguments → List Argument
  | .empty _ => []
  | .single _ argument => [argument]
  | .multiple _ first rest => first :: rest.toList

/-- A call of what is introduced under an identity can enter a routine: the routine is itself
introduced there, or a parameter is, and the routine can be entered through what some call passes
for it. -/
inductive Program.Enters (program : Program) (A : Annotations) : NodeId → Declaration → Prop
  | self {d : Declaration} {D : List Declaration}
    (listed : ⟨.declaration d, D⟩ ∈ program.command.points [])
    (routine : d.parameters?.isSome = true) : program.Enters A d.mark.id d
  | passed {point : Point} {name passed : Terminal} {arguments : Arguments} {id id' : NodeId}
    {d d' : Declaration} {ps : Parameters} {i : Nat} {argument : Argument} {p : Parameter}
    (listed : point ∈ program.command.points [])
    (call : point.phrase.call? = some (name, arguments))
    (callee : A.referentOf? name.mark.id = some (.node id)) (enters : program.Enters A id d)
    (parameters : d.parameters? = some ps) (actual : arguments.toList[i]? = some argument)
    (formal : ps.toList[i]? = some p) (routine : argument.routine? = some passed)
    (referent : A.referentOf? passed.mark.id = some (.node id'))
    (reaches : program.Enters A id' d') :
    program.Enters A p.mark.id d'

/-- What can be entered is a routine of the program. -/
theorem Program.Enters.declared (h : program.Enters A id d) :
    ∃ D, ⟨.declaration d, D⟩ ∈ program.command.points [] := by
  induction h with
  | self listed => exact ⟨_, listed⟩
  | passed _ _ _ _ _ _ _ _ _ _ _ ih => exact ih

/-- A call names something with a signature, and its arguments may be passed for that. -/
def Phrase.Checked (A : Annotations) (Γ : Context) (name : Terminal) (actuals : Arguments)
    (formals : Formals) : Prop :=
  ∃ meaning, A.Means Γ name meaning ∧ meaning.formals? = some formals ∧ actuals.Typed A Γ formals

/-- The code of a call is that of its arguments, and then something happens with the name. -/
theorem Phrase.Emitted.call {phrase : Phrase} {Γ : Context} {F : List Parameter} {frame : Frame}
    {p q : Draft} {pushed : Int} {actuals : Arguments} (h : phrase.Emitted A Γ F frame p pushed q)
    (hcall : phrase.call? = some (name, actuals)) :
    ∃ formals size r entity above, Phrase.Checked A Γ name actuals formals ∧
      actuals.Emits A F frame p size r ∧ r.trace ⊆ q.trace ∧
      .use name (.call entity) F above r.address ∈ q.trace := by
  cases phrase with
  | command c =>
    cases c with
    | call m name actuals =>
      cases hcall
      obtain ⟨⟨formals, hname, harguments⟩, ⟨size, above, r, code, hr, -, -, rfl⟩, -⟩ := h
      refine ⟨formals, size, r, A.entityOf r.entities name, above, ⟨_, hname, rfl, harguments⟩, hr,
        fun _ hevent => ?_, ?_⟩
      · exact List.mem_append_left _ (List.mem_append_left _ hevent)
      · exact List.mem_append_left _ (List.mem_append_right _ List.mem_cons_self)
    | _ => cases hcall
  | expression e =>
    cases e with
    | call m name actuals =>
      cases hcall
      obtain ⟨τ, ⟨-, formals, hname, harguments⟩, size, above, r, code, hr, -, -, -, rfl⟩ := h
      refine ⟨formals, size, r, A.entityOf r.entities name, above, ⟨_, hname, rfl, harguments⟩, hr,
        fun _ hevent => ?_, ?_⟩
      · exact List.mem_append_left _ (List.mem_append_left _ hevent)
      · exact List.mem_append_left _ (List.mem_append_right _ List.mem_cons_self)
    | _ => cases hcall
  | _ => cases hcall

theorem Parameters.toList_formals (A : Annotations) (ps : Parameters) :
    (ps.formals A).toList = ps.toList.map (·.formal A) := by
  cases ps with
  | empty _ => rfl
  | single _ _ => rfl
  | multiple _ first rest =>
    rw [Parameters.formals, Formals.toList, rest.toList_formals A, Parameters.toList,
      List.map_cons]

theorem Arguments.Typed.forall₂ {arguments : Arguments} {Γ : Context} {formals : Formals}
    (h : arguments.Typed A Γ formals) :
    List.Forall₂ (fun argument formal => argument.Typed A Γ formal) arguments.toList
      formals.toList := by
  cases arguments with
  | empty _ =>
    obtain rfl := h
    exact .nil
  | single _ _ =>
    obtain ⟨_, hargument, rfl⟩ := h
    exact .cons hargument .nil
  | multiple _ _ _ =>
    obtain ⟨_, _, hfirst, hrest, rfl⟩ := h
    exact .cons hfirst (Arguments.Typed.forall₂ hrest)

/-- The arguments for parameters match them one by one. -/
theorem Arguments.Typed.forall₂_parameters {arguments : Arguments}
    (h : arguments.Typed A Γ (ps.formals A)) :
    List.Forall₂ (fun argument p => argument.Typed A Γ (p.formal A)) arguments.toList
      ps.toList := by
  have h := h.forall₂
  rwa [ps.toList_formals A, List.forall₂_map_right_iff] at h

/-- A routine that is passed on has the signature its formal demands. -/
theorem Argument.Typed.routine {argument : Argument} {Γ : Context} {formal : Formal}
    (h : argument.Typed A Γ formal) (hroutine : argument.routine? = some name) :
    ∃ meaning formals, A.Means Γ name meaning ∧ meaning.formals? = some formals ∧
      formal.meaning.formals? = some formals := by
  cases argument with
  | const | var => cases hroutine
  | func m name =>
    cases hroutine
    obtain ⟨formals, τ, hname, rfl⟩ := h
    exact ⟨_, formals, hname, rfl, rfl⟩
  | proc m name =>
    cases hroutine
    obtain ⟨formals, hname, rfl⟩ := h
    exact ⟨_, formals, hname, rfl, rfl⟩

theorem Annotations.Means.drawn {meaning : Meaning} {points : List Point}
    (h : A.Means Γ name meaning) (hid : A.referentOf? name.mark.id = some (.node id))
    (hformals : meaning.formals? = some formals) (hΓ : Γ.Drawn A points) :
    (id, formals) ∈ Point.signatures A points := by
  obtain ⟨referent, hreferent, hmeaning⟩ := h
  rw [hid] at hreferent
  cases hreferent
  exact hΓ hmeaning hformals

/-- What a call can enter has the signature that the call goes by. -/
theorem Program.Enters.signature {program : Program} {q : Draft}
    (ht : program.command.Typed A .empty) (hids : program.command.ids.Nodup)
    (he : program.command.Emits A [] .global .empty q)
    (hcalls : ∀ point ∈ program.command.points [], ∀ name arguments,
      point.phrase.call? = some (name, arguments) →
      ∃ Γ formals, Γ.Drawn A (program.command.points []) ∧
        Phrase.Checked A Γ name arguments formals) {d : Declaration} (h : program.Enters A id d)
    {formals : Formals} {ps : Parameters}
    (hsignature : (id, formals) ∈ Point.signatures A (program.command.points []))
    (hps : d.parameters? = some ps) : formals = ps.formals A := by
  induction h generalizing formals ps with
  | self listed =>
    refine Program.signature_unique ht hids he hsignature (Point.mem_signatures listed ?_)
    rw [Declaration.signatures_eq hps]
    exact List.mem_cons_self
  | @passed point name passed arguments id id' d d' ps' i argument p listed call callee
      enters parameters
      actual formal routine referent reaches ihcallee ih =>
    obtain ⟨Γ, signature, hΓ, meaning, hname, hmeaning, harguments⟩ :=
      hcalls point listed name arguments call
    obtain rfl := ihcallee (hname.drawn callee hmeaning hΓ) parameters
    obtain ⟨hi, rfl⟩ := List.getElem?_eq_some_iff.1 actual
    obtain ⟨hi', rfl⟩ := List.getElem?_eq_some_iff.1 formal
    have hargument : arguments.toList[i].Typed A Γ (ps'.toList[i].formal A) :=
      harguments.forall₂_parameters.get hi hi'
    obtain ⟨_, formals', hpassed, hpassed', hformal⟩ := hargument.routine routine
    obtain rfl := ih (hpassed.drawn referent hpassed' hΓ) hps
    -- The parameter is introduced by the routine that is called, with the signature of what is
    -- passed.
    obtain ⟨D, hd⟩ := enters.declared
    refine Program.signature_unique ht hids he hsignature (Point.mem_signatures hd ?_)
    rw [Declaration.signatures_eq parameters]
    refine List.mem_cons_of_mem _ (List.mem_filterMap.2 ⟨_, List.getElem_mem hi', ?_⟩)
    rw [Parameter.signature?, hformal, Option.map_some]

end Triangle
