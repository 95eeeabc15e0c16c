import Triangle.Proofs.Encoding.Composition

/-!
# What code generation leaves alone

A draft only grows while code is generated: code and trace are appended to, and what the
declarations in the context stand for stays as it is, because a declaration is filed under a node
that the context does not have yet.

Generating the code of a phrase also files entities only under identities of the phrase itself.
This says something of declarations that have gone out of scope: as long as no identity is used
twice, their entities are still on file when all the code is there.
-/

namespace Triangle

variable {Γ Δ : Context} {frame : Frame} {p q : Draft} {m : Mark} {parameters : Parameters}
  {body : Frame → Draft → Int → Draft → Prop} {meaning : Meaning} {formals : Formals}

/-- One draft goes on from another, as far as a context can tell. -/
structure Draft.Grows (Γ : Context) (p q : Draft) : Prop where
  code : p.code <+: q.code
  trace : p.trace <+: q.trace
  entities : ∀ ⦃id⦄, Γ id ≠ none → q.entities.get? id = p.entities.get? id

namespace Draft.Grows

variable {Γ Δ : Context} {p q r : Draft}

theorem refl (Γ : Context) (p : Draft) : p.Grows Γ p :=
  ⟨List.prefix_rfl, List.prefix_rfl, fun _ _ => rfl⟩

theorem trans (h₁ : p.Grows Γ q) (h₂ : q.Grows Γ r) : p.Grows Γ r :=
  ⟨h₁.code.trans h₂.code, h₁.trace.trans h₂.trace,
    fun _ hid => (h₂.entities hid).trans (h₁.entities hid)⟩

/-- A smaller context sees less. -/
theorem mono (h : p.Grows Δ q) (hle : Γ.Le Δ) : p.Grows Γ q := by
  refine ⟨h.code, h.trace, fun id hid => h.entities ?_⟩
  obtain ⟨meaning, hmeaning⟩ := Option.ne_none_iff_exists'.1 hid
  rw [hle hmeaning]
  exact Option.some_ne_none _

theorem emit (h : p.Grows Γ q) (code : List Instruction) : p.Grows Γ (q.emit code) :=
  ⟨h.code.trans (List.prefix_append _ _), h.trace, h.entities⟩

theorem record (h : p.Grows Γ q) (event : Event) : p.Grows Γ (q.record event) :=
  ⟨h.code, h.trace.trans (List.prefix_append _ _), h.entities⟩

/-- Filing under a node the context does not know changes none that it knows. -/
theorem represent (h : p.Grows Γ q) {id : NodeId} (hid : Γ id = none) (entity : Entity) :
    p.Grows Γ (q.represent id entity) := by
  refine ⟨h.code, h.trace, fun other hother => ?_⟩
  have hne : id ≠ other := by
    rintro rfl
    exact hother hid
  simp only [Draft.entities_represent, NodeMap.get?_insert, if_neg hne]
  exact h.entities hother

end Draft.Grows

variable {A : Annotations}

/-- Placing parameters generates no code. -/
theorem Parameters.Placed.silent {parameters : Parameters} {frame p q size} :
    parameters.Placed A frame p size q → q.code = p.code ∧ q.trace = p.trace := by
  cases parameters with
  | empty _ =>
    rintro ⟨-, rfl⟩
    exact ⟨rfl, rfl⟩
  | single _ parameter =>
    intro he
    cases parameter <;> obtain ⟨-, _, -, rfl⟩ := he <;> exact ⟨rfl, rfl⟩
  | multiple _ first _ =>
    rintro ⟨_, r, _, _, hr, -, hq, -⟩
    have hr := Parameters.Placed.silent hr
    cases first <;> obtain ⟨-, _, -, rfl⟩ := hq <;> exact hr

theorem Parameter.Placed.grows {size : Int} {formal : Formal} {parameter : Parameter}
    (ht : parameter.Typed A Γ formal Δ) (he : parameter.Placed A frame p size q) : p.Grows Γ q := by
  have hfresh := ht.binds.1
  cases parameter <;> obtain ⟨-, _, -, rfl⟩ := he <;>
    exact (Draft.Grows.refl Γ p).represent hfresh _

theorem Parameters.Placed.grows {parameters : Parameters} {Γ Δ frame p q size formals} :
    parameters.Typed A Γ formals Δ → parameters.Placed A frame p size q → p.Grows Γ q := by
  cases parameters with
  | empty _ =>
    rintro _ ⟨-, rfl⟩
    exact .refl _ _
  | single _ _ =>
    rintro ⟨_, ht, -⟩ he
    exact Parameter.Placed.grows ht he
  | multiple _ _ rest =>
    rintro ⟨_, _, _, hfirst, hrest, -⟩ ⟨_, r, _, _, hr, -, hq, -⟩
    exact ((hr.grows hrest).mono hfirst.le).trans (hq.grows hfirst)

/-- A routine is filed first; after that the context has it. -/
theorem Emission.Routine.grows_bind (ht : parameters.Typed A (Γ.bind m.id meaning) formals Δ)
    (hbody : ∀ inner p words q, body inner p words q → p.Grows Δ q)
    (he : Emission.Routine A m parameters frame body p q) :
    ∃ jump, ((p.emit [jump]).represent m.id
      (.knownRoutine ⟨frame.level, (p.address + 1 : Nat)⟩)).Grows (Γ.bind m.id meaning) q := by
  obtain ⟨inner, outer, arguments, result, r₁, r₂, -, -, -, hr₁, hr₂, -, rfl⟩ := he
  exact ⟨_, (hr₁.grows ht).trans ((hbody _ _ _ _ hr₂).mono ht.le) |>.emit _ |>.record _⟩

/-- Neither a routine nor its parameters were known before it. -/
theorem Emission.Routine.grows (hfresh : Γ m.id = none)
    (ht : parameters.Typed A (Γ.bind m.id meaning) formals Δ)
    (hbody : ∀ inner p words q, body inner p words q → p.Grows Δ q)
    (he : Emission.Routine A m parameters frame body p q) : p.Grows Γ q := by
  obtain ⟨jump, hgrows⟩ := he.grows_bind ht hbody
  exact (((Draft.Grows.refl Γ p).emit [jump]).represent hfresh _).trans
    (hgrows.mono (Context.le_bind meaning hfresh))

/-- One draft goes on from another, and files nothing but under certain identities. -/
structure Draft.Extends (ids : List NodeId) (p q : Draft) : Prop where
  code : p.code <+: q.code
  trace : p.trace <+: q.trace
  entities : ∀ id, id ∉ ids → q.entities.get? id = p.entities.get? id

namespace Draft.Extends

variable {ids ids' : List NodeId} {p q r : Draft}

theorem refl (ids : List NodeId) (p : Draft) : p.Extends ids p :=
  ⟨List.prefix_rfl, List.prefix_rfl, fun _ _ => rfl⟩

theorem trans (h₁ : p.Extends ids r) (h₂ : r.Extends ids q) : p.Extends ids q :=
  ⟨h₁.code.trans h₂.code, h₁.trace.trans h₂.trace,
    fun id hid => (h₂.entities id hid).trans (h₁.entities id hid)⟩

theorem mono (h : p.Extends ids q) (hids : ∀ id ∈ ids, id ∈ ids') : p.Extends ids' q :=
  ⟨h.code, h.trace, fun id hid => h.entities id fun hmem => hid (hids id hmem)⟩

theorem mono_count (h : p.Extends ids q) (hids : ∀ id : Nat, ids.count id ≤ ids'.count id) :
    p.Extends ids' q :=
  h.mono fun id hid => List.count_pos_iff.1
    (Nat.lt_of_lt_of_le (List.count_pos_iff.2 hid) (hids id))

/-- More identities, before the others. -/
theorem right (h : p.Extends ids q) (ids' : List NodeId) : p.Extends (ids' ++ ids) q :=
  h.mono fun _ hid => List.mem_append_right _ hid

/-- More identities, after the others. -/
theorem left (h : p.Extends ids q) (ids' : List NodeId) : p.Extends (ids ++ ids') q :=
  h.mono fun _ hid => List.mem_append_left _ hid

theorem append (h₁ : p.Extends ids r) (h₂ : r.Extends ids' q) : p.Extends (ids ++ ids') q :=
  (h₁.left ids').trans (h₂.right ids)

/-- The parts do not come in the order in which they are generated. -/
theorem swap (h₁ : p.Extends ids' r) (h₂ : r.Extends ids q) : p.Extends (ids ++ ids') q :=
  (h₁.right ids).trans (h₂.left ids')

theorem emit (h : p.Extends ids q) (code : List Instruction) : p.Extends ids (q.emit code) :=
  ⟨h.code.trans (List.prefix_append _ _), h.trace, h.entities⟩

theorem of_emit {code : List Instruction} (h : (p.emit code).Extends ids q) : p.Extends ids q :=
  ⟨(List.prefix_append _ _).trans h.code, h.trace, h.entities⟩

theorem record (h : p.Extends ids q) (event : Event) : p.Extends ids (q.record event) :=
  ⟨h.code, h.trace.trans (List.prefix_append _ _), h.entities⟩

theorem of_record {event : Event} (h : (p.record event).Extends ids q) : p.Extends ids q :=
  ⟨h.code, (List.prefix_append _ _).trans h.trace, h.entities⟩

theorem represent (h : p.Extends ids q) {id : NodeId} (hid : id ∈ ids) (entity : Entity) :
    p.Extends ids (q.represent id entity) := by
  refine ⟨h.code, h.trace, fun other hother => ?_⟩
  have hne : id ≠ other := fun heq => hother (heq ▸ hid)
  simp only [Draft.entities_represent, NodeMap.get?_insert, if_neg hne]
  exact h.entities other hother

end Draft.Extends

/-! ## Parameters -/

theorem Parameter.mark_mem_ids (parameter : Parameter) : parameter.mark.id ∈ parameter.ids := by
  cases parameter <;> simp [Parameter.mark, Parameter.ids]

theorem Parameter.Placed.extends {parameter : Parameter} {frame : Frame} {p q : Draft} {size : Int}
    (he : parameter.Placed A frame p size q) : p.Extends parameter.ids q := by
  have hid := parameter.mark_mem_ids
  cases parameter <;> obtain ⟨-, _, -, rfl⟩ := he <;>
    exact (Draft.Extends.refl _ p).represent hid _

theorem Parameters.Placed.extends {parameters : Parameters} {frame p q size} :
    parameters.Placed A frame p size q → p.Extends parameters.ids q := by
  cases parameters with
  | empty _ =>
    rintro ⟨-, rfl⟩
    exact .refl _ _
  | single _ _ => exact fun he => (Parameter.Placed.extends he).left _
  | multiple _ _ _ =>
    rintro ⟨_, r, _, _, hr, -, hq, -⟩
    exact (hr.extends.swap hq.extends).left _

/-- A routine files itself and its parameters, and whatever its body does. -/
theorem Emission.Routine.extends {m : Mark} {parameters : Parameters} {frame : Frame}
    {body : Frame → Draft → Int → Draft → Prop} {p q : Draft} {ids : List NodeId}
    (he : Emission.Routine A m parameters frame body p q)
    (hbody : ∀ inner p words q, body inner p words q → p.Extends ids q) :
    p.Extends (parameters.ids ++ ids ++ [m.id]) q := by
  obtain ⟨inner, outer, arguments, result, r₁, r₂, -, -, -, hr₁, hr₂, -, rfl⟩ := he
  have h₀ :=
    ((Draft.Extends.refl [m.id] p).emit [⟨.jump, .cb, 0, (r₂.address + 1 : Nat)⟩]).represent
    (List.mem_singleton_self m.id) (.knownRoutine ⟨frame.level, (p.address + 1 : Nat)⟩)
  exact ((h₀.swap (hr₁.extends.append (hbody _ _ _ _ hr₂))).emit _).record _

/-! ## Phrases -/

/-- A step between the parts emits code, and before that it may use a name. -/
theorem Draft.Advances.shape {F : List Parameter} {x y : Int} (h : p.Advances A Γ F x y q) :
    ∃ code, q = p.emit code ∨ ∃ name u frame, q = (p.use name u F frame).emit code := by
  cases h with
  | literal | scale | push | pop | stores => exact ⟨_, .inl rfl⟩
  | call | binary | unary | closure => exact ⟨_, .inr ⟨_, _, _, rfl⟩⟩

theorem Draft.Advances.grows {F : List Parameter} {x y : Int} (h : p.Advances A Γ F x y q)
    (Δ : Context) :
    p.Grows Δ q := by
  obtain ⟨code, rfl | ⟨name, u, frame, rfl⟩⟩ := h.shape
  · exact (Draft.Grows.refl Δ p).emit code
  · exact ((Draft.Grows.refl Δ p).record _).emit code

/-- What a phrase leaves alone. -/
def Phrase.Files (A : Annotations) (phrase : Phrase) : Prop :=
  ∀ ⦃Γ F frame p n q⦄, phrase.Emitted A Γ F frame p n q → p.Grows Γ q ∧ p.Extends phrase.ids q

theorem Phrase.Progress.files {whole : Phrase} {F : List Parameter} {D E : List Declaration}
    {above : Frame} {x : Int} {ids : List NodeId} {points : List Point}
    (h : whole.Progress A Γ F D frame p Δ E above x ids points q)
    (ih : ∀ phrase : Phrase, sizeOf phrase < sizeOf whole → phrase.Files A) :
    Γ.Le Δ ∧ p.Grows Γ q ∧ p.Extends ids q := by
  induction h with
  | start => exact ⟨.refl _, .refl _ _, .refl _ _⟩
  | step _ hr hq =>
    obtain ⟨hle, hgrows, hextends⟩ := hq
    obtain ⟨code, rfl | ⟨name, u, frame, rfl⟩⟩ := hr.shape
    · exact ⟨hle, hgrows.emit _, hextends.emit _⟩
    · exact ⟨hle, (hgrows.record _).emit _, (hextends.record _).emit _⟩
  | file _ id entity hid hq =>
    obtain ⟨hle, hgrows, hextends⟩ := hq
    exact ⟨hle, hgrows.trans (((Draft.Grows.refl _ _).represent hid entity).mono hle),
      hextends.append ((Draft.Extends.refl [id] _).represent (List.mem_singleton_self id) entity)⟩
  | expand _ _ _ hq => exact hq
  | part _ phrase hr hlt hq =>
    obtain ⟨hle, hgrows, hextends⟩ := hq
    obtain ⟨hgrows', hextends'⟩ := ih phrase hlt hr
    exact ⟨hle, hgrows.trans (hgrows'.mono hle), hextends.append hextends'⟩
  | access _ hvname hr _ hlt hq =>
    obtain ⟨hle, hgrows, hextends⟩ := hq
    obtain ⟨hgrows', hextends'⟩ := ih _ hlt ⟨_, _, _, hvname, hr, rfl⟩
    exact ⟨hle, ((hgrows.trans (hgrows'.mono hle)).record _).emit _,
      ((hextends.append hextends').record _).emit _⟩
  | declare _ hd hr _ hlt hq =>
    obtain ⟨hle, hgrows, hextends⟩ := hq
    obtain ⟨hgrows', hextends'⟩ := ih _ hlt ⟨_, hd, hr⟩
    exact ⟨hle.trans hd.le, hgrows.trans (hgrows'.mono hle), hextends.append hextends'⟩
  | branch _ first second hr₂ hr₃ hlt₁ hlt₂ hq =>
    obtain ⟨hle, hgrows, hextends⟩ := hq
    obtain ⟨hgrows₂, hextends₂⟩ := ih first hlt₁ hr₂
    obtain ⟨hgrows₃, hextends₃⟩ := ih second hlt₂ hr₃
    exact ⟨hle, (((hgrows.emit _).trans hgrows₂).emit _).trans hgrows₃,
      (((hextends.emit _).append hextends₂).emit _).append hextends₃⟩
  | whileDo body test hr₁ hr₂ hlt₁ hlt₂ =>
    obtain ⟨hgrows₁, hextends₁⟩ := ih body hlt₁ hr₁
    obtain ⟨hgrows₂, hextends₂⟩ := ih test hlt₂ hr₂
    exact ⟨.refl _, ((((Draft.Grows.refl _ _).emit _).trans hgrows₁).trans hgrows₂).emit _,
      ((((Draft.Extends.refl [] _).emit _).append hextends₁).append hextends₂).emit _⟩
  | loopWhile prelude test body hr₁ hr₂ hr₃ hlt₁ hlt₂ hlt₃ =>
    obtain ⟨hgrows₁, hextends₁⟩ := ih prelude hlt₁ hr₁
    obtain ⟨hgrows₂, hextends₂⟩ := ih test hlt₂ hr₂
    obtain ⟨hgrows₃, hextends₃⟩ := ih body hlt₃ hr₃
    exact ⟨.refl _, (((hgrows₁.trans hgrows₂).emit _).trans hgrows₃).emit _,
      (((hextends₁.append hextends₂).emit _).append hextends₃).emit _⟩

/-- A phrase files under its own nodes only, and under none that its context knows. -/
theorem Phrase.files (phrase : Phrase) : phrase.Files A := by
  intro Γ F frame p n q h
  obtain ⟨hprogress, -, -, -, hids⟩ | ⟨body, -, hr, -, -, rfl, hfresh, -, ht, -, hlt, hids⟩ :=
    h.composed []
  · obtain ⟨-, hgrows, hextends⟩ := hprogress.files fun phrase _ => phrase.files
    exact ⟨hgrows.record _, (hextends.mono_count hids).record _⟩
  · have hbody := body.files
    exact ⟨(hr.grows hfresh ht fun _ _ _ _ h => (hbody h.1).1).record _,
      ((hr.extends fun _ _ _ _ h => (hbody h.1).2).mono_count hids).record _⟩
termination_by sizeOf phrase

section

variable {F : List Parameter} {size : Int} {τ : Ty}

theorem Command.Emits.grows {c : Command} (ht : c.Typed A Γ) (he : c.Emits A F frame p q) :
    p.Grows Γ q :=
  ((Phrase.command c).files ⟨ht, he, rfl⟩).1

theorem Expression.Emits.grows {e : Expression} (ht : e.Typed A Γ τ)
    (he : e.Emits A F frame p size q) : p.Grows Γ q :=
  ((Phrase.expression e).files ⟨τ, ht, he⟩).1

theorem Declaration.Emits.grows {d : Declaration} (ht : d.Typed A Γ Δ)
    (he : d.Emits A F frame p size q) : p.Grows Γ q :=
  ((Phrase.declaration d).files ⟨Δ, ht, he⟩).1

theorem Vname.Emits.grows {v : Vname} {assignable : Bool} {access : Access}
    (ht : v.Typed A Γ τ assignable) (he : v.Emits A F frame p access q) : p.Grows Γ q :=
  ((Phrase.vname v).files ⟨τ, assignable, access, ht, he, rfl⟩).1

theorem Argument.Emits.grows {a : Argument} {formal : Formal} (ht : a.Typed A Γ formal)
    (he : a.Emits A F frame p size q) : p.Grows Γ q :=
  ((Phrase.argument a).files ⟨formal, ht, he⟩).1

theorem Arguments.Emits.grows {a : Arguments} (ht : a.Typed A Γ formals)
    (he : a.Emits A F frame p size q) : p.Grows Γ q :=
  ((Phrase.arguments a).files ⟨formals, ht, he⟩).1

theorem ArrayAggregate.Emits.grows {e : ArrayAggregate} {length : Int} (ht : e.Typed A Γ τ length)
    (he : e.Emits A F frame p size q) : p.Grows Γ q :=
  ((Phrase.elements e).files ⟨τ, length, ht, he⟩).1

theorem RecordAggregate.Emits.grows {f : RecordAggregate} {fs : Fields} (ht : f.Typed A Γ fs)
    (he : f.Emits A F frame p size q) : p.Grows Γ q :=
  ((Phrase.fields f).files ⟨fs, ht, he⟩).1

end

end Triangle
