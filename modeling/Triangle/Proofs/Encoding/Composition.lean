import Triangle.Proofs.Encoding.Sizes
import Triangle.Proofs.Syntax.Identities

/-!
# How the code of a phrase is put together

The phrases of a program in the order in which their code is complete, each with the declarations
that are in scope there: this can be read off the tree (`Command.points`).

The code of a phrase is the code of its parts with steps of a few kinds in between, and `Progress`
says which: a name is used, an entity is filed, words are pushed, a declaration comes into scope,
control takes one of two ways.  Each form of phrase is looked at once, in `Phrase.Emitted.composed`;
what holds of the code of every well-typed phrase is then shown by going through the kinds of steps.
-/

namespace Triangle

/-! ## Points of a program -/
/-- A phrase, with the declarations in scope there in their order. -/
structure Point where
  phrase : Phrase
  scope : List Declaration

/-- The single declarations that a declaration consists of. -/
def Declaration.parts : Declaration → List Declaration
  | .sequential _ first second => first.parts ++ second.parts
  | d => [d]

/-- The parameters of a routine. -/
def Declaration.parameters? : Declaration → Option Parameters
  | .func _ _ parameters _ _ | .proc _ _ parameters _ => some parameters
  | _ => none

mutual

/-- The phrases that have code in a command, itself being the last one. -/
def Command.points : Command → List Declaration → List Point
  | .assign m target value, D =>
    value.points D ++ target.points D ++ [⟨.command (.assign m target value), D⟩]
  | .doubleAssign m first second firstValue secondValue, D =>
    firstValue.points D ++ first.points D ++ secondValue.points D ++ second.points D ++
      [⟨.command (.doubleAssign m first second firstValue secondValue), D⟩]
  | .call m name arguments, D => arguments.points D ++ [⟨.command (.call m name arguments), D⟩]
  | .empty m, D => [] ++ [⟨.command (.empty m), D⟩]
  | .ifElse m condition first second, D =>
    condition.points D ++ first.points D ++ second.points D ++
      [⟨.command (.ifElse m condition first second), D⟩]
  | .letIn m declaration body, D =>
    declaration.points D ++ body.points (D ++ declaration.parts) ++
      [⟨.command (.letIn m declaration body), D⟩]
  | .sequential m first second, D =>
    first.points D ++ second.points D ++ [⟨.command (.sequential m first second), D⟩]
  | .whileDo m condition body, D =>
    body.points D ++ condition.points D ++ [⟨.command (.whileDo m condition body), D⟩]
  | .loopWhile m prelude condition body, D =>
    prelude.points D ++ condition.points D ++ body.points D ++
      [⟨.command (.loopWhile m prelude condition body), D⟩]

/-- The phrases that have code in an expression. -/
def Expression.points : Expression → List Declaration → List Point
  | .array m elements, D => elements.points D ++ [⟨.expression (.array m elements), D⟩]
  | .binary m left operator right, D =>
    left.points D ++ right.points D ++ [⟨.expression (.binary m left operator right), D⟩]
  | .call m name arguments, D => arguments.points D ++ [⟨.expression (.call m name arguments), D⟩]
  | .character m literal, D => [] ++ [⟨.expression (.character m literal), D⟩]
  | .empty m, D => [] ++ [⟨.expression (.empty m), D⟩]
  | .ifElse m condition first second, D =>
    condition.points D ++ first.points D ++ second.points D ++
      [⟨.expression (.ifElse m condition first second), D⟩]
  | .integer m literal, D => [] ++ [⟨.expression (.integer m literal), D⟩]
  | .letIn m declaration body, D =>
    declaration.points D ++ body.points (D ++ declaration.parts) ++
      [⟨.expression (.letIn m declaration body), D⟩]
  | .record m fields, D => fields.points D ++ [⟨.expression (.record m fields), D⟩]
  | .unary m operator operand, D =>
    operand.points D ++ [⟨.expression (.unary m operator operand), D⟩]
  | .vname m vname, D => vname.points D ++ [⟨.expression (.vname m vname), D⟩]

/-- The phrases that have code in a declaration.  A constant that stands for a literal has none. -/
def Declaration.points : Declaration → List Declaration → List Point
  | .binaryOperator m operator left right result, D =>
    [] ++ [⟨.declaration (.binaryOperator m operator left right result), D⟩]
  | .const m name value, D =>
    (if value.literal?.isSome then [] else value.points D) ++
      [⟨.declaration (.const m name value), D⟩]
  | .func m name parameters result body, D =>
    body.points (D ++ [.func m name parameters result body]) ++
      [⟨.declaration (.func m name parameters result body), D⟩]
  | .proc m name parameters body, D =>
    body.points (D ++ [.proc m name parameters body]) ++
      [⟨.declaration (.proc m name parameters body), D⟩]
  | .sequential m first second, D =>
    first.points D ++ second.points (D ++ first.parts) ++
      [⟨.declaration (.sequential m first second), D⟩]
  | .type m name of, D => [] ++ [⟨.declaration (.type m name of), D⟩]
  | .unaryOperator m operator operand result, D =>
    [] ++ [⟨.declaration (.unaryOperator m operator operand result), D⟩]
  | .var m name of, D => [] ++ [⟨.declaration (.var m name of), D⟩]

/-- The phrases that have code in a V-name.  A literal subscript has none. -/
def Vname.points : Vname → List Declaration → List Point
  | .dot m record field, D => record.points D ++ [⟨.vname (.dot m record field), D⟩]
  | .simple m name, D => [] ++ [⟨.vname (.simple m name), D⟩]
  | .subscript m array index, D =>
    array.points D ++ (if index.integerLiteral?.isSome then [] else index.points D) ++
      [⟨.vname (.subscript m array index), D⟩]

/-- The phrases that have code in an argument. -/
def Argument.points : Argument → List Declaration → List Point
  | .const m value, D => value.points D ++ [⟨.argument (.const m value), D⟩]
  | .func m name, D => [] ++ [⟨.argument (.func m name), D⟩]
  | .proc m name, D => [] ++ [⟨.argument (.proc m name), D⟩]
  | .var m vname, D => vname.points D ++ [⟨.argument (.var m vname), D⟩]

/-- The phrases that have code in arguments. -/
def Arguments.points : Arguments → List Declaration → List Point
  | .empty m, D => [] ++ [⟨.arguments (.empty m), D⟩]
  | .single m argument, D => argument.points D ++ [⟨.arguments (.single m argument), D⟩]
  | .multiple m first rest, D =>
    first.points D ++ rest.points D ++ [⟨.arguments (.multiple m first rest), D⟩]

/-- The phrases that have code in the elements of an array. -/
def ArrayAggregate.points : ArrayAggregate → List Declaration → List Point
  | .single m element, D => element.points D ++ [⟨.elements (.single m element), D⟩]
  | .multiple m first rest, D =>
    first.points D ++ rest.points D ++ [⟨.elements (.multiple m first rest), D⟩]

/-- The phrases that have code in the fields of a record. -/
def RecordAggregate.points : RecordAggregate → List Declaration → List Point
  | .single m field value, D => value.points D ++ [⟨.fields (.single m field value), D⟩]
  | .multiple m field value rest, D =>
    value.points D ++ rest.points D ++ [⟨.fields (.multiple m field value rest), D⟩]

end

/-! ## Phrases -/

/-- The words of an index that lies on the stack. -/
def Access.index (access : Access) : Int := if access.indexed then 1 else 0

/-- The identities in a phrase. -/
def Phrase.ids : Phrase → List NodeId
  | .command phrase => phrase.ids
  | .expression phrase => phrase.ids
  | .declaration phrase => phrase.ids
  | .vname phrase => phrase.ids
  | .argument phrase => phrase.ids
  | .arguments phrase => phrase.ids
  | .elements phrase => phrase.ids
  | .fields phrase => phrase.ids

/-- The phrases that have code in a phrase. -/
def Phrase.points (D : List Declaration) : Phrase → List Point
  | .command phrase => phrase.points D
  | .expression phrase => phrase.points D
  | .declaration phrase => phrase.points D
  | .vname phrase => phrase.points D
  | .argument phrase => phrase.points D
  | .arguments phrase => phrase.points D
  | .elements phrase => phrase.points D
  | .fields phrase => phrase.points D

/-- Whether a phrase is the declaration of a routine. -/
def Phrase.isRoutine : Phrase → Bool
  | .declaration d => d.parameters?.isSome
  | _ => false

/-- A phrase is well typed, and its code takes a draft over into another and pushes some words. -/
def Phrase.Emitted (A : Annotations) (Γ : Context) (F : List Parameter) (frame : Frame) (p : Draft)
    (pushed : Int) (q : Draft) : Phrase → Prop
  | .command c => c.Typed A Γ ∧ c.Emits A F frame p q ∧ pushed = 0
  | .expression e => ∃ τ, e.Typed A Γ τ ∧ e.Emits A F frame p pushed q
  | .declaration d => ∃ Δ, d.Typed A Γ Δ ∧ d.Emits A F frame p pushed q
  | .vname v => ∃ τ assignable access, v.Typed A Γ τ assignable ∧ v.Emits A F frame p access q ∧
      pushed = access.index
  | .argument a => ∃ formal, a.Typed A Γ formal ∧ a.Emits A F frame p pushed q
  | .arguments a => ∃ formals, a.Typed A Γ formals ∧ a.Emits A F frame p pushed q
  | .elements e => ∃ τ length, e.Typed A Γ τ length ∧ e.Emits A F frame p pushed q
  | .fields f => ∃ fs, f.Typed A Γ fs ∧ f.Emits A F frame p pushed q

/-! ## Steps -/

/-- A meaning is that of a routine with a signature and so many words of result. -/
def Meaning.Routine (meaning : Meaning) (formals : Formals) (words : Int) : Prop :=
  (meaning = .proc formals ∧ words = 0) ∨ ∃ τ, meaning = .func formals τ ∧ words = τ.words

/-- A length that an instruction can have. -/
def InRange (n : Int) : Prop := 0 ≤ n ∧ n ≤ Machine.maxLength

/-- What is generated between the parts of a phrase, and the heights of the stack before and after
it. -/
inductive Draft.Advances (A : Annotations) (Γ : Context) (F : List Parameter) (q : Draft) :
    Int → Int → Draft → Prop
  | literal (x value : Int) : Advances A Γ F q x (x + 1) (q.emit (literalCode value))
  | scale (x element : Int) (indexed : Bool) :
    Advances A Γ F q (x + (if indexed then 1 else 0) + 1) (x + 1)
      (q.emit (scaleCode element indexed))
  | push (x size : Int) : Advances A Γ F q x (x + size) (q.emit [⟨.push, .cb, 0, size⟩])
  | pop {x n extra : Int} (y : Int) (hx : x = y + extra) (hextra : Γ.Proper → 0 ≤ extra)
    (hn : Γ.Proper → extra > 0 → InRange n) :
    Advances A Γ F q x y (q.emit (if extra > 0 then [⟨.pop, .cb, n, extra⟩] else []))
  | stores {x size size' : Int} (y : Int) (hx : x = y + size + Machine.addressSize + size' + 1)
    (hsize : Γ.Proper → InRange size) (hsize' : Γ.Proper → InRange size') :
    Advances A Γ F q x y (q.emit [⟨.storei, .cb, size', 0⟩, ⟨.storei, .cb, size, 0⟩])
  | call {meaning : Meaning} {formals : Formals} {words arguments x : Int} {name : Terminal}
    {frame : Frame} {code : List Instruction} (y : Int) (hx : x = y + formals.words)
    (hname : A.Means Γ name meaning)
    (hroutine : meaning.Routine formals words)
    (hcode : (A.entityOf q.entities name).Called frame arguments code) :
    Advances A Γ F q x (y + words)
      ((q.use name (.call (A.entityOf q.entities name)) F frame).emit code)
  | binary {σ ρ τ : Ty} {s : Standard} {x : Int} {operator : Terminal} {frame : Frame}
    {code : List Instruction}
    (y : Int) (hx : x = y + (σ.words + ρ.words))
    (hoperator : A.referentOf? operator.mark.id = some (.standard s)) (hs : s.Operates σ ρ τ)
    (hcode : (A.entityOf q.entities operator).Called frame (σ.words + ρ.words) code) :
    Advances A Γ F q x (y + τ.words)
      ((q.use operator (.call (A.entityOf q.entities operator)) F frame).emit code)
  | unary {σ τ : Ty} {s : Standard} {x arguments : Int} {operator : Terminal} {frame : Frame}
    {code : List Instruction} (y : Int) (hx : x = y + σ.words)
    (hoperator : A.referentOf? operator.mark.id = some (.standard s)) (hs : s.meaning = .unary σ τ)
    (hcode : (A.entityOf q.entities operator).Called frame arguments code) :
    Advances A Γ F q x (y + τ.words)
      ((q.use operator (.call (A.entityOf q.entities operator)) F frame).emit code)
  | closure {meaning : Meaning} {formals : Formals} {words x : Int} {name : Terminal}
      {frame : Frame}
    {code : List Instruction} (hname : A.Means Γ name meaning)
    (hroutine : meaning.Routine formals words)
    (hcode : (A.entityOf q.entities name).Closed frame code) :
    Advances A Γ F q x (x + Machine.closureSize)
      ((q.use name (.closure (A.entityOf q.entities name)) F frame).emit code)

/-- What is done with a V-name of a type in a frame, and the height of the stack after it. -/
inductive Access.Used (Γ : Context) (frame : Frame) (τ : Ty) (assignable : Bool) (access : Access) :
    Use → List Instruction → Int → Prop
  | fetch {code : List Instruction} (h : access.Fetched τ.words frame code) :
    Used Γ frame τ assignable access (.fetch access) code (frame.size + τ.words)
  | store {size : Int} {code : List Instruction} (y : Int) (ha : assignable = true)
    (hsize : Γ.Proper → 0 ≤ size) (h : access.Stored size frame code) (hy : frame.size = y + size) :
    Used Γ frame τ assignable access (.store access) code y
  | address {code : List Instruction} (ha : assignable = true) (h : access.Addressed frame code) :
    Used Γ frame τ assignable access (.address access) code (frame.size + 1)

/-- How the code of a phrase comes about in a draft: the context, the declarations in scope and the
frame that were reached, the height of the stack there, the identities and points of the parts so
far, and the draft that has their code. -/
inductive Phrase.Progress (A : Annotations) (whole : Phrase) (Γ : Context) (F : List Parameter)
    (D : List Declaration) (frame : Frame) (p : Draft) :
    Context → List Declaration → Frame → Int → List NodeId → List Point → Draft → Prop
  | start : Progress A whole Γ F D frame p Γ D frame frame.size [] [] p
  | step {Δ E above x y ids points q r}
      (h : Progress A whole Γ F D frame p Δ E above x ids points q)
    (hr : q.Advances A Δ F x y r) : Progress A whole Γ F D frame p Δ E above y ids points r
  | file {Δ E above x ids points q} (h : Progress A whole Γ F D frame p Δ E above x ids points q)
    (id : NodeId) (entity : Entity) (hid : Δ id = none) :
    Progress A whole Γ F D frame p Δ E above x (ids ++ [id]) points (q.represent id entity)
  | expand {Δ E above top size ids points q}
    (h : Progress A whole Γ F D frame p Δ E above (above.size + size) ids points q)
    (hsize : Δ.Proper → 0 ≤ size) (htop : above.expand size = .ok top) :
    Progress A whole Γ F D frame p Δ E top top.size ids points q
  | part {Δ E above n ids points q r}
    (h : Progress A whole Γ F D frame p Δ E above above.size ids points q) (phrase : Phrase)
    (hr : phrase.Emitted A Δ F above q n r)
    (hlt : sizeOf phrase < sizeOf whole := by simp +arith) :
    Progress A whole Γ F D frame p Δ E above (above.size + n) (ids ++ phrase.ids)
      (points ++ phrase.points E) r
  | access {Δ E above τ assignable access u code y ids points q r}
    (h : Progress A whole Γ F D frame p Δ E above above.size ids points q) {vname : Vname}
    (hvname : vname.Typed A Δ τ assignable) (hr : vname.Emits A F above q access r)
    (hu : access.Used Δ above τ assignable u code y)
    (hlt : sizeOf (Phrase.vname vname) < sizeOf whole := by simp +arith) :
    Progress A whole Γ F D frame p Δ E above y (ids ++ (Phrase.vname vname).ids)
      (points ++ (Phrase.vname vname).points E) ((r.use vname.root u F above).emit code)
  | declare {Δ Θ E above top n ids points q r}
    (h : Progress A whole Γ F D frame p Δ E above above.size ids points q) {d : Declaration}
    (hd : d.Typed A Δ Θ) (hr : d.Emits A F above q n r) (htop : above.expand n = .ok top)
    (hlt : sizeOf (Phrase.declaration d) < sizeOf whole := by simp +arith) :
    Progress A whole Γ F D frame p Θ (E ++ d.parts) top top.size
      (ids ++ (Phrase.declaration d).ids) (points ++ (Phrase.declaration d).points E) r
  /-- Two ways from one test. -/
  | branch {n ids points r₁ r₂ r₃}
    (h : Progress A whole Γ F D frame p Γ D frame (frame.size + 1) ids points r₁)
    (first second : Phrase)
    (hr₂ : first.Emitted A Γ F frame (r₁.emit [⟨.jumpif, .cb, 0, (r₂.address + 1 : Nat)⟩]) n r₂)
    (hr₃ : second.Emitted A Γ F frame (r₂.emit [⟨.jump, .cb, 0, r₃.address⟩]) n r₃)
    (hlt₁ : sizeOf first < sizeOf whole := by simp +arith)
    (hlt₂ : sizeOf second < sizeOf whole := by simp +arith) :
    Progress A whole Γ F D frame p Γ D frame (frame.size + n) (ids ++ first.ids ++ second.ids)
      (points ++ first.points D ++ second.points D) r₃
  /-- A test behind the body of a loop. -/
  | whileDo {r₁ r₂} (body test : Phrase)
    (hr₁ : body.Emitted A Γ F frame (p.emit [⟨.jump, .cb, 0, r₁.address⟩]) 0 r₁)
    (hr₂ : test.Emitted A Γ F frame r₁ 1 r₂)
    (hlt₁ : sizeOf body < sizeOf whole := by simp +arith)
    (hlt₂ : sizeOf test < sizeOf whole := by simp +arith) :
    Progress A whole Γ F D frame p Γ D frame frame.size (body.ids ++ test.ids)
      (body.points D ++ test.points D) (r₂.emit [⟨.jumpif, .cb, 1, (p.address + 1 : Nat)⟩])
  /-- A test in the middle of a loop. -/
  | loopWhile {r₁ r₂ r₃} (prelude test body : Phrase)
    (hr₁ : prelude.Emitted A Γ F frame p 0 r₁) (hr₂ : test.Emitted A Γ F frame r₁ 1 r₂)
    (hr₃ : body.Emitted A Γ F frame (r₂.emit [⟨.jumpif, .cb, 0, (r₃.address + 1 : Nat)⟩]) 0 r₃)
    (hlt₁ : sizeOf prelude < sizeOf whole := by simp +arith)
    (hlt₂ : sizeOf test < sizeOf whole := by simp +arith)
    (hlt₃ : sizeOf body < sizeOf whole := by simp +arith) :
    Progress A whole Γ F D frame p Γ D frame frame.size (prelude.ids ++ test.ids ++ body.ids)
      (prelude.points D ++ test.points D ++ body.points D) (r₃.emit [⟨.jump, .cb, 0, p.address⟩])

/-- The code of a phrase is complete when its parts are, or is that of a routine. -/
inductive Phrase.Composed (A : Annotations) (Γ : Context) (F : List Parameter)
    (D : List Declaration)
    (frame : Frame) (p : Draft) (n : Int) : Draft → Phrase → Prop
  | parts {whole : Phrase} {Δ E above x ids points r}
    (h : whole.Progress A Γ F D frame p Δ E above x ids points r) (hx : x = frame.size + n)
    (hpoints : whole.points D = points ++ [⟨whole, D⟩]) (hwhole : whole.isRoutine = false)
    (hids : ∀ id : Nat, ids.count id ≤ whole.ids.count id := by
      intro id
      simp only [Phrase.ids, Command.ids, Expression.ids, Declaration.ids, Vname.ids, Argument.ids,
        Arguments.ids, ArrayAggregate.ids, RecordAggregate.ids, List.count_append, List.count_nil]
      omega) :
    Composed A Γ F D frame p n (r.visit whole frame p.address n) whole
  | routine {d : Declaration} {m : Mark} {parameters : Parameters} {formals Δ Θ words r meaning}
    (body : Phrase) (hn : n = 0)
    (h : Emission.Routine A m parameters frame (fun inner p' words' q' =>
      body.Emitted A Θ (F ++ parameters.toList) inner p' words' q' ∧ words' = words) p r)
    (hd : d.Typed A Γ Δ) (hparameters : d.parameters? = some parameters)
    (hΔ : Δ = Γ.bind m.id meaning) (hfresh : Γ m.id = none)
    (hmeaning : meaning.Routine formals words) (ht : parameters.Typed A Δ formals Θ)
    (hpoints : d.points D = body.points (D ++ [d]) ++ [⟨.declaration d, D⟩])
    (hlt : sizeOf body < sizeOf (Phrase.declaration d) := by simp +arith)
    (hids : ∀ id : Nat, (parameters.ids ++ body.ids ++ [m.id]).count id ≤ d.ids.count id := by
      intro id
      simp only [Phrase.ids, Declaration.ids, List.count_append]
      omega) :
    Composed A Γ F D frame p n (r.visit (.declaration d) frame p.address n) (.declaration d)

/-! ## Every phrase -/

section

variable {A : Annotations} {Γ Δ : Context} {F : List Parameter} {frame : Frame}
  {p q : Draft} {n : Int}

theorem Draft.emit_append (p : Draft) (c c' : List Instruction) :
    p.emit (c ++ c') = (p.emit c).emit c' := by
  simp [Draft.emit]

theorem Frame.size_of_expand {above : Frame} (h : frame.expand n = .ok above) :
    above.size = frame.size + n := by
  rw [(Frame.expand_eq h).1]

/-- A smaller context is proper, too. -/
theorem Context.Proper.mono (h : Δ.Proper) (hle : Γ.Le Δ) : Γ.Proper := fun _ _ hid => h (hle hid)

theorem Emission.Routine.imp {m : Mark} {parameters : Parameters}
    {body body' : Frame → Draft → Int → Draft → Prop}
    (h : Emission.Routine A m parameters frame body p q)
    (hbody : ∀ inner p words q, body inner p words q → body' inner p words q) :
    Emission.Routine A m parameters frame body' p q := by
  obtain ⟨inner, outer, arguments, result, r₁, r₂, hlevel, houter, hinner, hr₁, hr₂, h⟩ := h
  exact ⟨inner, outer, arguments, result, r₁, r₂, hlevel, houter, hinner, hr₁, hbody _ _ _ _ hr₂, h⟩

variable {D : List Declaration}

theorem Phrase.Progress.cast {whole : Phrase} {E : List Declaration} {above : Frame} {x y : Int}
    {ids : List NodeId} {points : List Point}
    (h : whole.Progress A Γ F D frame p Δ E above x ids points q) (hx : x = y) :
    whole.Progress A Γ F D frame p Δ E above y ids points q := hx ▸ h

/-- An index that is pending is a word on top of a frame. -/
theorem Frame.size_of_pending {whole : Access} {above : Frame}
    (h : (if whole.indexed then frame.expand Machine.primitiveSize else .ok frame) = .ok above) :
    above.size = frame.size + whole.index := by
  rw [Access.index]
  split at h
  · rw [Frame.size_of_expand h, if_pos ‹_›]
    rfl
  · cases h
    rw [if_neg ‹_›, Int.add_zero]

theorem Phrase.Progress.pending {whole : Phrase} {E : List Declaration} {above top : Frame}
    {access : Access} {ids : List NodeId} {points : List Point}
    (h : whole.Progress A Γ F D frame p Δ E above (above.size + access.index) ids points q)
    (htop : (if access.indexed then above.expand Machine.primitiveSize else .ok above) = .ok top) :
    whole.Progress A Γ F D frame p Δ E top top.size ids points q := by
  have hsize := Frame.size_of_pending htop
  split at htop
  · exact (h.cast (by rw [← hsize, Frame.size_of_expand htop])).expand (fun _ => by decide) htop
  · cases htop
    exact h.cast hsize.symm

open Phrase.Progress

theorem Command.Emits.composed {c : Command} (ht : c.Typed A Γ) (he : c.Emits A F frame p q) :
    Phrase.Composed A Γ F D frame p 0 q (.command c) := by
  have hzero : frame.size = frame.size + 0 := (Int.add_zero _).symm
  cases c with
  | assign m target value =>
    obtain ⟨τ, htarget, hvalue⟩ := ht
    obtain ⟨size, above, access, r₁, r₂, code, hr₁, habove, hr₂, hcode, rfl⟩ := he
    have hnonneg : Γ.Proper → 0 ≤ size := fun hΓ => hr₁.size_nonneg hvalue hΓ
    have hstore : access.Used Γ above τ true (.store access) code frame.size :=
      .store _ rfl hnonneg hcode (Frame.size_of_expand habove)
    exact .parts (((start.part (.expression value) ⟨_, hvalue, hr₁⟩).expand hnonneg habove).access
      htarget hr₂ hstore) hzero rfl rfl
  | doubleAssign m first second firstValue secondValue =>
    obtain ⟨τ, σ, hfirst, hfirstValue, hsecond, hsecondValue⟩ := ht
    obtain ⟨size, above, access, r₁, r₂, code, above', size', above'', access', r₃, r₄, code', hr₁,
      habove, hr₂, hcode, habove', hr₃, habove'', hr₄, hcode', hle, hle', rfl⟩ := he
    have hnonneg : Γ.Proper → 0 ≤ size := fun hΓ => hr₁.size_nonneg hfirstValue hΓ
    have hnonneg' : Γ.Proper → 0 ≤ size' := fun hΓ => hr₃.size_nonneg hsecondValue hΓ
    -- the first address stays on the stack while the second value and address are pushed
    have hheight : above''.size + 1 = frame.size + size + Machine.addressSize + size' + 1 := by
      rw [Frame.size_of_expand habove'', Frame.size_of_expand habove', Frame.size_of_expand habove]
    rw [Draft.emit_append]
    exact .parts ((((((((start.part (.expression firstValue) ⟨_, hfirstValue, hr₁⟩).expand hnonneg
      habove).access hfirst hr₂ (.address rfl hcode)).expand (fun _ => by decide) habove').part
      (.expression secondValue) ⟨_, hsecondValue, hr₃⟩).expand hnonneg' habove'').access hsecond hr₄
      (.address rfl hcode')).step (.stores frame.size hheight (fun hΓ => ⟨hnonneg hΓ, hle⟩)
      fun hΓ => ⟨hnonneg' hΓ, hle'⟩)) hzero rfl rfl
  | call m name arguments =>
    obtain ⟨formals, hname, harguments⟩ := ht
    obtain ⟨size, above, r, code, hr, -, hcode, rfl⟩ := he
    obtain rfl := hr.size_eq harguments
    exact .parts ((start.part (.arguments arguments) ⟨_, harguments, hr⟩).step
      (.call frame.size rfl hname (.inl ⟨rfl, rfl⟩) hcode)) rfl rfl rfl
  | empty m =>
    obtain rfl := he
    exact .parts start hzero rfl rfl
  | ifElse m condition first second =>
    obtain ⟨hcondition, hfirst, hsecond⟩ := ht
    obtain ⟨size, r₁, r₂, r₃, hr₁, hr₂, hr₃, rfl⟩ := he
    obtain rfl := hr₁.size_eq hcondition
    exact .parts ((start.part (.expression condition) ⟨_, hcondition, hr₁⟩).branch (.command first)
      (.command second) ⟨hfirst, hr₂, rfl⟩ ⟨hsecond, hr₃, rfl⟩) rfl rfl rfl
  | letIn m declaration body =>
    obtain ⟨Δ, hdeclaration, hbody⟩ := ht
    obtain ⟨extra, above, r₁, r₂, hr₁, habove, hr₂, rfl⟩ := he
    have hheight : above.size + 0 = frame.size + extra := by
      rw [Frame.size_of_expand habove, Int.add_zero]
    exact .parts (((start.declare hdeclaration hr₁ habove).part (.command body)
      ⟨hbody, hr₂, rfl⟩).step (.pop frame.size hheight
        (fun hΔ => hr₁.size_nonneg hdeclaration (hΔ.mono hdeclaration.le))
        fun _ _ => ⟨by decide, by decide⟩)) hzero rfl rfl
  | sequential m first second =>
    obtain ⟨hfirst, hsecond⟩ := ht
    obtain ⟨r₁, r₂, hr₁, hr₂, rfl⟩ := he
    exact .parts (((start.part (.command first) ⟨hfirst, hr₁, rfl⟩).cast (Int.add_zero _)).part
      (.command second) ⟨hsecond, hr₂, rfl⟩) rfl rfl rfl
  | whileDo m condition body =>
    obtain ⟨hcondition, hbody⟩ := ht
    obtain ⟨size, r₁, r₂, hr₁, hr₂, rfl⟩ := he
    obtain rfl := hr₂.size_eq hcondition
    exact .parts (.whileDo (.command body) (.expression condition) ⟨hbody, hr₁, rfl⟩
      ⟨_, hcondition, hr₂⟩) hzero rfl rfl
  | loopWhile m prelude condition body =>
    obtain ⟨hprelude, hcondition, hbody⟩ := ht
    obtain ⟨size, r₁, r₂, r₃, hr₁, hr₂, hr₃, rfl⟩ := he
    obtain rfl := hr₂.size_eq hcondition
    exact .parts (.loopWhile (.command prelude) (.expression condition) (.command body)
      ⟨hprelude, hr₁, rfl⟩ ⟨_, hcondition, hr₂⟩ ⟨hbody, hr₃, rfl⟩) hzero rfl rfl

theorem Expression.Emits.composed {e : Expression} {τ : Ty} (ht : e.Typed A Γ τ)
    (he : e.Emits A F frame p n q) : Phrase.Composed A Γ F D frame p n q (.expression e) := by
  cases e with
  | array m elements =>
    obtain ⟨-, σ, length, helements, -⟩ := ht
    obtain ⟨r, hr, rfl⟩ := he
    exact .parts (start.part (.elements elements) ⟨_, _, helements, hr⟩) rfl rfl rfl
  | binary m left operator right =>
    obtain ⟨htype, σ, ρ, s, hleft, hright, hoperator, hs⟩ := ht
    obtain ⟨m, above, k, operands, above', r₁, r₂, code, hr₁, habove, hr₂, hsum, -, hcode, hsize,
      rfl⟩ := he
    obtain ⟨-, rfl⟩ := Word.add_eq_ok_iff.1 hsum
    have hnonneg : Γ.Proper → 0 ≤ m := fun hΓ => hr₁.size_nonneg hleft hΓ
    obtain rfl := hr₁.size_eq hleft
    obtain rfl := hr₂.size_eq hright
    obtain rfl := Annotations.words_of_sizeOf htype hsize
    have hheight : above.size + ρ.words = frame.size + (σ.words + ρ.words) := by
      rw [Frame.size_of_expand habove, Int.add_assoc]
    exact .parts ((((start.part (.expression left) ⟨_, hleft, hr₁⟩).expand hnonneg habove).part
      (.expression right) ⟨_, hright, hr₂⟩).step (.binary frame.size hheight hoperator hs hcode))
      rfl rfl rfl
  | call m name arguments =>
    obtain ⟨htype, formals, hname, harguments⟩ := ht
    obtain ⟨size, above, r, code, hr, -, hcode, hsize, rfl⟩ := he
    obtain rfl := hr.size_eq harguments
    obtain rfl := Annotations.words_of_sizeOf htype hsize
    exact .parts ((start.part (.arguments arguments) ⟨_, harguments, hr⟩).step
      (.call frame.size rfl hname (.inr ⟨_, rfl, rfl⟩) hcode)) rfl rfl rfl
  | character m literal | integer m literal =>
    obtain ⟨rfl, rfl⟩ := he
    exact .parts (start.step (.literal _ _)) rfl rfl rfl
  | empty m => exact ht.elim
  | ifElse m condition first second =>
    obtain ⟨-, hcondition, hfirst, hsecond⟩ := ht
    obtain ⟨size, size', r₁, r₂, r₃, hr₁, hr₂, hr₃, rfl⟩ := he
    obtain rfl := hr₁.size_eq hcondition
    obtain rfl := (hr₃.size_eq hsecond).trans (hr₂.size_eq hfirst).symm
    exact .parts ((start.part (.expression condition) ⟨_, hcondition, hr₁⟩).branch
      (.expression first) (.expression second) ⟨_, hfirst, hr₂⟩ ⟨_, hsecond, hr₃⟩) rfl rfl rfl
  | letIn m declaration body =>
    obtain ⟨-, Δ, hdeclaration, hbody⟩ := ht
    obtain ⟨extra, above, r₁, r₂, hr₁, habove, hr₂, hle, rfl⟩ := he
    have hheight : above.size + n = frame.size + n + extra := by
      rw [Frame.size_of_expand habove, Int.add_right_comm]
    exact .parts (((start.declare hdeclaration hr₁ habove).part (.expression body)
      ⟨_, hbody, hr₂⟩).step (.pop (frame.size + n) hheight
        (fun hΔ => hr₁.size_nonneg hdeclaration (hΔ.mono hdeclaration.le))
        fun hΔ hextra => ⟨hr₂.size_nonneg hbody hΔ, hle hextra⟩)) rfl rfl rfl
  | record m fields =>
    obtain ⟨-, fs, hfields, -⟩ := ht
    obtain ⟨r, hr, rfl⟩ := he
    exact .parts (start.part (.fields fields) ⟨_, hfields, hr⟩) rfl rfl rfl
  | unary m operator operand =>
    obtain ⟨htype, σ, s, hoperand, hoperator, hs⟩ := ht
    obtain ⟨size, above, r, code, hr, -, hcode, hsize, rfl⟩ := he
    obtain rfl := hr.size_eq hoperand
    obtain rfl := Annotations.words_of_sizeOf htype hsize
    exact .parts ((start.part (.expression operand) ⟨_, hoperand, hr⟩).step
      (.unary frame.size rfl hoperator hs hcode)) rfl rfl rfl
  | vname m vname =>
    obtain ⟨htype, assignable, hvname⟩ := ht
    obtain ⟨access, r, code, hsize, hr, hcode, rfl⟩ := he
    obtain rfl := Annotations.words_of_sizeOf htype hsize
    exact .parts (start.access hvname hr (.fetch hcode)) rfl rfl rfl

theorem Declaration.Emits.composed {d : Declaration} (ht : d.Typed A Γ Δ)
    (he : d.Emits A F frame p n q) : Phrase.Composed A Γ F D frame p n q (.declaration d) := by
  cases d with
  | binaryOperator | unaryOperator => exact ht.elim
  | const m name value =>
    obtain ⟨τ, hvalue, -, hfresh, rfl⟩ := ht
    obtain ⟨r, hr, rfl⟩ := he
    split at hr
    · rename_i known hknown
      obtain ⟨rfl, rfl⟩ := hr
      exact .parts (start.file m.id _ hfresh) (Int.add_zero _).symm
        (by simp [Phrase.points, Declaration.points, hknown]) rfl
    · rename_i hnone
      obtain ⟨r', hr', rfl⟩ := hr
      exact .parts ((start.part (.expression value) ⟨_, hvalue, hr'⟩).file m.id _ hfresh) rfl
        (by simp [Phrase.points, Declaration.points, hnone]) rfl
  | func m name parameters result body =>
    obtain ⟨τ, formals, Θ, -, -, hfresh, hΔ, hparameters, hbody⟩ := id ht
    obtain ⟨r, hr, rfl, rfl⟩ := he
    exact .routine (.expression body) rfl (hr.imp fun _ _ _ _ h => ⟨⟨_, hbody, h⟩, h.size_eq hbody⟩)
      ht rfl hΔ hfresh (.inr ⟨τ, rfl, rfl⟩) hparameters rfl
  | proc m name parameters body =>
    obtain ⟨formals, Θ, hfresh, hΔ, hparameters, hbody⟩ := id ht
    obtain ⟨r, hr, rfl, rfl⟩ := he
    exact .routine (.command body) rfl (hr.imp fun _ _ _ _ h => ⟨⟨hbody, h⟩, h.2⟩) ht rfl hΔ hfresh
      (.inl ⟨rfl, rfl⟩) hparameters rfl
  | sequential m first second =>
    obtain ⟨Θ, hfirst, hsecond⟩ := ht
    obtain ⟨k, above, l, r₁, r₂, hr₁, habove, hr₂, hsum, rfl⟩ := he
    obtain ⟨-, rfl⟩ := Word.add_eq_ok_iff.1 hsum
    exact .parts ((start.declare hfirst hr₁ habove).part (.declaration second) ⟨_, hsecond, hr₂⟩)
      (by rw [Frame.size_of_expand habove, Int.add_assoc]) rfl rfl
  | type m name of =>
    obtain ⟨rfl, rfl⟩ := he
    exact .parts start (Int.add_zero _).symm rfl rfl
  | var m name of =>
    obtain ⟨τ, -, -, hfresh, -⟩ := ht
    obtain ⟨-, rfl⟩ := he
    exact .parts ((start.step (.push _ n)).file m.id _ hfresh) rfl rfl rfl

theorem Vname.Emits.composed {v : Vname} {τ : Ty} {assignable : Bool} {access : Access}
    (ht : v.Typed A Γ τ assignable) (he : v.Emits A F frame p access q) :
    Phrase.Composed A Γ F D frame p access.index q (.vname v) := by
  cases v with
  | dot m record field =>
    obtain ⟨-, fs, offset, hrecord, -⟩ := ht
    obtain ⟨whole, _, _, r, hr, -, -, rfl, rfl⟩ := he
    exact .parts (start.part (.vname record) ⟨_, _, _, hrecord, hr, rfl⟩) rfl rfl rfl
  | simple m name =>
    obtain ⟨rfl, rfl⟩ := he
    exact .parts start (Int.add_zero _).symm rfl rfl
  | subscript m array index =>
    obtain ⟨-, length, harray, hindex⟩ := ht
    obtain ⟨whole, element, r, r', hr, -, hr', rfl⟩ := he
    split at hr'
    · rename_i value hvalue
      obtain ⟨rfl, _, _, -, -, rfl⟩ := hr'
      exact .parts (start.part (.vname array) ⟨_, _, _, harray, hr, rfl⟩) rfl
        (by simp [Phrase.points, Vname.points, hvalue]) rfl
    · rename_i hnone
      obtain ⟨above, size, r'', habove, hr'', rfl, rfl⟩ := hr'
      obtain rfl := hr''.size_eq hindex
      have hheight := congrArg (· + 1) (Frame.size_of_pending habove)
      exact .parts (((((start.part (.vname array) ⟨_, _, _, harray, hr, rfl⟩).pending habove).part
        (.expression index) ⟨_, hindex, hr''⟩).cast hheight).step
        (.scale frame.size element whole.indexed)) rfl
        (by simp [Phrase.points, Vname.points, hnone]) rfl

theorem Argument.Emits.composed {a : Argument} {formal : Formal} (ht : a.Typed A Γ formal)
    (he : a.Emits A F frame p n q) : Phrase.Composed A Γ F D frame p n q (.argument a) := by
  cases a with
  | const m value =>
    obtain ⟨τ, hvalue, -⟩ := ht
    obtain ⟨r, hr, rfl⟩ := he
    exact .parts (start.part (.expression value) ⟨_, hvalue, hr⟩) rfl rfl rfl
  | func m name =>
    obtain ⟨formals, τ, hname, -⟩ := ht
    obtain ⟨code, hcode, rfl, rfl⟩ := he
    exact .parts (start.step (.closure hname (.inr ⟨τ, rfl, rfl⟩) hcode)) rfl rfl rfl
  | proc m name =>
    obtain ⟨formals, hname, -⟩ := ht
    obtain ⟨code, hcode, rfl, rfl⟩ := he
    exact .parts (start.step (.closure hname (.inl ⟨rfl, rfl⟩) hcode)) rfl rfl rfl
  | var m vname =>
    obtain ⟨τ, hvname, -⟩ := ht
    obtain ⟨access, r, code, hr, hcode, rfl, rfl⟩ := he
    exact .parts (start.access hvname hr (.address rfl hcode)) rfl rfl rfl

theorem Arguments.Emits.composed {a : Arguments} {formals : Formals} (ht : a.Typed A Γ formals)
    (he : a.Emits A F frame p n q) : Phrase.Composed A Γ F D frame p n q (.arguments a) := by
  cases a with
  | empty m =>
    obtain ⟨rfl, rfl⟩ := he
    exact .parts start (Int.add_zero _).symm rfl rfl
  | single m argument =>
    obtain ⟨formal, hargument, -⟩ := ht
    obtain ⟨r, hr, rfl⟩ := he
    exact .parts (start.part (.argument argument) ⟨_, hargument, hr⟩) rfl rfl rfl
  | multiple m first rest =>
    obtain ⟨formal, others, hfirst, hrest, -⟩ := ht
    obtain ⟨k, above, l, r₁, r₂, hr₁, habove, hr₂, hsum, rfl⟩ := he
    obtain ⟨-, rfl⟩ := Word.add_eq_ok_iff.1 hsum
    exact .parts (((start.part (.argument first) ⟨_, hfirst, hr₁⟩).expand
      (fun hΓ => hr₁.size_nonneg hfirst hΓ) habove).part (.arguments rest) ⟨_, hrest, hr₂⟩)
      (by rw [Frame.size_of_expand habove, Int.add_assoc]) rfl rfl

theorem ArrayAggregate.Emits.composed {e : ArrayAggregate} {τ : Ty} {length : Int}
    (ht : e.Typed A Γ τ length) (he : e.Emits A F frame p n q) :
    Phrase.Composed A Γ F D frame p n q (.elements e) := by
  cases e with
  | single m element =>
    obtain ⟨r, hr, rfl⟩ := he
    exact .parts (start.part (.expression element) ⟨_, ht.1, hr⟩) rfl rfl rfl
  | multiple m first rest =>
    obtain ⟨others, hfirst, hrest, -⟩ := ht
    obtain ⟨k, above, l, r₁, r₂, hr₁, habove, hr₂, hsum, rfl⟩ := he
    obtain ⟨-, rfl⟩ := Word.add_eq_ok_iff.1 hsum
    exact .parts (((start.part (.expression first) ⟨_, hfirst, hr₁⟩).expand
      (fun hΓ => hr₁.size_nonneg hfirst hΓ) habove).part (.elements rest) ⟨_, _, hrest, hr₂⟩)
      (by rw [Frame.size_of_expand habove, Int.add_assoc]) rfl rfl

theorem RecordAggregate.Emits.composed {f : RecordAggregate} {fs : Fields} (ht : f.Typed A Γ fs)
    (he : f.Emits A F frame p n q) : Phrase.Composed A Γ F D frame p n q (.fields f) := by
  cases f with
  | single m field value =>
    obtain ⟨τ, hvalue, -⟩ := ht
    obtain ⟨r, hr, rfl⟩ := he
    exact .parts (start.part (.expression value) ⟨_, hvalue, hr⟩) rfl rfl rfl
  | multiple m field value rest =>
    obtain ⟨τ, others, hvalue, hrest, -⟩ := ht
    obtain ⟨k, above, l, r₁, r₂, hr₁, habove, hr₂, hsum, rfl⟩ := he
    obtain ⟨-, rfl⟩ := Word.add_eq_ok_iff.1 hsum
    exact .parts (((start.part (.expression value) ⟨_, hvalue, hr₁⟩).expand
      (fun hΓ => hr₁.size_nonneg hvalue hΓ) habove).part (.fields rest) ⟨_, hrest, hr₂⟩)
      (by rw [Frame.size_of_expand habove, Int.add_assoc]) rfl rfl

variable (D) in
/-- The code of every phrase is put together by steps. -/
theorem Phrase.Emitted.composed {phrase : Phrase} (h : phrase.Emitted A Γ F frame p n q) :
    phrase.Composed A Γ F D frame p n q := by
  cases phrase with
  | command c =>
    obtain ⟨ht, he, rfl⟩ := h
    exact he.composed ht
  | vname v =>
    obtain ⟨τ, assignable, access, ht, he, rfl⟩ := h
    exact he.composed ht
  | elements e =>
    obtain ⟨τ, length, ht, he⟩ := h
    exact he.composed ht
  | expression e | declaration d | argument a | arguments a | fields f =>
    obtain ⟨_, ht, he⟩ := h
    exact he.composed ht

end

end Triangle
