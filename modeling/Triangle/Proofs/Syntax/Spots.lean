import Triangle.Proofs.Syntax.Sites
import Triangle.Typing.Meaning

/-!
# What names refer to, site by site

The rules of scope, said of trees and without the checker.  A spot is a site of a tree together with
its surroundings: the number of routines around it and what names refer to there.  A block opens a
scope for its declarations; a declaration sees the ones before it; the parameters of a routine have
a scope of their own, in which the routine's name is not known yet, and its body has both, one level
further in.  Within one scope the first declaration of a name stands.

The spots of a phrase are listed in the order of its sites, so that every site has one spot.  And
what can be seen at a spot is introduced at a spot that is no deeper inside routines.
-/

namespace Triangle

/-- What names refer to, scope by scope and the innermost first. -/
abbrev Referents := List (List (String × Referent))

namespace Referents

/-- What names refer to before any declaration of the program. -/
def standard : Referents := [Standard.all.map fun s => (s.spelling, .standard s)]

/-- What a name refers to, from the innermost scope outwards. -/
def find? (ρ : Referents) (name : String) : Option Referent := ρ.findSome? (List.lookup name)

/-- The innermost scope does not have a name yet. -/
def Fresh (ρ : Referents) (name : String) : Prop := (ρ.headD []).lookup name = none

instance (ρ : Referents) (name : String) : Decidable (ρ.Fresh name) :=
  inferInstanceAs (Decidable ((ρ.headD []).lookup name = none))

/-- A name added to the innermost scope, unless the scope has it. -/
def declare (ρ : Referents) (name : String) (id : NodeId) : Referents :=
  if ρ.Fresh name then ((name, .node id) :: ρ.headD []) :: ρ.tail else ρ

end Referents

/-- A site and its surroundings. -/
structure Spot where
  site : Site
  /-- The number of routines around the site. -/
  level : Nat
  /-- What names refer to there; at a declaration, just before its name is added. -/
  names : Referents

/-- Sites that have the same surroundings. -/
def Spot.all (level : Nat) (ρ : Referents) (sites : List Site) : List Spot :=
  sites.map (⟨·, level, ρ⟩)

/-! ## The names that declarations introduce -/

/-- The names after a formal parameter. -/
def Parameter.inScope (ρ : Referents) : Parameter → Referents
  | .const m name _ | .func m name _ _ | .proc m name _ | .var m name _ =>
    ρ.declare name.spelling m.id

/-- The names after formal parameters. -/
def Parameters.inScope (ρ : Referents) : Parameters → Referents
  | .empty _ => ρ
  | .single _ parameter => parameter.inScope ρ
  | .multiple _ first rest => rest.inScope (first.inScope ρ)

/-- The names after a declaration. -/
def Declaration.inScope (ρ : Referents) : Declaration → Referents
  | .binaryOperator m name _ _ _ | .const m name _ | .func m name _ _ _ | .proc m name _ _
  | .type m name _ | .unaryOperator m name _ _ | .var m name _ => ρ.declare name.spelling m.id
  | .sequential _ first second => second.inScope (first.inScope ρ)

/-- The names in the body of a routine: those of its parameters, around them its own name and
everything that is known where it is declared. -/
def Referents.routine (ρ : Referents) (name : String) (id : NodeId) (parameters : Parameters) :
    Referents :=
  (parameters.inScope ([] :: ρ)).headD [] :: ρ.declare name id

/-! ## Spots -/

mutual

/-- The spots in a formal parameter. -/
def Parameter.spots (level : Nat) (ρ : Referents) : Parameter → List Spot
  | .const m name of | .var m name of =>
    Spot.all level ρ of.sites ++ Spot.all level ρ [.binder m.id name.spelling true]
  | .func m name parameters result =>
    parameters.spots level ([] :: ρ) ++ Spot.all level ρ result.sites ++
      Spot.all level ρ [.binder m.id name.spelling true]
  | .proc m name parameters =>
    parameters.spots level ([] :: ρ) ++ Spot.all level ρ [.binder m.id name.spelling false]

/-- The spots in formal parameters. -/
def Parameters.spots (level : Nat) (ρ : Referents) : Parameters → List Spot
  | .empty _ => []
  | .single _ parameter => parameter.spots level ρ
  | .multiple _ first rest => first.spots level ρ ++ rest.spots level (first.inScope ρ)

end

mutual

/-- The spots in a command. -/
def Command.spots (level : Nat) (ρ : Referents) : Command → List Spot
  | .assign _ target value => target.spots level ρ ++ value.spots level ρ
  | .doubleAssign _ first second firstValue secondValue =>
    first.spots level ρ ++ second.spots level ρ ++ firstValue.spots level ρ ++
      secondValue.spots level ρ
  | .call _ name arguments => Spot.all level ρ [.use name] ++ arguments.spots level ρ
  | .empty _ => []
  | .ifElse _ condition first second =>
    condition.spots level ρ ++ first.spots level ρ ++ second.spots level ρ
  | .letIn _ declaration body =>
    declaration.spots level ([] :: ρ) ++ body.spots level (declaration.inScope ([] :: ρ))
  | .sequential _ first second => first.spots level ρ ++ second.spots level ρ
  | .whileDo _ condition body => condition.spots level ρ ++ body.spots level ρ
  | .loopWhile _ prelude condition body =>
    prelude.spots level ρ ++ condition.spots level ρ ++ body.spots level ρ

/-- The spots in an expression. -/
def Expression.spots (level : Nat) (ρ : Referents) : Expression → List Spot
  | .array m elements => elements.spots level ρ ++ Spot.all level ρ [.phrase m.id]
  | .binary m left operator right =>
    left.spots level ρ ++ Spot.all level ρ [.use operator] ++ right.spots level ρ ++
      Spot.all level ρ [.phrase m.id]
  | .call m name arguments =>
    Spot.all level ρ [.use name] ++ arguments.spots level ρ ++ Spot.all level ρ [.phrase m.id]
  | .character m _ | .empty m | .integer m _ => Spot.all level ρ [.phrase m.id]
  | .ifElse m condition first second =>
    condition.spots level ρ ++ first.spots level ρ ++ second.spots level ρ ++
      Spot.all level ρ [.phrase m.id]
  | .letIn m declaration body =>
    declaration.spots level ([] :: ρ) ++ body.spots level (declaration.inScope ([] :: ρ)) ++
      Spot.all level ρ [.phrase m.id]
  | .record m fields => fields.spots level ρ ++ Spot.all level ρ [.phrase m.id]
  | .unary m operator operand =>
    Spot.all level ρ [.use operator] ++ operand.spots level ρ ++ Spot.all level ρ [.phrase m.id]
  | .vname m vname => vname.spots level ρ ++ Spot.all level ρ [.phrase m.id]

/-- The spots in a declaration. -/
def Declaration.spots (level : Nat) (ρ : Referents) : Declaration → List Spot
  | .binaryOperator m operator left right result =>
    Spot.all level ρ (left.sites ++ right.sites ++ result.sites) ++
      Spot.all level ρ [.binder m.id operator.spelling false]
  | .const m name value =>
    value.spots level ρ ++ Spot.all level ρ [.binder m.id name.spelling true]
  | .func m name parameters result body =>
    parameters.spots (level + 1) ([] :: ρ) ++ Spot.all level ρ result.sites ++
      body.spots (level + 1) (ρ.routine name.spelling m.id parameters) ++
      Spot.all level ρ [.binder m.id name.spelling true]
  | .proc m name parameters body =>
    parameters.spots (level + 1) ([] :: ρ) ++
      body.spots (level + 1) (ρ.routine name.spelling m.id parameters) ++
      Spot.all level ρ [.binder m.id name.spelling false]
  | .sequential _ first second => first.spots level ρ ++ second.spots level (first.inScope ρ)
  | .type m name of | .var m name of =>
    Spot.all level ρ of.sites ++ Spot.all level ρ [.binder m.id name.spelling true]
  | .unaryOperator m operator operand result =>
    Spot.all level ρ (operand.sites ++ result.sites) ++
      Spot.all level ρ [.binder m.id operator.spelling false]

/-- The spots in a V-name. -/
def Vname.spots (level : Nat) (ρ : Referents) : Vname → List Spot
  | .dot m record _ => record.spots level ρ ++ Spot.all level ρ [.phrase m.id]
  | .simple m name => Spot.all level ρ [.use name] ++ Spot.all level ρ [.phrase m.id]
  | .subscript m array index =>
    array.spots level ρ ++ index.spots level ρ ++ Spot.all level ρ [.phrase m.id]

/-- The spots in an actual parameter. -/
def Argument.spots (level : Nat) (ρ : Referents) : Argument → List Spot
  | .const _ value => value.spots level ρ
  | .func _ name | .proc _ name => Spot.all level ρ [.use name]
  | .var _ vname => vname.spots level ρ

/-- The spots in actual parameters. -/
def Arguments.spots (level : Nat) (ρ : Referents) : Arguments → List Spot
  | .empty _ => []
  | .single _ argument => argument.spots level ρ
  | .multiple _ first rest => first.spots level ρ ++ rest.spots level ρ

/-- The spots in the elements of an array. -/
def ArrayAggregate.spots (level : Nat) (ρ : Referents) : ArrayAggregate → List Spot
  | .single _ element => element.spots level ρ
  | .multiple _ first rest => first.spots level ρ ++ rest.spots level ρ

/-- The spots in the fields of a record. -/
def RecordAggregate.spots (level : Nat) (ρ : Referents) : RecordAggregate → List Spot
  | .single _ _ value => value.spots level ρ
  | .multiple _ _ value rest => value.spots level ρ ++ rest.spots level ρ

end

/-- The spots of a program, which is inside no routine and knows the standard names. -/
def Program.spots (program : Program) : List Spot := program.command.spots 0 .standard

/-! ## Names are introduced at spots -/

/-- What a name refers to is introduced under this name: by the standard environment, or at a spot
of at most the given level. -/
def Referent.Within (W : List Spot) (level : Nat) (name : String) : Referent → Prop
  | .standard declaration => declaration.spelling = name
  | .node id => ∃ p ∈ W, (∃ typed, p.site = .binder id name typed) ∧ p.level ≤ level

namespace Referents

/-- All names are introduced by the standard environment or at spots of at most the given level. -/
def Within (W : List Spot) (level : Nat) (ρ : Referents) : Prop :=
  ∀ scope ∈ ρ, ∀ entry ∈ scope, entry.2.Within W level entry.1

variable {W : List Spot} {level level' : Nat} {ρ : Referents}

theorem within_standard (W : List Spot) (level : Nat) : standard.Within W level := by
  refine List.forall_mem_singleton.2 fun entry hentry => ?_
  obtain ⟨declaration, -, rfl⟩ := List.mem_map.1 hentry
  rfl

theorem Within.mono (h : ρ.Within W level) (hle : level ≤ level') : ρ.Within W level' := by
  intro scope hscope entry hentry
  have hentry := h scope hscope entry hentry
  cases hreferent : entry.2 with
  | standard declaration => rwa [hreferent] at hentry
  | node id =>
    rw [hreferent] at hentry
    obtain ⟨p, hp, hsite, hlevel⟩ := hentry
    exact ⟨p, hp, hsite, Nat.le_trans hlevel hle⟩

theorem Within.cons (h : ρ.Within W level) {σ : Referents} (h₁ : σ.Within W level) :
    Within W level (σ.headD [] :: ρ) := by
  refine List.forall_mem_cons.2 ⟨?_, h⟩
  rcases σ with _ | ⟨first, rest⟩
  · exact List.forall_mem_nil _
  · exact h₁ first List.mem_cons_self

/-- A name declared at a spot is introduced there. -/
theorem Within.declare (h : ρ.Within W level) {name : String} {id : NodeId} {typed : Bool}
    {p : Spot} (hp : p ∈ W) (hsite : p.site = .binder id name typed) (hlevel : p.level ≤ level) :
    (ρ.declare name id).Within W level := by
  rw [Referents.declare]
  split
  · have htail : Within W level ρ.tail := fun scope hscope => h scope (List.mem_of_mem_tail hscope)
    obtain ⟨hhead, -⟩ := List.forall_mem_cons.1 (htail.cons h)
    refine List.forall_mem_cons.2 ⟨List.forall_mem_cons.2 ⟨?_, hhead⟩, htail⟩
    exact ⟨p, hp, ⟨typed, hsite⟩, hlevel⟩
  · exact h

/-- What is found under a name is introduced under this name. -/
theorem Within.find? (h : ρ.Within W level) {name : String} {referent : Referent}
    (hfind : ρ.find? name = some referent) : referent.Within W level name := by
  obtain ⟨scope, hscope, hlookup⟩ := List.exists_of_findSome?_eq_some hfind
  obtain ⟨front, back, rfl, -⟩ := List.lookup_eq_some_iff.1 hlookup
  exact h _ hscope _ (List.mem_append_right _ List.mem_cons_self)

end Referents

/-! ## Every site has one spot -/

/-- The spots of some sites at a level, with the names before and after.  The names at the spots are
introduced at spots, if those before are. -/
structure Spot.Over (level : Nat) (ρ : Referents) (spots : List Spot) (sites : List Site)
    (ρ' : Referents) : Prop where
  site : spots.map Spot.site = sites
  after : ∀ W, (∀ p ∈ spots, p ∈ W) → ρ.Within W level → ρ'.Within W level
  names : ∀ W, (∀ p ∈ spots, p ∈ W) → ρ.Within W level → ∀ p ∈ spots, p.names.Within W p.level

namespace Spot

variable {level level' : Nat} {ρ ρ₁ ρ₂ : Referents} {S S' : List Spot} {sites sites' : List Site}

theorem over_nil : Over level ρ [] [] ρ := ⟨rfl, fun _ _ h => h, fun _ _ _ => List.forall_mem_nil _⟩

theorem over_all (level : Nat) (ρ : Referents) (sites : List Site) :
    Over level ρ (Spot.all level ρ sites) sites ρ where
  site := by
    rw [Spot.all, List.map_map]
    exact List.map_id sites
  after _ _ h := h
  names _ _ h := List.forall_mem_map.2 fun _ _ => h

theorem over_declare (level : Nat) (ρ : Referents) (id : NodeId) (name : String) (typed : Bool) :
    Over level ρ (Spot.all level ρ [.binder id name typed]) [.binder id name typed]
      (ρ.declare name id) where
  site := rfl
  after _ hspots h := h.declare (hspots _ List.mem_cons_self) rfl (Nat.le_refl _)
  names _ _ h := List.forall_mem_singleton.2 h

/-- The second phrase sees the names that the first one leaves. -/
theorem Over.append (h : Over level ρ S sites ρ₁) (h' : Over level ρ₁ S' sites' ρ₂) :
    Over level ρ (S ++ S') (sites ++ sites') ρ₂ where
  site := by rw [List.map_append, h.site, h'.site]
  after W hspots hρ := by
    obtain ⟨hS, hS'⟩ := List.forall_mem_append.1 hspots
    exact h'.after W hS' (h.after W hS hρ)
  names W hspots hρ := by
    obtain ⟨hS, hS'⟩ := List.forall_mem_append.1 hspots
    exact List.forall_mem_append.2 ⟨h.names W hS hρ, h'.names W hS' (h.after W hS hρ)⟩

/-- A scope of its own. -/
theorem Over.scoped (h : Over level' ([] :: ρ) S sites ρ₁) (hle : level ≤ level') :
    Over level ρ S sites ρ where
  site := h.site
  after _ _ hρ := hρ
  names W hspots hρ := h.names W hspots ((hρ.mono hle).cons (σ := []) (List.forall_mem_nil _))

/-- The body of a routine sees its name and its parameters. -/
theorem Over.routine (typed : Bool) {id : NodeId} {name : String} {parameters : Parameters}
    (hparameters : Over (level + 1) ([] :: ρ) (parameters.spots (level + 1) ([] :: ρ))
      parameters.sites (parameters.inScope ([] :: ρ))) (h : Over level ρ S sites ρ)
    (hbody : Over (level + 1) (ρ.routine name id parameters) S' sites'
      (ρ.routine name id parameters)) :
    Over level ρ (parameters.spots (level + 1) ([] :: ρ) ++ S ++ S' ++
        Spot.all level ρ [.binder id name typed])
      (parameters.sites ++ sites ++ sites' ++ [.binder id name typed]) (ρ.declare name id) := by
  have hdeclare := over_declare level ρ id name typed
  have hbefore := (hparameters.scoped (Nat.le_succ level)).append h
  have hinside : ∀ W, (∀ p ∈ parameters.spots (level + 1) ([] :: ρ), p ∈ W) →
      (∀ p ∈ Spot.all level ρ [.binder id name typed], p ∈ W) → ρ.Within W level →
      (ρ.routine name id parameters).Within W (level + 1) := by
    intro W hp hname hρ
    have houter := hρ.mono (Nat.le_succ level)
    exact ((hdeclare.after W hname hρ).mono (Nat.le_succ level)).cons
      (hparameters.after W hp (houter.cons (σ := []) (List.forall_mem_nil _)))
  refine ⟨?_, fun W hspots hρ => ?_, fun W hspots hρ => ?_⟩
  · rw [List.map_append, List.map_append, hbefore.site, hbody.site, hdeclare.site]
  · simp only [List.forall_mem_append] at hspots
    exact hdeclare.after W hspots.2 hρ
  · simp only [List.forall_mem_append] at hspots
    obtain ⟨⟨⟨hp, hS⟩, hS'⟩, hname⟩ := hspots
    refine List.forall_mem_append.2 ⟨List.forall_mem_append.2 ⟨?_, ?_⟩, ?_⟩
    · exact hbefore.names W (List.forall_mem_append.2 ⟨hp, hS⟩) hρ
    · exact hbody.names W hS' (hinside W hp hname hρ)
    · exact hdeclare.names W hname hρ

end Spot

open Spot

mutual

theorem Parameter.over_spots (level : Nat) (ρ : Referents) :
    (parameter : Parameter) →
    Over level ρ (parameter.spots level ρ) parameter.sites (parameter.inScope ρ)
  | .const _ _ _ | .var _ _ _ => (over_all _ _ _).append (over_declare _ _ _ _ _)
  | .func _ _ parameters _ =>
    (((parameters.over_spots level _).scoped (Nat.le_refl _)).append
      (over_all _ _ _)).append (over_declare _ _ _ _ _)
  | .proc _ _ parameters =>
    ((parameters.over_spots level _).scoped (Nat.le_refl _)).append
      (over_declare _ _ _ _ _)

theorem Parameters.over_spots (level : Nat) (ρ : Referents) :
    (parameters : Parameters) →
    Over level ρ (parameters.spots level ρ) parameters.sites (parameters.inScope ρ)
  | .empty _ => over_nil
  | .single _ parameter => parameter.over_spots level ρ
  | .multiple _ first rest =>
    (first.over_spots level ρ).append (rest.over_spots level _)

end

mutual

theorem Command.over_spots (level : Nat) (ρ : Referents) :
    (command : Command) → Over level ρ (command.spots level ρ) command.sites ρ
  | .assign _ target value =>
    (target.over_spots level ρ).append (value.over_spots level ρ)
  | .doubleAssign _ first second firstValue secondValue =>
    (((first.over_spots level ρ).append (second.over_spots level ρ)).append
      (firstValue.over_spots level ρ)).append
      (secondValue.over_spots level ρ)
  | .call _ _ arguments => (over_all _ _ _).append (arguments.over_spots level ρ)
  | .empty _ => over_nil
  | .ifElse _ condition first second =>
    ((condition.over_spots level ρ).append (first.over_spots level ρ)).append
      (second.over_spots level ρ)
  | .letIn _ declaration body =>
    ((declaration.over_spots level _).append
      (body.over_spots level _)).scoped (Nat.le_refl _)
  | .sequential _ first second =>
    (first.over_spots level ρ).append (second.over_spots level ρ)
  | .whileDo _ condition body =>
    (condition.over_spots level ρ).append (body.over_spots level ρ)
  | .loopWhile _ prelude condition body =>
    ((prelude.over_spots level ρ).append (condition.over_spots level ρ)).append
      (body.over_spots level ρ)

theorem Expression.over_spots (level : Nat) (ρ : Referents) :
    (expression : Expression) → Over level ρ (expression.spots level ρ) expression.sites ρ
  | .array _ elements =>
    (elements.over_spots level ρ).append (over_all _ _ _)
  | .binary _ left _ right =>
    (((left.over_spots level ρ).append (over_all _ _ _)).append
      (right.over_spots level ρ)).append (over_all _ _ _)
  | .call _ _ arguments =>
    ((over_all _ _ _).append (arguments.over_spots level ρ)).append (over_all _ _ _)
  | .character _ _ | .empty _ | .integer _ _ => over_all _ _ _
  | .ifElse _ condition first second =>
    (((condition.over_spots level ρ).append
      (first.over_spots level ρ)).append
      (second.over_spots level ρ)).append (over_all _ _ _)
  | .letIn _ declaration body =>
    (((declaration.over_spots level _).append
      (body.over_spots level _)).scoped (Nat.le_refl _)).append (over_all _ _ _)
  | .record _ fields => (fields.over_spots level ρ).append (over_all _ _ _)
  | .unary _ _ operand =>
    ((over_all _ _ _).append (operand.over_spots level ρ)).append (over_all _ _ _)
  | .vname _ vname => (vname.over_spots level ρ).append (over_all _ _ _)

theorem Declaration.over_spots (level : Nat) (ρ : Referents) :
    (declaration : Declaration) →
    Over level ρ (declaration.spots level ρ) declaration.sites (declaration.inScope ρ)
  | .binaryOperator _ _ _ _ _ | .type _ _ _ | .unaryOperator _ _ _ _ | .var _ _ _ =>
    (over_all _ _ _).append (over_declare _ _ _ _ _)
  | .const _ _ value => (value.over_spots level ρ).append (over_declare _ _ _ _ _)
  | .func _ _ parameters _ body =>
    .routine true (parameters.over_spots _ _) (over_all _ _ _) (body.over_spots _ _)
  | .proc m name parameters body => by
    have h := Over.routine false (parameters.over_spots _ _) over_nil
      (Command.over_spots (level + 1) (ρ.routine name.spelling m.id parameters) body)
    rwa [List.append_nil, List.append_nil] at h
  | .sequential _ first second =>
    (first.over_spots level ρ).append (second.over_spots level _)

theorem Vname.over_spots (level : Nat) (ρ : Referents) :
    (vname : Vname) → Over level ρ (vname.spots level ρ) vname.sites ρ
  | .dot _ record _ => (record.over_spots level ρ).append (over_all _ _ _)
  | .simple _ _ => (over_all _ _ _).append (over_all _ _ _)
  | .subscript _ array index =>
    ((array.over_spots level ρ).append (index.over_spots level ρ)).append
      (over_all _ _ _)

theorem Argument.over_spots (level : Nat) (ρ : Referents) :
    (argument : Argument) → Over level ρ (argument.spots level ρ) argument.sites ρ
  | .const _ value => value.over_spots level ρ
  | .func _ _ | .proc _ _ => over_all _ _ _
  | .var _ vname => vname.over_spots level ρ

theorem Arguments.over_spots (level : Nat) (ρ : Referents) :
    (arguments : Arguments) → Over level ρ (arguments.spots level ρ) arguments.sites ρ
  | .empty _ => over_nil
  | .single _ argument => argument.over_spots level ρ
  | .multiple _ first rest =>
    (first.over_spots level ρ).append (rest.over_spots level ρ)

theorem ArrayAggregate.over_spots (level : Nat) (ρ : Referents) :
    (elements : ArrayAggregate) → Over level ρ (elements.spots level ρ) elements.sites ρ
  | .single _ element => element.over_spots level ρ
  | .multiple _ first rest =>
    (first.over_spots level ρ).append (rest.over_spots level ρ)

theorem RecordAggregate.over_spots (level : Nat) (ρ : Referents) :
    (fields : RecordAggregate) → Over level ρ (fields.spots level ρ) fields.sites ρ
  | .single _ _ value => value.over_spots level ρ
  | .multiple _ _ value rest =>
    (value.over_spots level ρ).append (rest.over_spots level ρ)

end

theorem Program.map_site_spots (program : Program) :
    program.spots.map Spot.site = program.command.sites :=
  (program.command.over_spots 0 .standard).site

theorem Program.site_mem {program : Program} {p : Spot} (hp : p ∈ program.spots) :
    p.site ∈ program.command.sites :=
  program.map_site_spots ▸ List.mem_map_of_mem hp

/-- At every spot of a program, the names that can be seen are introduced at spots no deeper. -/
theorem Program.within_spots (program : Program) :
    ∀ p ∈ program.spots, p.names.Within program.spots p.level :=
  (program.command.over_spots 0 .standard).names _ (fun _ hp => hp) (Referents.within_standard _ 0)

/-- Where identities are not used twice, an identity has one spot at most. -/
theorem Program.spot_eq_of_id_eq {program : Program} (hnodup : program.ids.Nodup) {p q : Spot}
    (hp : p ∈ program.spots) (hq : q ∈ program.spots) (hid : p.site.id = q.site.id) : p = q := by
  have hfiled := program.command.filed.before [program.mark.id]
  rw [Site.Filed, ← program.map_site_spots, List.map_map] at hfiled
  exact List.inj_on_of_nodup_map (hfiled.nodup hnodup) hp hq hid

end Triangle
