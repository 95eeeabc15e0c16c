import Mathlib.Data.List.Nodup
import Triangle.Proofs.Syntax.Identities

/-!
# The sites of a phrase

Checking files something about three kinds of places in a tree.  A phrase that has a value, or that
stands for a type, gets a type.  A use of a name or an operator gets the declaration it refers to.
A declaration or a formal parameter is what such a use refers to, and gets a type if it has one.

These are the sites of a phrase.  They are listed in the order of the identities they are filed
under, so no two sites share an identity where no two nodes do.
-/

namespace Triangle

/-- A place in a tree that something is filed about. -/
inductive Site where
  /-- An expression, a V-name or a type denoter. -/
  | phrase (id : NodeId)
  /-- A name or an operator where it is used. -/
  | use (name : Terminal)
  /-- A declaration or a formal parameter, the name it introduces, and whether it has a type. -/
  | binder (id : NodeId) (name : String) (typed : Bool)
deriving DecidableEq

namespace Site

/-- The identity that things are filed under. -/
def id : Site → NodeId
  | phrase id | binder id _ _ => id
  | use name => name.mark.id

/-- Where the type of a site is filed, if it has one. -/
def typed? : Site → Option NodeId
  | phrase id | binder id _ true => some id
  | use _ | binder _ _ false => none

end Site

mutual

/-- The sites in a type denoter. -/
def TypeDenoter.sites : TypeDenoter → List Site
  | .any m | .bool m | .char m | .error m | .int m => [.phrase m.id]
  | .array m _ element => element.sites ++ [.phrase m.id]
  | .record m fields => fields.sites ++ [.phrase m.id]
  | .simple m name => [.use name] ++ [.phrase m.id]

/-- The sites in the fields of a record type. -/
def FieldDenoters.sites : FieldDenoters → List Site
  | .single _ _ of => of.sites
  | .multiple _ _ of rest => of.sites ++ rest.sites

end

mutual

/-- The sites in a formal parameter. -/
def Parameter.sites : Parameter → List Site
  | .const m name of | .var m name of => of.sites ++ [.binder m.id name.spelling true]
  | .func m name parameters result =>
    parameters.sites ++ result.sites ++ [.binder m.id name.spelling true]
  | .proc m name parameters => parameters.sites ++ [.binder m.id name.spelling false]

/-- The sites in formal parameters. -/
def Parameters.sites : Parameters → List Site
  | .empty _ => []
  | .single _ parameter => parameter.sites
  | .multiple _ first rest => first.sites ++ rest.sites

end

mutual

/-- The sites in a command. -/
def Command.sites : Command → List Site
  | .assign _ target value => target.sites ++ value.sites
  | .doubleAssign _ first second firstValue secondValue =>
    first.sites ++ second.sites ++ firstValue.sites ++ secondValue.sites
  | .call _ name arguments => [.use name] ++ arguments.sites
  | .empty _ => []
  | .ifElse _ condition first second => condition.sites ++ first.sites ++ second.sites
  | .letIn _ declaration body => declaration.sites ++ body.sites
  | .sequential _ first second => first.sites ++ second.sites
  | .whileDo _ condition body => condition.sites ++ body.sites
  | .loopWhile _ prelude condition body => prelude.sites ++ condition.sites ++ body.sites

/-- The sites in an expression. -/
def Expression.sites : Expression → List Site
  | .array m elements => elements.sites ++ [.phrase m.id]
  | .binary m left operator right =>
    left.sites ++ [.use operator] ++ right.sites ++ [.phrase m.id]
  | .call m name arguments => [.use name] ++ arguments.sites ++ [.phrase m.id]
  | .character m _ | .empty m | .integer m _ => [.phrase m.id]
  | .ifElse m condition first second =>
    condition.sites ++ first.sites ++ second.sites ++ [.phrase m.id]
  | .letIn m declaration body => declaration.sites ++ body.sites ++ [.phrase m.id]
  | .record m fields => fields.sites ++ [.phrase m.id]
  | .unary m operator operand => [.use operator] ++ operand.sites ++ [.phrase m.id]
  | .vname m vname => vname.sites ++ [.phrase m.id]

/-- The sites in a declaration. -/
def Declaration.sites : Declaration → List Site
  | .binaryOperator m operator left right result =>
    left.sites ++ right.sites ++ result.sites ++ [.binder m.id operator.spelling false]
  | .const m name value => value.sites ++ [.binder m.id name.spelling true]
  | .func m name parameters result body =>
    parameters.sites ++ result.sites ++ body.sites ++ [.binder m.id name.spelling true]
  | .proc m name parameters body =>
    parameters.sites ++ body.sites ++ [.binder m.id name.spelling false]
  | .sequential _ first second => first.sites ++ second.sites
  | .type m name of | .var m name of => of.sites ++ [.binder m.id name.spelling true]
  | .unaryOperator m operator operand result =>
    operand.sites ++ result.sites ++ [.binder m.id operator.spelling false]

/-- The sites in a V-name. -/
def Vname.sites : Vname → List Site
  | .dot m record _ => record.sites ++ [.phrase m.id]
  | .simple m name => [.use name] ++ [.phrase m.id]
  | .subscript m array index => array.sites ++ index.sites ++ [.phrase m.id]

/-- The sites in an actual parameter. -/
def Argument.sites : Argument → List Site
  | .const _ value => value.sites
  | .func _ name | .proc _ name => [.use name]
  | .var _ vname => vname.sites

/-- The sites in actual parameters. -/
def Arguments.sites : Arguments → List Site
  | .empty _ => []
  | .single _ argument => argument.sites
  | .multiple _ first rest => first.sites ++ rest.sites

/-- The sites in the elements of an array. -/
def ArrayAggregate.sites : ArrayAggregate → List Site
  | .single _ element => element.sites
  | .multiple _ first rest => first.sites ++ rest.sites

/-- The sites in the fields of a record. -/
def RecordAggregate.sites : RecordAggregate → List Site
  | .single _ _ value => value.sites
  | .multiple _ _ value rest => value.sites ++ rest.sites

end

/-! ## Sites are filed under identities of their own -/

namespace Site

/-- Sites are filed under some of the identities, each under its own. -/
def Filed (sites : List Site) (ids : List NodeId) : Prop := (sites.map Site.id).Sublist ids

variable {sites sites' : List Site} {ids ids' : List NodeId}

theorem filed_nil (ids : List NodeId) : Filed [] ids := List.nil_sublist ids

theorem filed_self (site : Site) : Filed [site] [site.id] := List.Sublist.refl _

theorem Filed.append (h : Filed sites ids) (h' : Filed sites' ids') :
    Filed (sites ++ sites') (ids ++ ids') := by
  rw [Filed, List.map_append]
  exact List.Sublist.append h h'

/-- Identities that nothing is filed under, before the others. -/
theorem Filed.after (h : Filed sites ids) (ids' : List NodeId) : Filed sites (ids' ++ ids) :=
  h.trans (List.sublist_append_right _ _)

/-- Identities that nothing is filed under, after the others. -/
theorem Filed.before (h : Filed sites ids) (ids' : List NodeId) : Filed sites (ids ++ ids') :=
  h.trans (List.sublist_append_left _ _)

theorem Filed.id_mem (h : Filed sites ids) {site : Site} (hsite : site ∈ sites) : site.id ∈ ids :=
  h.subset (List.mem_map_of_mem hsite)

end Site

open Site

mutual

theorem TypeDenoter.filed : (of : TypeDenoter) → Filed of.sites of.ids
  | .any _ | .bool _ | .char _ | .error _ | .int _ => filed_self _
  | .array _ _ element => (element.filed.after _).append (filed_self _)
  | .record _ fields => fields.filed.append (filed_self _)
  | .simple _ name => (filed_self (.use name)).append (filed_self _)

theorem FieldDenoters.filed : (fields : FieldDenoters) → Filed fields.sites fields.ids
  | .single _ _ of => (of.filed.after _).before _
  | .multiple _ _ of rest =>
    ((of.filed.after _).append rest.filed).before _

end

mutual

theorem Parameter.filed : (parameter : Parameter) → Filed parameter.sites parameter.ids
  | .const _ _ of | .var _ _ of => (of.filed.after _).append (filed_self (.binder _ _ _))
  | .func _ _ parameters result =>
    ((parameters.filed.after _).append result.filed).append
      (filed_self (.binder _ _ _))
  | .proc _ _ parameters =>
    (parameters.filed.after _).append (filed_self (.binder _ _ _))

theorem Parameters.filed : (parameters : Parameters) → Filed parameters.sites parameters.ids
  | .empty _ => filed_nil _
  | .single _ parameter => parameter.filed.before _
  | .multiple _ first rest =>
    (first.filed.append rest.filed).before _

end

mutual

theorem Command.filed : (command : Command) → Filed command.sites command.ids
  | .assign _ target value => (target.filed.append value.filed).before _
  | .doubleAssign _ first second firstValue secondValue =>
    (((first.filed.append second.filed).append
      firstValue.filed).append secondValue.filed).before _
  | .call _ name arguments =>
    ((filed_self (.use name)).append arguments.filed).before _
  | .empty _ => filed_nil _
  | .ifElse _ condition first second =>
    ((condition.filed.append first.filed).append
      second.filed).before _
  | .letIn _ declaration body =>
    (declaration.filed.append body.filed).before _
  | .sequential _ first second => (first.filed.append second.filed).before _
  | .whileDo _ condition body =>
    (condition.filed.append body.filed).before _
  | .loopWhile _ prelude condition body =>
    ((prelude.filed.append condition.filed).append
      body.filed).before _

theorem Expression.filed : (expression : Expression) → Filed expression.sites expression.ids
  | .array _ elements => elements.filed.append (filed_self _)
  | .binary _ left operator right =>
    ((left.filed.append (filed_self (.use operator))).append
      right.filed).append (filed_self _)
  | .call _ name arguments =>
    ((filed_self (.use name)).append arguments.filed).append (filed_self _)
  | .character _ _ | .integer _ _ => (filed_self _).after _
  | .empty _ => filed_self _
  | .ifElse _ condition first second =>
    ((condition.filed.append first.filed).append
      second.filed).append (filed_self _)
  | .letIn _ declaration body =>
    (declaration.filed.append body.filed).append (filed_self _)
  | .record _ fields => fields.filed.append (filed_self _)
  | .unary _ operator operand =>
    ((filed_self (.use operator)).append operand.filed).append (filed_self _)
  | .vname _ vname => vname.filed.append (filed_self _)

theorem Declaration.filed : (declaration : Declaration) → Filed declaration.sites declaration.ids
  | .binaryOperator _ _ left right result =>
    (((left.filed.after _).append right.filed).append result.filed).append
      (filed_self (.binder _ _ _))
  | .const _ _ value => (value.filed.after _).append (filed_self (.binder _ _ _))
  | .func _ _ parameters result body =>
    (((parameters.filed.after _).append result.filed).append body.filed).append
      (filed_self (.binder _ _ _))
  | .proc _ _ parameters body =>
    ((parameters.filed.after _).append body.filed).append (filed_self (.binder _ _ _))
  | .sequential _ first second =>
    (first.filed.append second.filed).before _
  | .type _ _ of | .var _ _ of => (of.filed.after _).append (filed_self (.binder _ _ _))
  | .unaryOperator _ _ operand result =>
    ((operand.filed.after _).append result.filed).append (filed_self (.binder _ _ _))

theorem Vname.filed : (vname : Vname) → Filed vname.sites vname.ids
  | .dot _ record _ => (record.filed.before _).append (filed_self _)
  | .simple _ name => (filed_self (.use name)).append (filed_self _)
  | .subscript _ array index =>
    (array.filed.append index.filed).append (filed_self _)

theorem Argument.filed : (argument : Argument) → Filed argument.sites argument.ids
  | .const _ value => value.filed.before _
  | .func _ name | .proc _ name => (filed_self (.use name)).before _
  | .var _ vname => vname.filed.before _

theorem Arguments.filed : (arguments : Arguments) → Filed arguments.sites arguments.ids
  | .empty _ => filed_nil _
  | .single _ argument => argument.filed.before _
  | .multiple _ first rest => (first.filed.append rest.filed).before _

theorem ArrayAggregate.filed : (elements : ArrayAggregate) → Filed elements.sites elements.ids
  | .single _ element => element.filed.before _
  | .multiple _ first rest =>
    (first.filed.append rest.filed).before _

theorem RecordAggregate.filed : (fields : RecordAggregate) → Filed fields.sites fields.ids
  | .single _ _ value => (value.filed.after _).before _
  | .multiple _ _ value rest =>
    ((value.filed.after _).append rest.filed).before _

end

end Triangle
