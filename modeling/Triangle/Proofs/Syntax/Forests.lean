import Triangle.Proofs.Parsing.Trees
import Triangle.Syntax.Statistics
import Triangle.Typing.AnnotatedTree

/-!
# The tree behind a listing

A tree is shown as a text with one line for each node.  The text is read back here: the lines are
cut at the line feeds, the depths of the nodes are taken from the indentation, and a list of nodes
with their depths is a forest in pre-order (`Forest.ofList_preorder`).

What the forest should be is said by walking over the tree once more (`Program.forest`), and
`Drawn` relates all walks over a phrase: its outline, the list of its identities, the numbers of its
literals and its forest.  There is one way to put phrases side by side and one to put a node above
them, so a walk that left out a part would not go through.
-/

namespace Triangle

/-! ## Forests -/

/-- Trees side by side: the node of the first one, what is below it, and the other trees. -/
inductive Forest (α : Type) where
  | nil
  | cons (node : α) (below rest : Forest α)

namespace Forest

variable {α β : Type}

/-- A forest with other nodes. -/
def map (f : α → β) : Forest α → Forest β
  | nil => nil
  | cons a below rest => cons (f a) (below.map f) (rest.map f)

/-- The nodes with their depths, each before those below it. -/
def preorder (depth : Nat) : Forest α → List (Nat × α)
  | nil => []
  | cons a below rest => (depth, a) :: (below.preorder (depth + 1) ++ rest.preorder depth)

/-- The nodes, each after those below it. -/
def postorder : Forest α → List α
  | nil => []
  | cons a below rest => below.postorder ++ a :: rest.postorder

/-- The forest that nodes with depths come from: below a node are those that follow it at greater
depths. -/
def ofList : List (Nat × α) → Forest α
  | [] => nil
  | (depth, a) :: list =>
    cons a (ofList (list.takeWhile (depth < ·.1))) (ofList (list.dropWhile (depth < ·.1)))
termination_by list => list.length
decreasing_by
  · exact Nat.lt_succ_of_le (List.takeWhile_prefix _).length_le
  · exact Nat.lt_succ_of_le (List.dropWhile_suffix _).length_le

theorem preorder_map (f : α → β) (forest : Forest α) : ∀ depth,
    (forest.map f).preorder depth = (forest.preorder depth).map (Prod.map id f) := by
  induction forest with
  | nil => intro depth; rfl
  | cons a below rest ihbelow ihrest => intro depth; simp [map, preorder, ihbelow, ihrest]

/-- Both orders list the same nodes. -/
theorem perm_preorder (forest : Forest α) : ∀ depth,
    ((forest.preorder depth).map Prod.snd).Perm forest.postorder := by
  induction forest with
  | nil => exact fun _ => .nil
  | cons a below rest ihbelow ihrest =>
    intro depth
    simp only [preorder, postorder, List.map_cons, List.map_append]
    exact (((ihbelow _).append (ihrest _)).cons a).trans List.perm_middle.symm

theorem lt_of_mem_preorder (forest : Forest α) : ∀ {depth bound : Nat}, bound < depth →
    ∀ entry ∈ forest.preorder depth, bound < entry.1 := by
  induction forest with
  | nil => simp [preorder]
  | cons a below rest ihbelow ihrest =>
    intro depth bound h entry hentry
    simp only [preorder, List.mem_cons, List.mem_append] at hentry
    rcases hentry with rfl | hentry | hentry
    · exact h
    · exact ihbelow (Nat.lt_succ_of_lt h) entry hentry
    · exact ihrest h entry hentry

/-- A forest is determined by its nodes in pre-order and their depths. -/
theorem ofList_preorder (forest : Forest α) : ∀ depth, ofList (forest.preorder depth) = forest := by
  induction forest with
  | nil => intro depth; simp [preorder, ofList]
  | cons a below rest ihbelow ihrest =>
    intro depth
    have hbelow : ∀ entry ∈ below.preorder (depth + 1), decide (depth < entry.1) = true :=
      fun entry h => decide_eq_true (below.lt_of_mem_preorder (Nat.lt_succ_self _) entry h)
    -- the next tree starts at the depth of this one
    have hrest : (rest.preorder depth).takeWhile (depth < ·.1) = [] ∧
        (rest.preorder depth).dropWhile (depth < ·.1) = rest.preorder depth := by
      cases rest <;> simp [preorder]
    rw [preorder, ofList, List.takeWhile_append_of_pos hbelow, List.dropWhile_append_of_pos hbelow,
      hrest.1, hrest.2, List.append_nil, ihbelow, ihrest]

end Forest

/-! ## The forest of a phrase -/

/-- The node of a terminal before those of other phrases. -/
def Terminal.forest (terminal : Terminal) : Forest NodeId → Forest NodeId :=
  .cons terminal.mark.id .nil

mutual

/-- The nodes of a type denoter. -/
def TypeDenoter.forest : TypeDenoter → Forest NodeId → Forest NodeId
  | .any m | .bool m | .char m | .error m | .int m => .cons m.id .nil
  | .array m size element => .cons m.id (size.forest (element.forest .nil))
  | .record m fields => .cons m.id (fields.forest .nil)
  | .simple m name => .cons m.id (name.forest .nil)

/-- The nodes of the fields of a record type. -/
def FieldDenoters.forest : FieldDenoters → Forest NodeId → Forest NodeId
  | .single m name of => .cons m.id (name.forest (of.forest .nil))
  | .multiple m name of rest => .cons m.id (name.forest (of.forest (rest.forest .nil)))

end

mutual

/-- The nodes of a formal parameter. -/
def Parameter.forest : Parameter → Forest NodeId → Forest NodeId
  | .const m name of | .var m name of => .cons m.id (name.forest (of.forest .nil))
  | .func m name parameters result =>
    .cons m.id (name.forest (parameters.forest (result.forest .nil)))
  | .proc m name parameters => .cons m.id (name.forest (parameters.forest .nil))

/-- The nodes of formal parameters. -/
def Parameters.forest : Parameters → Forest NodeId → Forest NodeId
  | .empty m => .cons m.id .nil
  | .single m parameter => .cons m.id (parameter.forest .nil)
  | .multiple m first rest => .cons m.id (first.forest (rest.forest .nil))

end

mutual

/-- The nodes of a command. -/
def Command.forest : Command → Forest NodeId → Forest NodeId
  | .assign m target value => .cons m.id (target.forest (value.forest .nil))
  | .doubleAssign m first second firstValue secondValue =>
    .cons m.id (first.forest (second.forest (firstValue.forest (secondValue.forest .nil))))
  | .call m name arguments => .cons m.id (name.forest (arguments.forest .nil))
  | .empty m => .cons m.id .nil
  | .ifElse m condition first second =>
    .cons m.id (condition.forest (first.forest (second.forest .nil)))
  | .letIn m declaration body => .cons m.id (declaration.forest (body.forest .nil))
  | .sequential m first second => .cons m.id (first.forest (second.forest .nil))
  | .whileDo m condition body => .cons m.id (condition.forest (body.forest .nil))
  | .loopWhile m prelude condition body =>
    .cons m.id (prelude.forest (condition.forest (body.forest .nil)))

/-- The nodes of an expression. -/
def Expression.forest : Expression → Forest NodeId → Forest NodeId
  | .array m elements => .cons m.id (elements.forest .nil)
  | .binary m left operator right => .cons m.id (left.forest (operator.forest (right.forest .nil)))
  | .call m name arguments => .cons m.id (name.forest (arguments.forest .nil))
  | .character m literal | .integer m literal => .cons m.id (literal.forest .nil)
  | .empty m => .cons m.id .nil
  | .ifElse m condition first second =>
    .cons m.id (condition.forest (first.forest (second.forest .nil)))
  | .letIn m declaration body => .cons m.id (declaration.forest (body.forest .nil))
  | .record m fields => .cons m.id (fields.forest .nil)
  | .unary m operator operand => .cons m.id (operator.forest (operand.forest .nil))
  | .vname m vname => .cons m.id (vname.forest .nil)

/-- The nodes of a declaration. -/
def Declaration.forest : Declaration → Forest NodeId → Forest NodeId
  | .binaryOperator m operator left right result =>
    .cons m.id (operator.forest (left.forest (right.forest (result.forest .nil))))
  | .const m name value => .cons m.id (name.forest (value.forest .nil))
  | .func m name parameters result body =>
    .cons m.id (name.forest (parameters.forest (result.forest (body.forest .nil))))
  | .proc m name parameters body => .cons m.id (name.forest (parameters.forest (body.forest .nil)))
  | .sequential m first second => .cons m.id (first.forest (second.forest .nil))
  | .type m name of | .var m name of => .cons m.id (name.forest (of.forest .nil))
  | .unaryOperator m operator operand result =>
    .cons m.id (operator.forest (operand.forest (result.forest .nil)))

/-- The nodes of a V-name. -/
def Vname.forest : Vname → Forest NodeId → Forest NodeId
  | .dot m record field => .cons m.id (record.forest (field.forest .nil))
  | .simple m name => .cons m.id (name.forest .nil)
  | .subscript m array index => .cons m.id (array.forest (index.forest .nil))

/-- The nodes of an actual parameter. -/
def Argument.forest : Argument → Forest NodeId → Forest NodeId
  | .const m value => .cons m.id (value.forest .nil)
  | .func m name | .proc m name => .cons m.id (name.forest .nil)
  | .var m vname => .cons m.id (vname.forest .nil)

/-- The nodes of actual parameters. -/
def Arguments.forest : Arguments → Forest NodeId → Forest NodeId
  | .empty m => .cons m.id .nil
  | .single m argument => .cons m.id (argument.forest .nil)
  | .multiple m first rest => .cons m.id (first.forest (rest.forest .nil))

/-- The nodes of the elements of an array. -/
def ArrayAggregate.forest : ArrayAggregate → Forest NodeId → Forest NodeId
  | .single m element => .cons m.id (element.forest .nil)
  | .multiple m first rest => .cons m.id (first.forest (rest.forest .nil))

/-- The nodes of the fields of a record. -/
def RecordAggregate.forest : RecordAggregate → Forest NodeId → Forest NodeId
  | .single m field value => .cons m.id (field.forest (value.forest .nil))
  | .multiple m field value rest => .cons m.id (field.forest (value.forest (rest.forest .nil)))

end

/-- The nodes of a program. -/
def Program.forest (program : Program) : Forest NodeId :=
  .cons program.mark.id (program.command.forest .nil) .nil

/-! ## Walks over a phrase -/

/-- The literals among the nodes of an outline. -/
def Statistics.ofOutline (entries : List Entry) : Statistics :=
  ⟨entries.countP (·.label = "CharacterExpression"), entries.countP (·.label = "IntegerExpression")⟩

/-- A label is a word. -/
def isLabel (label : String) : Bool := label.toList.all Scan.isLetter && label ≠ ""

/-- A label that is not that of a literal. -/
def isPlainLabel (label : String) : Bool :=
  isLabel label && label ≠ "CharacterExpression" && label ≠ "IntegerExpression"

/-- All walks over some phrases see the same nodes. -/
structure Drawn (outline : Nat → List Entry) (ids : List NodeId) (statistics : Statistics)
    (forest : Forest NodeId → Forest NodeId) : Prop where
  preorder : ∀ depth rest, (forest rest).preorder depth =
    (outline depth).map (fun entry => (entry.depth, entry.id)) ++ rest.preorder depth
  postorder : ∀ rest, (forest rest).postorder = ids ++ rest.postorder
  statistics : ∀ depth, Statistics.ofOutline (outline depth) = statistics
  labels : ∀ depth, ∀ entry ∈ outline depth, isLabel entry.label = true

namespace Drawn

variable {o o' : Nat → List Entry} {i i' : List NodeId} {s s' : Statistics}
  {f f' : Forest NodeId → Forest NodeId} {m : Mark} {label : String} {kind : EntryKind}
  {name : Option String}

theorem append (h : Drawn o i s f) (h' : Drawn o' i' s' f') :
    Drawn (fun depth => o depth ++ o' depth) (i ++ i') (s + s') (fun rest => f (f' rest)) where
  preorder depth rest := by rw [h.preorder, h'.preorder, List.map_append, List.append_assoc]
  postorder rest := by rw [h.postorder, h'.postorder, List.append_assoc]
  statistics depth := by
    rw [← h.statistics depth, ← h'.statistics depth]
    simp only [Statistics.ofOutline, List.countP_append]
    rfl
  labels depth := List.forall_mem_append.2 ⟨h.labels depth, h'.labels depth⟩

/-- Something without literals comes after the others. -/
theorem tail (h : Drawn o i s f) (h' : Drawn o' i' .none f') :
    Drawn (fun depth => o depth ++ o' depth) (i ++ i') s (fun rest => f (f' rest)) :=
  h.append h'

/-- Something without literals comes before the others. -/
theorem head (h : Drawn o i .none f) (h' : Drawn o' i' s' f') :
    Drawn (fun depth => o depth ++ o' depth) (i ++ i') s' (fun rest => f (f' rest)) := by
  have hadd : Statistics.none + s' = s' := by
    show Statistics.mk (0 + _) (0 + _) = _
    rw [Nat.zero_add, Nat.zero_add]
  exact hadd ▸ h.append h'

/-- A node above an outline is the root of its forest. -/
theorem above (h : Drawn o i s f) (hlabel : isLabel label = true)
    (hs : ∀ depth, Statistics.ofOutline (⟨depth, m, label, kind, name⟩ :: o (depth + 1)) = s') :
    Drawn (fun depth => ⟨depth, m, label, kind, name⟩ :: o (depth + 1)) (i ++ [m.id]) s'
      (.cons m.id (f .nil)) where
  preorder depth rest := by simp [Forest.preorder, h.preorder, Entry.id]
  postorder rest := by simp [Forest.postorder, h.postorder]
  statistics := hs
  labels depth := List.forall_mem_cons.2 ⟨hlabel, h.labels (depth + 1)⟩

/-- A node that is no literal stands above others. -/
theorem node (h : Drawn o i s f) (hlabel : isPlainLabel label = true) :
    Drawn (fun depth => ⟨depth, m, label, kind, name⟩ :: o (depth + 1)) (i ++ [m.id]) s
      (.cons m.id (f .nil)) := by
  simp only [isPlainLabel, Bool.and_eq_true, decide_eq_true_eq] at hlabel
  refine h.above hlabel.1.1 fun depth => ?_
  rw [← h.statistics (depth + 1)]
  simp [Statistics.ofOutline, hlabel]

theorem empty : Drawn (fun _ => []) [] .none id :=
  ⟨fun _ _ => rfl, fun _ => rfl, fun _ => rfl, fun _ _ => nofun⟩

theorem leaf (hlabel : isPlainLabel label = true) :
    Drawn (fun depth => [⟨depth, m, label, kind, name⟩]) [m.id] .none (.cons m.id .nil) :=
  empty.node hlabel

theorem identifier {t : Terminal} :
    Drawn (fun depth => t.identifier depth) [t.mark.id] .none t.forest :=
  leaf rfl

theorem operator {t : Terminal} :
    Drawn (fun depth => t.operator depth) [t.mark.id] .none t.forest :=
  leaf rfl

end Drawn

open Drawn

mutual

theorem TypeDenoter.drawn : (t : TypeDenoter) → Drawn (fun d => t.outline d) t.ids .none t.forest
  | .any _ | .bool _ | .char _ | .error _ | .int _ => leaf rfl
  | .array _ _ element => ((leaf rfl).head element.drawn).node (by rfl)
  | .record _ fields => fields.drawn.node (by rfl)
  | .simple _ _ => identifier.node (by rfl)

theorem FieldDenoters.drawn : (f : FieldDenoters) →
    Drawn (fun d => f.outline d) f.ids .none f.forest
  | .single _ _ of => (identifier.head of.drawn).node (by rfl)
  | .multiple _ _ of rest => ((identifier.head of.drawn).tail rest.drawn).node (by rfl)

end

mutual

theorem Parameter.drawn : (p : Parameter) → Drawn (fun d => p.outline d) p.ids .none p.forest
  | .const _ _ of | .var _ _ of => (identifier.head of.drawn).node (by rfl)
  | .func _ _ parameters result =>
    ((identifier.head parameters.drawn).tail result.drawn).node (by rfl)
  | .proc _ _ parameters => (identifier.head parameters.drawn).node (by rfl)

theorem Parameters.drawn : (p : Parameters) → Drawn (fun d => p.outline d) p.ids .none p.forest
  | .empty _ => leaf rfl
  | .single _ parameter => parameter.drawn.node (by rfl)
  | .multiple _ first rest => (first.drawn.tail rest.drawn).node (by rfl)

end

mutual

theorem Command.drawn : (c : Command) → Drawn (fun d => c.outline d) c.ids c.statistics c.forest
  | .assign _ target value => (target.drawn.append value.drawn).node (by rfl)
  | .doubleAssign _ first second firstValue secondValue =>
    (((first.drawn.append second.drawn).append firstValue.drawn).append
      secondValue.drawn).node (by rfl)
  | .call _ _ arguments => (identifier.head arguments.drawn).node (by rfl)
  | .empty _ => leaf rfl
  | .ifElse _ condition first second =>
    ((condition.drawn.append first.drawn).append second.drawn).node (by rfl)
  | .letIn _ declaration body => (declaration.drawn.append body.drawn).node (by rfl)
  | .sequential _ first second => (first.drawn.append second.drawn).node (by rfl)
  | .whileDo _ condition body => (condition.drawn.append body.drawn).node (by rfl)
  | .loopWhile _ prelude condition body =>
    ((prelude.drawn.append condition.drawn).append body.drawn).node (by rfl)

theorem Expression.drawn : (e : Expression) →
    Drawn (fun d => e.outline d) e.ids e.statistics e.forest
  | .array _ elements => elements.drawn.node (by rfl)
  | .binary _ left _ right => ((left.drawn.tail operator).append right.drawn).node (by rfl)
  | .call _ _ arguments => (identifier.head arguments.drawn).node (by rfl)
  | .character _ _ | .integer _ _ => (leaf rfl).above (by rfl) fun _ => rfl
  | .empty _ => leaf rfl
  | .ifElse _ condition first second =>
    ((condition.drawn.append first.drawn).append second.drawn).node (by rfl)
  | .letIn _ declaration body => (declaration.drawn.append body.drawn).node (by rfl)
  | .record _ fields => fields.drawn.node (by rfl)
  | .unary _ _ operand => (operator.head operand.drawn).node (by rfl)
  | .vname _ vname => vname.drawn.node (by rfl)

theorem Declaration.drawn : (d : Declaration) →
    Drawn (fun n => d.outline n) d.ids d.statistics d.forest
  | .binaryOperator _ _ left right result =>
    (((operator.tail left.drawn).tail right.drawn).tail result.drawn).node (by rfl)
  | .const _ _ value => (identifier.head value.drawn).node (by rfl)
  | .func _ _ parameters result body =>
    (((identifier.tail parameters.drawn).tail result.drawn).head body.drawn).node (by rfl)
  | .proc _ _ parameters body =>
    ((identifier.tail parameters.drawn).head body.drawn).node (by rfl)
  | .sequential _ first second => (first.drawn.append second.drawn).node (by rfl)
  | .type _ _ of | .var _ _ of => (identifier.tail of.drawn).node (by rfl)
  | .unaryOperator _ _ operand result =>
    ((operator.tail operand.drawn).tail result.drawn).node (by rfl)

theorem Vname.drawn : (v : Vname) → Drawn (fun d => v.outline d) v.ids v.statistics v.forest
  | .dot _ record _ => (record.drawn.tail identifier).node (by rfl)
  | .simple _ _ => identifier.node (by rfl)
  | .subscript _ array index => (array.drawn.append index.drawn).node (by rfl)

theorem Argument.drawn : (a : Argument) → Drawn (fun d => a.outline d) a.ids a.statistics a.forest
  | .const _ value => value.drawn.node (by rfl)
  | .func _ _ | .proc _ _ => identifier.node (by rfl)
  | .var _ vname => vname.drawn.node (by rfl)

theorem Arguments.drawn : (a : Arguments) →
    Drawn (fun d => a.outline d) a.ids a.statistics a.forest
  | .empty _ => leaf rfl
  | .single _ argument => argument.drawn.node (by rfl)
  | .multiple _ first rest => (first.drawn.append rest.drawn).node (by rfl)

theorem ArrayAggregate.drawn : (a : ArrayAggregate) →
    Drawn (fun d => a.outline d) a.ids a.statistics a.forest
  | .single _ element => element.drawn.node (by rfl)
  | .multiple _ first rest => (first.drawn.append rest.drawn).node (by rfl)

theorem RecordAggregate.drawn : (r : RecordAggregate) →
    Drawn (fun d => r.outline d) r.ids r.statistics r.forest
  | .single _ _ value => (identifier.head value.drawn).node (by rfl)
  | .multiple _ _ value rest =>
    ((identifier.head value.drawn).append rest.drawn).node (by rfl)

end

theorem Program.drawn (program : Program) :
    Drawn (fun depth => ⟨depth, program.mark, "Program", .phrase, none⟩ ::
      program.command.outline (depth + 1)) program.ids program.statistics
      (.cons program.mark.id (program.command.forest .nil)) :=
  program.command.drawn.node (by rfl)

/-! ## Reading a listing back -/

theorem splitLines_cons {line : List Char} (h : '\n' ∉ line) (rest : List Char) :
    splitLines (line ++ '\n' :: rest) = line :: splitLines rest := by
  induction line with
  | nil => simp [splitLines]
  | cons c line ih =>
    obtain ⟨hc, hline⟩ := not_or.1 (mt List.mem_cons.2 h)
    rw [List.cons_append, splitLines, if_neg (Ne.symm hc), ih hline]

theorem splitLines_flatMap {lines : List (List Char)} (h : ∀ line ∈ lines, '\n' ∉ line) :
    splitLines (lines.flatMap (· ++ ['\n'])) = lines ++ [[]] := by
  induction lines with
  | nil => rfl
  | cons line lines ih =>
    obtain ⟨hline, hlines⟩ := List.forall_mem_cons.1 h
    rw [List.flatMap_cons, List.append_assoc, List.singleton_append, splitLines_cons hline,
      ih hlines, List.cons_append]

/-- The line of a node about which nothing is known. -/
def Entry.shown (entry : Entry) : List Char :=
  List.replicate (2 * entry.depth) ' ' ++ (entry.describe .empty).toList

/-- The forest that a listing shows: the depth of a node is half the indentation of its line, and
nothing comes after the last line feed. -/
def Forest.ofListing (text : List Char) : Forest Unit :=
  .ofList ((splitLines text).dropLast.map fun line => ((line.takeWhile (· = ' ')).length / 2, ()))

namespace Entry

variable {entry : Entry}

theorem describe_eq_append (h : entry.Proper) : ∃ more,
    (entry.describe .empty).toList = entry.label.toList ++ more ∧ '\n' ∉ more := by
  rw [describe]
  cases hkind : entry.kind with
  | terminal => exact ⟨' ' :: (entry.name.getD "").toList, by simp, by simpa using h hkind⟩
  | typed | phrase => exact ⟨[], (List.append_nil _).symm, List.not_mem_nil⟩

theorem newline_not_mem_shown (h : entry.Proper) (hlabel : isLabel entry.label = true) :
    '\n' ∉ entry.shown := by
  obtain ⟨more, hmore, hline⟩ := describe_eq_append h
  have hletters := List.all_eq_true.1 (Bool.and_eq_true_iff.1 hlabel).1 '\n'
  rw [shown, hmore]
  simp only [List.mem_append, List.mem_replicate, not_or]
  exact ⟨by simp, fun h => absurd (hletters h) (by decide), hline⟩

/-- The depth of a node can be told from its line. -/
theorem indentation_shown (h : entry.Proper) (hlabel : isLabel entry.label = true) :
    (entry.shown.takeWhile (· = ' ')).length / 2 = entry.depth := by
  obtain ⟨more, hmore, -⟩ := describe_eq_append h
  simp only [isLabel, Bool.and_eq_true, decide_eq_true_eq] at hlabel
  obtain ⟨c, label, hc⟩ := List.exists_cons_of_ne_nil (mt String.toList_eq_nil_iff.1 hlabel.2)
  have hblank : c ≠ ' ' := by
    rintro rfl
    simp [hc, Scan.isLetter] at hlabel
  rw [shown, hmore, hc, List.takeWhile_append_of_pos (by simp), List.cons_append,
    List.takeWhile_cons_of_neg (by simpa using hblank)]
  simp

end Entry

/-- How a program is shown and counted. -/
structure Program.Listed (program : Program) : Prop where
  /-- There is a line for each node, indented by twice its depth. -/
  lines : splitLines (program.render .empty).toList = program.outline.map Entry.shown ++ [[]]
  /-- There are as many nodes as identities were handed out. -/
  count : program.outline.length = program.issued
  /-- Each identity that was handed out is that of one node. -/
  once : (program.outline.map Entry.id).Perm (List.range program.issued)
  /-- The nodes come in pre-order. -/
  preorder : program.outline.map (fun entry => (entry.depth, entry.id)) = program.forest.preorder 0
  /-- The shape of the tree can be told from the text. -/
  shape : Forest.ofListing (program.render .empty).toList = program.forest.map fun _ => ()
  /-- The literals that are counted are those among all nodes. -/
  statistics : program.statistics = Statistics.ofOutline program.outline

/-- The tree that is read, with or without errors, is shown with one line for each node in
pre-order, and its literals are counted wherever they are. -/
theorem parse_listed (source : Source) (failFast : Bool) :
    (parse source failFast).program.Listed := by
  generalize hprogram : (parse source failFast).program = program
  have hdrawn := program.drawn
  have hpreorder : program.outline.map (fun entry => (entry.depth, entry.id)) =
      program.forest.preorder 0 := ((hdrawn.preorder 0 .nil).trans (List.append_nil _)).symm
  have honce : (program.outline.map Entry.id).Perm (List.range program.issued) := by
    have hperm := program.forest.perm_preorder 0
    rw [← hpreorder, List.map_map, Program.forest, hdrawn.postorder, Forest.postorder,
      List.append_nil, ← hprogram] at hperm
    exact hprogram ▸ hperm.trans (parse_ids source failFast)
  have hproper := (hprogram ▸ parse_ranked source failFast : Ranked 0 program.outline).proper
  have hlabels : ∀ entry ∈ program.outline, isLabel entry.label = true := hdrawn.labels 0
  have hlines : splitLines (program.render .empty).toList =
      program.outline.map Entry.shown ++ [[]] := by
    rw [← splitLines_flatMap]
    · simp [Program.render, List.flatMap_map, Entry.line, Entry.shown, Text.spaces, Text.rule]
    · exact List.forall_mem_map.2 fun entry h =>
        Entry.newline_not_mem_shown (hproper entry h) (hlabels entry h)
  refine ⟨hlines, by simpa using honce.length_eq, honce, hpreorder, ?_, (hdrawn.statistics 0).symm⟩
  -- the depths and the shape of the forest are all that a listing shows
  rw [Forest.ofListing, hlines, List.dropLast_concat, List.map_map,
    ← Forest.ofList_preorder (program.forest.map _) 0, Forest.preorder_map, ← hpreorder,
    List.map_map]
  refine congrArg Forest.ofList (List.map_congr_left fun entry h => ?_)
  exact Prod.ext (Entry.indentation_shown (hproper entry h) (hlabels entry h)) rfl

end Triangle
