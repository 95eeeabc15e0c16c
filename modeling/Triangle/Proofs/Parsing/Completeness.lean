import Triangle.Proofs.Parsing.Steps
import Triangle.Proofs.Parsing.Unambiguity
import Triangle.Syntax.Parser.Grammar

/-!
# What is derived is read without an error

A parser that stands before the symbols of a derivation, and then symbols that cannot go on with the
phrase, passes the symbols of the derivation and reports no error.  The proof is by induction on the
derivation: the next symbol leads each production to the rule that the derivation uses.

Nothing has to be said about the tree here.  It is the tree of a derivation of the same symbols, and
there is only one.
-/

namespace Triangle

open Grammar (nextKind)
open Triangle.Symbol (sign word name)

namespace Parser

variable {α β : Type} {w u r : List Symbol} {k : Kind} {spelling : String}

/-! ## Parsers that accept symbols -/

/-- Where the symbols `w` are next and no error was reported, the parser reports none, and then the
symbols `r` are next. -/
def Accepts (x : Parser α) (w r : List Symbol) : Prop :=
  ∀ ⦃s a s'⦄, StandsBefore s w → Clean s → Gives x s a s' → StandsBefore s' r ∧ Clean s'

/-- Without a result nothing is claimed; that there is one depends on the depth alone. -/
theorem accepts_failure : Accepts (failure : Parser α) w r :=
  fun _ _ _ _ _ h => absurd h gives_failure

theorem accepts_pure {a : α} : Accepts (pure a) w w := by
  intro s b s' hstands hclean h
  obtain ⟨-, rfl⟩ := gives_pure.1 h
  exact ⟨hstands, hclean⟩

/-- The second parser accepts what the first one leaves. -/
theorem Accepts.bind {x : Parser α} {f : α → Parser β} (hx : Accepts x w u)
    (hf : ∀ a, Accepts (f a) u r) : Accepts (x >>= f) w r := by
  intro s b s' hstands hclean h
  obtain ⟨a, t, h₁, h₂⟩ := gives_bind.1 h
  obtain ⟨hstands, hclean⟩ := hx hstands hclean h₁
  exact hf a hstands hclean h₂

theorem accepts_here {f : Span → Parser β} (hf : ∀ span, Accepts (f span) w r) :
    Accepts (here >>= f) w r := by
  refine .bind (fun s span s' hstands hclean h => ?_) hf
  obtain ⟨-, rfl⟩ := gives_here.1 h
  exact ⟨hstands, hclean⟩

theorem accepts_get {f : ParserState → Parser β} (hf : ∀ state, Accepts (f state) w r) :
    Accepts (get >>= f) w r := by
  refine .bind (fun s state s' hstands hclean h => ?_) hf
  obtain ⟨-, rfl⟩ := gives_get.1 h
  exact ⟨hstands, hclean⟩

theorem accepts_fresh {f : NodeId → Parser β} (hf : ∀ id, Accepts (f id) w r) :
    Accepts (fresh >>= f) w r :=
  .bind (fun _ _ _ hstands hclean h => (hstands.fresh h).imp_right fun h => h hclean) hf

theorem accepts_node {start : Span} {f : Mark → Parser β} (hf : ∀ m, Accepts (f m) w r) :
    Accepts (node start >>= f) w r :=
  .bind (fun _ _ _ hstands hclean h =>
    (hstands.fresh (gives_node h)).imp_right fun h => h hclean) hf

/-- The node of a phrase that is finished. -/
theorem accepts_finish {start : Span} {f : Mark → β} :
    Accepts (node start >>= fun m => pure (f m)) w w :=
  accepts_node fun _ => accepts_pure

theorem accepts_emptyCommand : Accepts emptyCommand w w :=
  accepts_here fun _ => accepts_finish

theorem accepts_kind {f : Kind → Parser β} (hk : nextKind w = k) (hf : Accepts (f k) w r) :
    Accepts (kind >>= f) w r := by
  intro s b s' hstands hclean h
  obtain ⟨_, _, h₁, h₂⟩ := gives_bind.1 h
  obtain ⟨rfl, rfl⟩ := gives_kind.1 h₁
  rw [hstands.kind_eq, hk] at h₂
  exact hf hstands hclean h₂

theorem accepts_looksAt {f : Bool → Parser β} (hk : nextKind w = k)
    (hf : Accepts (f true) w r) : Accepts (looksAt k >>= f) w r := by
  simp only [looksAt, bind_assoc, pure_bind]
  exact accepts_kind hk (by simpa using hf)

theorem accepts_looksAt_ne {f : Bool → Parser β} (hk : nextKind w ≠ k)
    (hf : Accepts (f false) w r) : Accepts (looksAt k >>= f) w r := by
  simp only [looksAt, bind_assoc, pure_bind]
  exact accepts_kind rfl (by simpa [hk] using hf)

theorem accepts_advance {f : Token → Parser β} {symbol : Symbol}
    (hf : ∀ token, Accepts (f token) w r) : Accepts (advance >>= f) (symbol :: w) r :=
  .bind (fun _ _ _ hstands hclean h => hstands.advance hclean h) hf

theorem accepts_terminal {f : Terminal → Parser β} {symbol : Symbol}
    (hf : ∀ t, Accepts (f t) w r) : Accepts (terminal >>= f) (symbol :: w) r := by
  simp only [terminal, bind_assoc, pure_bind]
  exact accepts_advance fun _ => accepts_fresh fun _ => hf _

/-- A symbol that is expected and there is passed. -/
theorem accepts_expect {f : Unit → Parser β} (hf : Accepts (f ()) w r) :
    Accepts (expect k >>= f) (.of k spelling :: w) r := by
  rw [expect, bind_assoc]
  refine accepts_looksAt rfl ?_
  simp only [if_true, bind_assoc, pure_bind]
  exact accepts_advance fun _ => hf

theorem accepts_terminalOf {f : Terminal → Parser β} (hf : ∀ t, Accepts (f t) w r) :
    Accepts (terminalOf k >>= f) (.of k spelling :: w) r := by
  rw [terminalOf, bind_assoc]
  exact accepts_looksAt rfl (accepts_terminal hf)

end Parser

/-! ## Productions

What follows a phrase must not go on with it, as an operator would go on with an expression.  `Ends`
rules that out, and is handed down to the last part. -/

namespace Grammar

open Triangle.Parser (Accepts accepts_failure accepts_pure accepts_here accepts_get accepts_node
  accepts_finish accepts_emptyCommand accepts_kind accepts_looksAt accepts_looksAt_ne
  accepts_advance accepts_terminal accepts_expect accepts_terminalOf)

attribute [local simp] sign word name EndsSequence

mutual

theorem TypeDenoter.accepts (r : List Symbol) : (D : TypeDenoter) → (depth : Nat) →
    Accepts (Parser.typeDenoter depth) (D.yield ++ r) r
  | _, 0 => accepts_failure
  | .simple _, depth + 1 => by
    rw [Parser.typeDenoter]
    exact accepts_here fun _ => accepts_kind rfl (accepts_terminal fun _ => accepts_finish)
  | .array _ element, depth + 1 => by
    rw [Parser.typeDenoter]
    refine accepts_here fun _ => accepts_kind rfl (accepts_advance fun _ => ?_)
    refine accepts_terminalOf fun _ => accepts_expect ?_
    exact .bind (element.accepts r depth) fun _ => accepts_finish
  | .record fields, depth + 1 => by
    rw [Parser.typeDenoter, TypeDenoter.yield, List.cons_append, List.append_assoc]
    refine accepts_here fun _ => accepts_kind rfl (accepts_advance fun _ => ?_)
    exact .bind (fields.accepts depth (by simp)) fun _ => accepts_expect accepts_finish

theorem FieldDenoters.accepts {r : List Symbol} : (D : FieldDenoters) → (depth : Nat) →
    EndsSequence D r → Accepts (Parser.fieldDenoters depth) (D.yield ++ r) r
  | _, 0, _ => accepts_failure
  | .single _ of, depth + 1, hr => by
    refine accepts_here fun _ => accepts_terminalOf fun _ => accepts_expect ?_
    exact .bind (of.accepts r depth) fun _ => accepts_looksAt_ne hr accepts_finish
  | .multiple _ of rest, depth + 1, hr => by
    rw [Parser.fieldDenoters, FieldDenoters.yield, List.cons_append, List.cons_append,
      List.append_assoc]
    refine accepts_here fun _ => accepts_terminalOf fun _ => accepts_expect ?_
    refine .bind (of.accepts _ depth) fun _ => accepts_looksAt rfl (accepts_advance fun _ => ?_)
    exact .bind (rest.accepts depth hr) fun _ => accepts_finish

end

mutual

theorem Parameter.accepts (r : List Symbol) : (D : Parameter) → ∀ depth,
    Accepts (Parser.parameter depth) (D.yield ++ r) r
  | _, 0 => accepts_failure
  | .const _ of, depth + 1 => by
    refine accepts_here fun _ => accepts_kind rfl (accepts_terminal fun _ => accepts_expect ?_)
    exact .bind (of.accepts r depth) fun _ => accepts_finish
  | .var _ of, depth + 1 => by
    refine accepts_here fun _ => accepts_kind rfl (accepts_advance fun _ => ?_)
    refine accepts_terminalOf fun _ => accepts_expect ?_
    exact .bind (of.accepts r depth) fun _ => accepts_finish
  | .proc _ parameters, depth + 1 => by
    refine accepts_here fun _ => accepts_kind rfl (accepts_advance fun _ => ?_)
    exact accepts_terminalOf fun _ => .bind (parameters.accepts r depth) fun _ => accepts_finish
  | .func _ parameters result, depth + 1 => by
    rw [Parser.parameter, Parameter.yield, List.cons_append, List.cons_append, List.append_assoc]
    refine accepts_here fun _ => accepts_kind rfl (accepts_advance fun _ => ?_)
    refine accepts_terminalOf fun _ => .bind (parameters.accepts _ depth) fun _ => ?_
    exact accepts_expect (.bind (result.accepts r depth) fun _ => accepts_finish)

theorem Parameters.accepts (r : List Symbol) : (D : Parameters) → ∀ depth,
    Accepts (Parser.parameters depth) (D.yield ++ r) r
  | _, 0 => accepts_failure
  | .none, depth + 1 => by
    refine accepts_expect (accepts_here fun _ => accepts_looksAt rfl ?_)
    exact accepts_node fun _ => .bind accepts_pure fun _ => accepts_expect accepts_pure
  | .some proper, depth + 1 => by
    rw [Parser.parameters, Parameters.yield, List.cons_append, List.append_assoc]
    refine accepts_expect (accepts_here fun _ =>
      accepts_looksAt_ne (proper.nextKind_ne_closeParen _) ?_)
    exact .bind (proper.accepts depth (by simp)) fun _ => accepts_expect accepts_pure

theorem ProperParameters.accepts {r : List Symbol} : (D : ProperParameters) → (depth : Nat) →
    EndsSequence D r → Accepts (Parser.properParameters depth) (D.yield ++ r) r
  | _, 0, _ => accepts_failure
  | .single parameter, depth + 1, hr => by
    refine accepts_here fun _ => .bind (parameter.accepts r depth) fun _ => ?_
    exact accepts_looksAt_ne hr accepts_finish
  | .multiple first rest, depth + 1, hr => by
    rw [Parser.properParameters, ProperParameters.yield, List.append_assoc]
    refine accepts_here fun _ => .bind (first.accepts _ depth) fun _ => accepts_looksAt rfl ?_
    exact accepts_advance fun _ => .bind (rest.accepts depth hr) fun _ => accepts_finish

end

mutual

theorem Command.accepts {r : List Symbol} : (D : Command) → (depth : Nat) →
    D.Ends r → Accepts (Parser.command depth) (D.yield ++ r) r
  | _, 0, _ => accepts_failure
  | .single command, depth + 1, hr => by
    refine accepts_here fun _ => .bind (command.accepts depth ⟨hr.1.1, hr.2⟩) fun _ => ?_
    exact accepts_looksAt_ne hr.1.2 accepts_pure
  | .sequential first rest, depth + 1, hr => by
    rw [Parser.command, Command.yield, List.append_assoc]
    refine accepts_here fun _ => .bind (first.accepts depth ⟨rfl, hr.2.1⟩) fun _ => ?_
    refine accepts_looksAt rfl (accepts_advance fun _ => ?_)
    exact .bind (rest.accepts depth ⟨hr.1, hr.2.2⟩) fun _ => accepts_finish

theorem SingleCommand.accepts {r : List Symbol} : (D : SingleCommand) → (depth : Nat) →
    D.Ends r → Accepts (Parser.singleCommand depth) (D.yield ++ r) r
  | _, 0, _ => accepts_failure
  | .empty, depth + 1, hr => by
    rw [Parser.singleCommand, SingleCommand.yield, List.nil_append]
    obtain ⟨hend, hadm⟩ := hr
    generalize hk : nextKind r = k at hend hadm
    refine accepts_here fun _ => accepts_kind hk ?_
    rw [endsCommand.eq_def] at hend
    split at hend <;> first | exact accepts_emptyCommand | exact absurd rfl hadm | cases hend
  | .assign target value, depth + 1, hr => by
    obtain ⟨id, selectors⟩ := target
    rw [Parser.singleCommand, SingleCommand.yield, List.append_assoc]
    refine accepts_here fun _ => accepts_kind rfl (accepts_terminal fun _ => ?_)
    refine accepts_looksAt_ne (selectors.nextKind_ne_openParen rfl) ?_
    refine .bind (selectors.acceptsFrom _ depth ⟨rfl, hr.2.1⟩) fun _ => ?_
    refine accepts_looksAt_ne (by simp) (accepts_expect ?_)
    exact .bind (value.accepts depth ⟨endsExpression_of_endsCommand hr.1, hr.2.2⟩)
      fun _ => accepts_finish
  | .doubleAssign first second firstValue secondValue, depth + 1, hr => by
    obtain ⟨id, selectors⟩ := first
    obtain ⟨hend, hfirst, hsecond, hfirst', hsecond'⟩ := hr
    rw [Parser.singleCommand, SingleCommand.yield, List.append_assoc]
    refine accepts_here fun _ => accepts_kind rfl (accepts_terminal fun _ => ?_)
    refine accepts_looksAt_ne (selectors.nextKind_ne_openParen rfl) ?_
    refine .bind (selectors.acceptsFrom _ depth ⟨rfl, hfirst⟩) fun _ => ?_
    rw [List.cons_append, List.append_assoc, List.cons_append, List.append_assoc, List.cons_append]
    refine accepts_looksAt rfl (accepts_advance fun _ => ?_)
    refine .bind (second.accepts depth ⟨rfl, hsecond⟩) fun _ => accepts_expect ?_
    refine .bind (firstValue.accepts depth ⟨rfl, hfirst'⟩) fun _ => accepts_expect ?_
    exact .bind (secondValue.accepts depth ⟨endsExpression_of_endsCommand hend, hsecond'⟩)
      fun _ => accepts_finish
  | .call id arguments, depth + 1, hr => by
    refine accepts_here fun _ => accepts_kind rfl (accepts_terminal fun _ => ?_)
    refine accepts_looksAt (arguments.nextKind_eq r) ?_
    exact .bind (arguments.accepts r depth hr.2) fun _ => accepts_finish
  | .block body, depth + 1, hr => by
    rw [Parser.singleCommand, SingleCommand.yield, List.cons_append, List.append_assoc]
    refine accepts_here fun _ => accepts_kind rfl (accepts_advance fun _ => ?_)
    exact .bind (body.accepts depth ⟨⟨rfl, by simp⟩, hr.2⟩) fun _ => accepts_expect accepts_pure
  | .letIn declaration body, depth + 1, hr => by
    rw [Parser.singleCommand, SingleCommand.yield, List.cons_append, List.append_assoc]
    refine accepts_here fun _ => accepts_kind rfl (accepts_advance fun _ => ?_)
    refine .bind (declaration.accepts depth ⟨⟨rfl, by simp⟩, hr.2.1⟩) fun _ => accepts_expect ?_
    exact .bind (body.accepts depth ⟨hr.1, hr.2.2⟩) fun _ => accepts_finish
  | .ifElse condition first second, depth + 1, hr => by
    rw [Parser.singleCommand, SingleCommand.yield, List.cons_append, List.append_assoc,
      List.cons_append, List.append_assoc]
    refine accepts_here fun _ => accepts_kind rfl (accepts_advance fun _ => ?_)
    refine .bind (condition.accepts depth ⟨rfl, hr.2.1⟩) fun _ => accepts_expect ?_
    refine .bind (first.accepts depth ⟨rfl, hr.2.2.1⟩) fun _ => accepts_expect ?_
    exact .bind (second.accepts depth ⟨hr.1, hr.2.2.2⟩) fun _ => accepts_finish
  | .whileDo condition body, depth + 1, hr => by
    rw [Parser.singleCommand, SingleCommand.yield, List.cons_append, List.append_assoc]
    refine accepts_here fun _ => accepts_kind rfl (accepts_advance fun _ => ?_)
    refine .bind (condition.accepts depth ⟨rfl, hr.2.1⟩) fun _ => accepts_kind rfl ?_
    refine accepts_advance fun _ => ?_
    exact .bind (body.accepts depth ⟨hr.1, hr.2.2⟩) fun _ => accepts_finish
  | .whileBraces condition body, depth + 1, hr => by
    rw [Parser.singleCommand, SingleCommand.yield, List.cons_append, List.append_assoc,
      List.cons_append, List.append_assoc]
    refine accepts_here fun _ => accepts_kind rfl (accepts_advance fun _ => ?_)
    refine .bind (condition.accepts depth ⟨rfl, hr.2.1⟩) fun _ => accepts_kind rfl ?_
    refine accepts_advance fun _ => .bind accepts_emptyCommand fun _ => ?_
    exact .bind (body.accepts depth ⟨⟨rfl, by simp⟩, hr.2.2⟩) fun _ => accepts_expect accepts_finish
  | .loop before condition body, depth + 1, hr => by
    rw [Parser.singleCommand, SingleCommand.yield, List.cons_append, List.append_assoc,
      List.cons_append, List.append_assoc]
    refine accepts_here fun _ => accepts_kind rfl (accepts_advance fun _ => ?_)
    refine .bind (before.accepts depth ⟨rfl, hr.2.1⟩) fun _ => accepts_expect ?_
    refine .bind (condition.accepts depth ⟨rfl, hr.2.2.1⟩) fun _ => accepts_expect ?_
    exact .bind (body.accepts depth ⟨hr.1, hr.2.2.2⟩) fun _ => accepts_finish

theorem Expression.accepts {r : List Symbol} : (D : Expression) → (depth : Nat) →
    D.Ends r → Accepts (Parser.expression depth) (D.yield ++ r) r
  | _, 0, _ => accepts_failure
  | .letIn declaration body, depth + 1, hr => by
    rw [Parser.expression, Expression.yield, List.cons_append, List.append_assoc]
    refine accepts_here fun _ => accepts_kind rfl (accepts_advance fun _ => ?_)
    refine .bind (declaration.accepts depth ⟨⟨rfl, by simp⟩, hr.2.1⟩) fun _ => accepts_expect ?_
    exact .bind (body.accepts depth ⟨hr.1, hr.2.2⟩) fun _ => accepts_finish
  | .ifElse condition first second, depth + 1, hr => by
    rw [Parser.expression, Expression.yield, List.cons_append, List.append_assoc,
      List.cons_append, List.append_assoc]
    refine accepts_here fun _ => accepts_kind rfl (accepts_advance fun _ => ?_)
    refine .bind (condition.accepts depth ⟨rfl, hr.2.1⟩) fun _ => accepts_expect ?_
    refine .bind (first.accepts depth ⟨rfl, hr.2.2.1⟩) fun _ => accepts_expect ?_
    exact .bind (second.accepts depth ⟨hr.1, hr.2.2.2⟩) fun _ => accepts_finish
  | .secondary first operations, depth + 1, hr => by
    rw [Parser.expression, Expression.yield, List.append_assoc]
    refine accepts_here fun _ => accepts_kind rfl ?_
    have hstart := first.nextKind_mem (operations.yield ++ r)
    split
    · rename_i hk
      simp [hk] at hstart
    · rename_i hk
      simp [hk] at hstart
    · refine .bind (first.accepts depth ⟨operations.endsPrimary_nextKind hr.1, hr.2.1⟩) fun _ => ?_
      exact operations.accepts depth _ _ ⟨hr.1, hr.2.2⟩

theorem Operations.accepts {r : List Symbol} : (D : Operations) → (depth : Nat) → ∀ start left,
    D.Ends r → Accepts (Parser.operations depth start left) (D.yield ++ r) r
  | _, 0, _, _, _ => accepts_failure
  | .none, depth + 1, _, _, hr => by
    rw [Parser.operations]
    exact accepts_looksAt_ne (ne_operator_of_endsExpression hr.1) accepts_pure
  | .some operator operand rest, depth + 1, _, _, hr => by
    rw [Parser.operations, Operations.yield, List.cons_append, List.append_assoc]
    refine accepts_looksAt rfl (accepts_terminal fun _ => ?_)
    refine .bind (operand.accepts depth ⟨rest.endsPrimary_nextKind hr.1, hr.2.1⟩) fun _ => ?_
    exact accepts_node fun _ => rest.accepts depth _ _ ⟨hr.1, hr.2.2⟩

theorem Primary.accepts {r : List Symbol} : (D : Primary) → (depth : Nat) →
    D.Ends r → Accepts (Parser.primaryExpression depth) (D.yield ++ r) r
  | _, 0, _ => accepts_failure
  | .integer _, depth + 1, _ | .character _, depth + 1, _ => by
    rw [Parser.primaryExpression]
    exact accepts_here fun _ => accepts_kind rfl (accepts_terminal fun _ => accepts_finish)
  | .vname (.mk _ selectors), depth + 1, hr => by
    rw [Parser.primaryExpression]
    refine accepts_here fun _ => accepts_kind rfl (accepts_terminal fun _ => ?_)
    refine accepts_looksAt_ne (selectors.nextKind_ne_openParen hr.1) ?_
    exact .bind (selectors.acceptsFrom _ depth hr) fun _ => accepts_finish
  | .call _ arguments, depth + 1, hr => by
    rw [Parser.primaryExpression]
    refine accepts_here fun _ => accepts_kind rfl (accepts_terminal fun _ => ?_)
    refine accepts_looksAt (arguments.nextKind_eq r) ?_
    exact .bind (arguments.accepts r depth hr.2) fun _ => accepts_finish
  | .unary _ operand, depth + 1, hr => by
    rw [Parser.primaryExpression]
    refine accepts_here fun _ => accepts_kind rfl (accepts_terminal fun _ => ?_)
    exact .bind (operand.accepts depth hr) fun _ => accepts_finish
  | .parens body, depth + 1, hr => by
    rw [Parser.primaryExpression, Primary.yield, List.cons_append, List.append_assoc]
    refine accepts_here fun _ => accepts_kind rfl (accepts_advance fun _ => ?_)
    exact .bind (body.accepts depth ⟨rfl, hr.2⟩) fun _ => accepts_expect accepts_pure
  | .record fields, depth + 1, hr => by
    rw [Parser.primaryExpression, Primary.yield, List.cons_append, List.append_assoc]
    refine accepts_here fun _ => accepts_kind rfl (accepts_advance fun _ => ?_)
    exact .bind (fields.accepts depth ⟨⟨rfl, by simp⟩, hr.2⟩) fun _ => accepts_expect accepts_finish
  | .array elements, depth + 1, hr => by
    rw [Parser.primaryExpression, Primary.yield, List.cons_append, List.append_assoc]
    refine accepts_here fun _ => accepts_kind rfl (accepts_advance fun _ => ?_)
    exact .bind (elements.accepts depth ⟨⟨rfl, by simp⟩, hr.2⟩)
      fun _ => accepts_expect accepts_finish

theorem RecordAggregate.accepts {r : List Symbol} : (D : RecordAggregate) → (depth : Nat) →
    D.Ends r → Accepts (Parser.recordAggregate depth) (D.yield ++ r) r
  | _, 0, _ => accepts_failure
  | .single _ value, depth + 1, hr => by
    refine accepts_here fun _ => accepts_terminalOf fun _ => accepts_expect ?_
    refine .bind (value.accepts depth ⟨hr.1.1, hr.2⟩) fun _ => ?_
    exact accepts_looksAt_ne hr.1.2 accepts_finish
  | .multiple _ value rest, depth + 1, hr => by
    rw [Parser.recordAggregate, RecordAggregate.yield, List.cons_append, List.cons_append,
      List.append_assoc]
    refine accepts_here fun _ => accepts_terminalOf fun _ => accepts_expect ?_
    refine .bind (value.accepts depth ⟨rfl, hr.2.1⟩) fun _ => accepts_looksAt rfl ?_
    refine accepts_advance fun _ => ?_
    exact .bind (rest.accepts depth ⟨hr.1, hr.2.2⟩) fun _ => accepts_finish

theorem ArrayAggregate.accepts {r : List Symbol} : (D : ArrayAggregate) → (depth : Nat) →
    D.Ends r → Accepts (Parser.arrayAggregate depth) (D.yield ++ r) r
  | _, 0, _ => accepts_failure
  | .single element, depth + 1, hr => by
    refine accepts_here fun _ => .bind (element.accepts depth ⟨hr.1.1, hr.2⟩) fun _ => ?_
    exact accepts_looksAt_ne hr.1.2 accepts_finish
  | .multiple first rest, depth + 1, hr => by
    rw [Parser.arrayAggregate, ArrayAggregate.yield, List.append_assoc]
    refine accepts_here fun _ => .bind (first.accepts depth ⟨rfl, hr.2.1⟩) fun _ => ?_
    refine accepts_looksAt rfl (accepts_advance fun _ => ?_)
    exact .bind (rest.accepts depth ⟨hr.1, hr.2.2⟩) fun _ => accepts_finish

theorem Vname.accepts {r : List Symbol} : (D : Vname) → (depth : Nat) →
    D.Ends r → Accepts (Parser.vname depth) (D.yield ++ r) r
  | _, 0, _ => accepts_failure
  | .mk _ selectors, depth + 1, hr => by
    rw [Parser.vname]
    exact accepts_terminalOf fun _ => selectors.acceptsFrom _ depth hr

/-- The selectors are read after the identifier of a V-name. -/
theorem Selectors.acceptsFrom {r : List Symbol} (name : Terminal) :
    (D : Selectors) → (depth : Nat) →
    D.Ends r → Accepts (Parser.vnameFrom depth name) (D.yield ++ r) r
  | _, 0, _ => accepts_failure
  | D, depth + 1, hr => by
    rw [Parser.vnameFrom]
    exact accepts_node fun _ => Selectors.accepts D depth _ _ hr

theorem Selectors.accepts {r : List Symbol} : (D : Selectors) → (depth : Nat) → ∀ start whole,
    D.Ends r → Accepts (Parser.selectors depth start whole) (D.yield ++ r) r
  | _, 0, _, _, _ => accepts_failure
  | .none, depth + 1, _, _, hr => by
    refine accepts_kind rfl ?_
    have hend := hr.1
    split
    · rename_i hk
      cases hk ▸ hend
    · rename_i hk
      cases hk ▸ hend
    · exact accepts_pure
  | .dot _ rest, depth + 1, _, _, hr => by
    refine accepts_kind rfl (accepts_advance fun _ => accepts_terminalOf fun _ => ?_)
    exact accepts_node fun _ => rest.accepts depth _ _ hr
  | .subscript index rest, depth + 1, _, _, hr => by
    rw [Parser.selectors, Selectors.yield, List.cons_append, List.append_assoc]
    refine accepts_kind rfl (accepts_advance fun _ => ?_)
    refine .bind (index.accepts depth ⟨rfl, hr.2.1⟩) fun _ => accepts_expect ?_
    exact accepts_node fun _ => rest.accepts depth _ _ ⟨hr.1, hr.2.2⟩

theorem Arguments.accepts (r : List Symbol) : (D : Arguments) → (depth : Nat) →
    D.Admissible → Accepts (Parser.arguments depth) (D.yield ++ r) r
  | _, 0, _ => accepts_failure
  | .none, depth + 1, _ => by
    refine accepts_expect (accepts_here fun _ => accepts_looksAt rfl ?_)
    exact accepts_node fun _ => .bind accepts_pure fun _ => accepts_expect accepts_pure
  | .some proper, depth + 1, hadm => by
    rw [Parser.arguments, Arguments.yield, List.cons_append, List.append_assoc]
    refine accepts_expect (accepts_here fun _ =>
      accepts_looksAt_ne (proper.nextKind_ne_closeParen _) ?_)
    exact .bind (proper.accepts depth ⟨⟨rfl, by simp⟩, hadm⟩) fun _ => accepts_expect accepts_pure

theorem ProperArguments.accepts {r : List Symbol} : (D : ProperArguments) → (depth : Nat) →
    D.Ends r → Accepts (Parser.properArguments depth) (D.yield ++ r) r
  | _, 0, _ => accepts_failure
  | .single argument, depth + 1, hr => by
    refine accepts_here fun _ => .bind (argument.accepts depth ⟨hr.1.1, hr.2⟩) fun _ => ?_
    exact accepts_looksAt_ne hr.1.2 accepts_finish
  | .multiple first rest, depth + 1, hr => by
    rw [Parser.properArguments, ProperArguments.yield, List.append_assoc]
    refine accepts_here fun _ => .bind (first.accepts depth ⟨rfl, hr.2.1⟩) fun _ => ?_
    refine accepts_looksAt rfl (accepts_advance fun _ => ?_)
    exact .bind (rest.accepts depth ⟨hr.1, hr.2.2⟩) fun _ => accepts_finish

theorem Argument.accepts {r : List Symbol} : (D : Argument) → (depth : Nat) →
    D.Ends r → Accepts (Parser.argument depth) (D.yield ++ r) r
  | _, 0, _ => accepts_failure
  | .const value, depth + 1, hr => by
    have hstart : _ ∈ _ := value.nextKind_mem r
    rw [Argument.yield]
    refine accepts_here fun _ => accepts_kind rfl ?_
    split
    case h_4 => exact .bind (value.accepts depth hr) fun _ => accepts_finish
    all_goals
      rename_i hk
      simp [hk] at hstart
  | .var vname, depth + 1, hr => by
    refine accepts_here fun _ => accepts_kind rfl (accepts_advance fun _ => ?_)
    exact .bind (vname.accepts depth ⟨endsPrimary_of_endsExpression hr.1, hr.2⟩)
      fun _ => accepts_finish
  | .proc _, depth + 1, _ | .func _, depth + 1, _ => by
    refine accepts_here fun _ => accepts_kind rfl (accepts_advance fun _ => ?_)
    exact accepts_terminalOf fun _ => accepts_finish

theorem Declaration.accepts {r : List Symbol} : (D : Declaration) → (depth : Nat) →
    D.Ends r → Accepts (Parser.declaration depth) (D.yield ++ r) r
  | _, 0, _ => accepts_failure
  | .single declaration, depth + 1, hr => by
    refine accepts_here fun _ => .bind (declaration.accepts depth ⟨hr.1.1, hr.2⟩) fun _ => ?_
    exact accepts_looksAt_ne hr.1.2 accepts_pure
  | .sequential first rest, depth + 1, hr => by
    rw [Parser.declaration, Declaration.yield, List.append_assoc]
    refine accepts_here fun _ => .bind (first.accepts depth ⟨rfl, hr.2.1⟩) fun _ => ?_
    refine accepts_looksAt rfl (accepts_advance fun _ => ?_)
    exact .bind (rest.accepts depth ⟨hr.1, hr.2.2⟩) fun _ => accepts_finish

theorem SingleDeclaration.accepts {r : List Symbol} : (D : SingleDeclaration) → (depth : Nat) →
    D.Ends r → Accepts (Parser.singleDeclaration depth) (D.yield ++ r) r
  | _, 0, _ => accepts_failure
  | .const _ value, depth + 1, hr => by
    refine accepts_here fun _ => accepts_kind rfl (accepts_advance fun _ => ?_)
    refine accepts_terminalOf fun _ => accepts_expect ?_
    exact .bind (value.accepts depth ⟨endsExpression_of_endsCommand hr.1, hr.2⟩)
      fun _ => accepts_finish
  | .var _ of, depth + 1, _ | .type _ of, depth + 1, _ => by
    refine accepts_here fun _ => accepts_kind rfl (accepts_advance fun _ => ?_)
    refine accepts_terminalOf fun _ => accepts_expect ?_
    exact .bind (of.accepts r depth) fun _ => accepts_finish
  | .proc _ parameters body, depth + 1, hr => by
    rw [Parser.singleDeclaration, SingleDeclaration.yield, List.cons_append, List.cons_append,
      List.append_assoc]
    refine accepts_here fun _ => accepts_kind rfl (accepts_advance fun _ => ?_)
    refine accepts_terminalOf fun _ => .bind (parameters.accepts _ depth) fun _ => ?_
    exact accepts_expect (.bind (body.accepts depth hr) fun _ => accepts_finish)
  | .func _ parameters result body, depth + 1, hr => by
    rw [Parser.singleDeclaration, SingleDeclaration.yield, List.cons_append, List.cons_append,
      List.append_assoc, List.cons_append, List.append_assoc]
    refine accepts_here fun _ => accepts_kind rfl (accepts_advance fun _ => ?_)
    refine accepts_terminalOf fun _ => .bind (parameters.accepts _ depth) fun _ => ?_
    refine accepts_expect (.bind (result.accepts _ depth) fun _ => accepts_expect ?_)
    exact .bind (body.accepts depth ⟨endsExpression_of_endsCommand hr.1, hr.2⟩)
      fun _ => accepts_finish

end

/-- A program is read up to the end of the text. -/
theorem Program.accepts (D : Program) (hadm : D.Admissible) (depth : Nat) :
    Accepts (Parser.program depth) D.command.yield [] := by
  have hcommand := D.command.accepts (r := []) depth ⟨⟨rfl, by simp [nextKind]⟩, hadm⟩
  rw [List.append_nil] at hcommand
  refine accepts_here fun _ => .bind hcommand fun _ => accepts_looksAt rfl ?_
  exact accepts_node fun _ => accepts_get fun _ => accepts_pure

end Grammar

end Triangle
