import Triangle.Proofs.Parsing.Steps
import Triangle.Syntax.Parser.Grammar

/-!
# What holds of all parsers

Every production is put together from a few basic parsers by doing one after the other.  So a
property of parsers that the basic ones have, and that is kept when one parser follows another,
holds of all productions.  `Parser.Closed` says this of a property.

A production calls others, and recursion ends because tokens are passed.  Few calls are made before
a token has been passed (`Production.first`); in all others there are fewer tokens left.  So
`Closed.succ` asks for the property of all productions where there are fewer tokens, and of those
that are called first where there are as many.  Read for the property of being put together in this
way, it says which calls a production makes at all (`works`).
-/

namespace Triangle.Parser

variable {k : Kind}

/-- The productions. -/
inductive Production where
  | typeDenoter | fieldDenoters | parameters | properParameters | parameter | command
  | singleCommand | expression | operations | primaryExpression | recordAggregate
  | arrayAggregate | vname | vnameFrom | selectors | arguments | properArguments | argument
  | declaration | singleDeclaration

namespace Production

/-- The productions that a production may call before it has passed a token. -/
def first : Production → List Production
  | fieldDenoters => [typeDenoter]
  | parameters => [properParameters]
  | properParameters => [parameter]
  | command => [singleCommand]
  | expression => [primaryExpression, operations]
  | recordAggregate | arrayAggregate | argument => [expression]
  | vname => [vnameFrom]
  | vnameFrom => [selectors]
  | arguments => [properArguments]
  | properArguments => [argument]
  | declaration => [singleDeclaration]
  | _ => []

/-- A property holds of a production at some depth. -/
def Has (P : ∀ {α : Type}, Parser α → Prop) (depth : Nat) : Production → Prop
  | typeDenoter => P (Parser.typeDenoter depth)
  | fieldDenoters => P (Parser.fieldDenoters depth)
  | parameters => P (Parser.parameters depth)
  | properParameters => P (Parser.properParameters depth)
  | parameter => P (Parser.parameter depth)
  | command => P (Parser.command depth)
  | singleCommand => P (Parser.singleCommand depth)
  | expression => P (Parser.expression depth)
  | operations => ∀ start left, P (Parser.operations depth start left)
  | primaryExpression => P (Parser.primaryExpression depth)
  | recordAggregate => P (Parser.recordAggregate depth)
  | arrayAggregate => P (Parser.arrayAggregate depth)
  | vname => P (Parser.vname depth)
  | vnameFrom => ∀ name, P (Parser.vnameFrom depth name)
  | selectors => ∀ start whole, P (Parser.selectors depth start whole)
  | arguments => P (Parser.arguments depth)
  | properArguments => P (Parser.properArguments depth)
  | argument => P (Parser.argument depth)
  | declaration => P (Parser.declaration depth)
  | singleDeclaration => P (Parser.singleDeclaration depth)

end Production

/-- A property of parsers at states.  The basic parsers have it, where the end of the text is never
passed, and a sequence of two parsers has it if the second one has it wherever the first one can go
from a state at the same token. -/
structure Closed (P : ∀ {α : Type}, ParserState → Parser α → Prop) : Prop where
  pure : ∀ {α : Type} {s : ParserState} (a : α), P s (pure a)
  bind : ∀ {α β : Type} {s : ParserState} {x : Parser α} {f : α → Parser β}, P s x →
    (∀ s' a t, s'.current = s.current → s'.left = s.left → Gives x s' a t → P t (f a)) →
    P s (x >>= f)
  kind : ∀ {s : ParserState}, P s kind
  here : ∀ {s : ParserState}, P s here
  advance : ∀ {s : ParserState}, s.current.kind ≠ .endOfText → P s advance
  complain : ∀ {s : ParserState} (expected : Expectation), P s (complain expected)
  fresh : ∀ {s : ParserState}, P s fresh
  node : ∀ {s : ParserState} (start : Span), P s (node start)

/-- The property holds wherever the current token is of certain kinds and at most `n` tokens are
left, and then no more tokens are left. -/
def Within (P : ∀ {α : Type}, ParserState → Parser α → Prop) (C : Kind → Prop) (n : Nat)
    {α : Type} (x : Parser α) : Prop :=
  ∀ s : ParserState, C s.current.kind → s.left ≤ n →
    P s x ∧ ∀ a s', Gives x s a s' → s'.left ≤ s.left

/-- The property holds wherever at most `n` tokens are left. -/
abbrev Throughout (P : ∀ {α : Type}, ParserState → Parser α → Prop) (n : Nat) {α : Type}
    (x : Parser α) : Prop :=
  Within @P (fun _ => True) n x

namespace Closed

variable {P : ∀ {α : Type}, ParserState → Parser α → Prop} (h : Closed @P) {n : Nat}
  {C : Kind → Prop} {α β : Type} {x : Parser α} {f : α → Parser β}

include h

/-! ## Parsers for tokens -/

theorem ret (a : α) : Within @P C n (Pure.pure a) := by
  refine fun s _ _ => ⟨h.pure a, fun b s' hrun => ?_⟩
  obtain ⟨-, rfl⟩ := gives_pure.1 hrun
  exact Nat.le_refl _

theorem seq (hx : Within @P C n x) (hf : ∀ a, Throughout @P n (f a)) :
    Within @P C n (x >>= f) := by
  intro s hs hn
  refine ⟨h.bind (hx s hs hn).1 fun s' a t hcurrent hleft hrun => ?_, fun b s' hrun => ?_⟩
  · have hle := (hx s' (hcurrent ▸ hs) (hleft ▸ hn)).2 a t hrun
    exact (hf a t trivial (by omega)).1
  · obtain ⟨a, t, h₁, h₂⟩ := gives_bind.1 hrun
    have hle := (hx s hs hn).2 a t h₁
    exact Nat.le_trans ((hf a t trivial (by omega)).2 b s' h₂) hle

omit h in
theorem imp {D : Kind → Prop} (hx : Within @P C n x) (hD : ∀ k, D k → C k) : Within @P D n x :=
  fun s hs => hx s (hD _ hs)

theorem call (hx : Throughout @P n x) (hf : ∀ a, Throughout @P n (f a)) :
    Within @P C n (x >>= f) :=
  imp (h.seq hx hf) fun _ _ => trivial

/-- A parser that leaves the state alone. -/
theorem read (hP : ∀ s, P s x) (v : Token → α)
    (hx : ∀ s a s', Gives x s a s' → v s.current = a ∧ s = s')
    (hf : ∀ a, Within @P (fun k => C k ∧ ∃ token : Token, token.kind = k ∧ v token = a) n (f a)) :
    Within @P C n (x >>= f) := by
  intro s hs hn
  refine ⟨h.bind (hP s) fun s' a t hcurrent hleft hrun => ?_, fun b s' hrun => ?_⟩
  · obtain ⟨rfl, rfl⟩ := hx _ _ _ hrun
    exact (hf _ s' ⟨hcurrent ▸ hs, _, rfl, rfl⟩ (hleft ▸ hn)).1
  · obtain ⟨a, t, h₁, h₂⟩ := gives_bind.1 hrun
    obtain ⟨rfl, rfl⟩ := hx _ _ _ h₁
    exact (hf _ s ⟨hs, _, rfl, rfl⟩ hn).2 b s' h₂

theorem here_seq {f : Span → Parser β} (hf : ∀ span, Within @P C n (f span)) :
    Within @P C n (Parser.here >>= f) :=
  h.read (fun _ => h.here) Token.span (fun _ _ _ => gives_here.1)
    fun span => imp (hf span) fun _ h => h.1

/-- A parser that branches on the current kind knows it in each branch. -/
theorem kind_seq {f : Kind → Parser β} (hf : ∀ k, Within @P (· = k) n (f k)) :
    Within @P C n (Parser.kind >>= f) := by
  refine h.read (fun _ => h.kind) Token.kind (fun _ _ _ => gives_kind.1) fun k => imp (hf k) ?_
  rintro _ ⟨-, token, rfl, rfl⟩
  rfl

theorem looksAt_seq {f : Bool → Parser β} (hyes : Within @P (· = k) n (f true))
    (hno : Throughout @P n (f false)) : Within @P C n (looksAt k >>= f) := by
  rw [looksAt, bind_assoc]
  refine h.kind_seq fun k' => ?_
  rw [pure_bind]
  by_cases hk : k' = k
  · rw [decide_eq_true hk, hk]
    exact hyes
  · rw [decide_eq_false hk]
    exact imp hno fun _ _ => trivial

/-- Where a token is passed, fewer are left for what follows. -/
theorem pass {f : Token → Parser β} (hk : decide (k = .endOfText) = false)
    (hf : ∀ m, n = m + 1 → ∀ token, Throughout @P m (f token)) :
    Within @P (· = k) n (Parser.advance >>= f) := by
  intro s hs hn
  have hne : s.current.kind ≠ .endOfText := hs ▸ of_decide_eq_false hk
  have hless : ∀ {s' token t}, s'.current = s.current → s'.left = s.left →
      Gives Parser.advance s' token t → ∃ m, n = m + 1 ∧ t.left ≤ m ∧ t.left < s.left := by
    intro s' token t hcurrent hleft hrun
    have := left_advance hrun (hcurrent ▸ hne)
    exact ⟨n - 1, by omega, by omega, by omega⟩
  refine ⟨h.bind (h.advance hne) fun s' token t hcurrent hleft hrun => ?_, fun b s' hrun => ?_⟩
  · obtain ⟨m, hm, hle, -⟩ := hless hcurrent hleft hrun
    exact (hf m hm token t trivial hle).1
  · obtain ⟨token, t, h₁, h₂⟩ := gives_bind.1 hrun
    obtain ⟨m, hm, hle, hlt⟩ := hless rfl rfl h₁
    have := (hf m hm token t trivial hle).2 b s' h₂
    omega

/-- A token is passed, of which nothing more is made. -/
theorem skip {f : Token → Parser β} (hk : decide (k = .endOfText) = false)
    (hf : ∀ token, Throughout @P n (f token)) : Within @P (· = k) n (Parser.advance >>= f) :=
  h.pass hk fun _ _ token s hs hn => hf token s hs (by omega)

omit h in
/-- A basic parser that passes no token. -/
theorem basic (hP : ∀ s, P s x) (hleft : ∀ {s a s'}, Gives x s a s' → s'.left ≤ s.left) :
    Within @P C n x :=
  fun s _ _ => ⟨hP s, fun _ _ => hleft⟩

theorem complains (expected : Expectation) : Within @P C n (Parser.complain expected) :=
  basic (fun _ => h.complain expected) fun hrun => (moves_complain hrun).1.left

theorem issues : Within @P C n Parser.fresh :=
  basic (fun _ => h.fresh) fun hrun => (moves_fresh hrun).2.left

theorem marks (start : Span) : Within @P C n (Parser.node start) :=
  basic (fun _ => h.node start) fun hrun => (moves_node hrun).2.left

/-- The node of a phrase that is finished. -/
theorem finish {start : Span} {f : Mark → α} :
    Within @P C n (do return f (← Parser.node start)) :=
  h.seq (h.marks start) fun _ => h.ret _

/-- After a token is passed, fewer are left, and any production may be called. -/
theorem terminal_seq {f : Terminal → Parser β} (hk : decide (k = .endOfText) = false)
    (hf : ∀ m, n = m + 1 → ∀ t, Throughout @P m (f t)) : Within @P (· = k) n (terminal >>= f) := by
  rw [terminal, bind_assoc]
  refine h.pass hk fun m hm token => ?_
  rw [bind_assoc]
  refine h.seq h.issues fun id => ?_
  rw [pure_bind]
  exact hf m hm _

theorem expect_seq {f : Unit → Parser β} (hk : decide (k = .endOfText) = false)
    (hf : Throughout @P n (f ())) : Within @P C n (expect k >>= f) := by
  rw [expect, bind_assoc]
  refine h.looksAt_seq ?_ (h.seq (h.complains _) fun _ => hf)
  simp only [if_true, bind_assoc, pure_bind]
  exact h.skip hk fun _ => hf

theorem missing_seq {f : Terminal → Parser β} (hf : ∀ t, Throughout @P n (f t)) :
    Within @P C n (missing >>= f) := by
  rw [missing, bind_assoc]
  refine h.here_seq fun span => ?_
  rw [bind_assoc]
  refine h.seq h.issues fun id => ?_
  rw [pure_bind]
  exact hf _

theorem terminalOf_seq {f : Terminal → Parser β} (hk : decide (k = .endOfText) = false)
    (hf : ∀ t, Throughout @P n (f t)) : Within @P C n (terminalOf k >>= f) := by
  rw [terminalOf, bind_assoc]
  refine h.looksAt_seq (h.terminal_seq hk fun m hm t s hs hn => hf t s hs (by omega)) ?_
  rw [if_neg (by decide), bind_assoc]
  exact h.seq (h.complains _) fun _ => h.missing_seq hf

theorem recover_seq {expected : Expectation} {f : Unit → Parser β} (hf : Throughout @P n (f ())) :
    Within @P C n (recover expected >>= f) := by
  rw [recover, bind_assoc]
  refine h.seq (h.complains _) fun _ => ?_
  rw [bind_assoc]
  refine h.kind_seq fun k => ?_
  cases hk : isSynchronizing k with
  | true =>
    rw [if_pos rfl, pure_bind]
    exact imp hf fun _ _ => trivial
  | false =>
    have hne : k ≠ .endOfText := by
      rintro rfl
      cases hk
    rw [if_neg (by decide), bind_assoc]
    refine h.skip (decide_eq_false hne) fun _ => ?_
    rw [pure_bind]
    exact hf

theorem erroneousType : Within @P C n erroneousType := h.here_seq fun _ => h.finish

theorem emptyCommand : Within @P C n emptyCommand := h.here_seq fun _ => h.finish

/-! ## Productions -/

variable {depth : Nat} (below : ∀ m, n = m + 1 → ∀ q : Production, q.Has (Throughout @P m) depth)

include below

theorem succ_typeDenoter : Throughout @P n (Parser.typeDenoter (depth + 1)) := by
  refine h.here_seq fun start => h.kind_seq fun kind => ?_
  split
  · exact h.terminal_seq rfl fun m hm _ => h.finish
  · exact h.pass rfl fun m hm _ => h.terminalOf_seq rfl fun _ => h.expect_seq rfl <|
      h.call (below m hm .typeDenoter) fun _ => h.finish
  · exact h.pass rfl fun m hm _ => h.call (below m hm .fieldDenoters) fun _ =>
      h.expect_seq rfl h.finish
  · exact h.recover_seq h.erroneousType

theorem succ_fieldDenoters (htype : Throughout @P n (Parser.typeDenoter depth)) :
    Throughout @P n (Parser.fieldDenoters (depth + 1)) := by
  refine h.here_seq fun start => h.terminalOf_seq rfl fun _ => h.expect_seq rfl <|
    h.call htype fun _ => h.looksAt_seq ?_ h.finish
  exact h.pass rfl fun m hm _ => h.call (below m hm .fieldDenoters) fun _ => h.finish

omit below in
theorem succ_parameters (hproper : Throughout @P n (Parser.properParameters depth)) :
    Throughout @P n (Parser.parameters (depth + 1)) := by
  refine h.expect_seq rfl <| h.here_seq fun start => h.looksAt_seq ?_ ?_
  · exact h.seq (h.marks _) fun _ => h.seq (h.ret _) fun _ => h.expect_seq rfl (h.ret _)
  · exact h.call hproper fun _ => h.expect_seq rfl (h.ret _)

theorem succ_properParameters (hparameter : Throughout @P n (Parser.parameter depth)) :
    Throughout @P n (Parser.properParameters (depth + 1)) := by
  refine h.here_seq fun start => h.call hparameter fun _ => h.looksAt_seq ?_ h.finish
  exact h.pass rfl fun m hm _ => h.call (below m hm .properParameters) fun _ => h.finish

theorem succ_parameter : Throughout @P n (Parser.parameter (depth + 1)) := by
  refine h.here_seq fun start => h.kind_seq fun kind => ?_
  split
  · exact h.terminal_seq rfl fun m hm _ => h.expect_seq rfl <|
      h.call (below m hm .typeDenoter) fun _ => h.finish
  · exact h.pass rfl fun m hm _ => h.terminalOf_seq rfl fun _ => h.expect_seq rfl <|
      h.call (below m hm .typeDenoter) fun _ => h.finish
  · exact h.pass rfl fun m hm _ => h.terminalOf_seq rfl fun _ =>
      h.call (below m hm .parameters) fun _ => h.finish
  · exact h.pass rfl fun m hm _ => h.terminalOf_seq rfl fun _ =>
      h.call (below m hm .parameters) fun _ => h.expect_seq rfl <|
      h.call (below m hm .typeDenoter) fun _ => h.finish
  · exact h.recover_seq <| h.missing_seq fun _ => h.seq h.erroneousType fun _ => h.finish

theorem succ_command (hsingle : Throughout @P n (Parser.singleCommand depth)) :
    Throughout @P n (Parser.command (depth + 1)) := by
  refine h.here_seq fun start => h.call hsingle fun _ => h.looksAt_seq ?_ (h.ret _)
  exact h.pass rfl fun m hm _ => h.call (below m hm .command) fun _ => h.finish

theorem succ_singleCommand : Throughout @P n (Parser.singleCommand (depth + 1)) := by
  refine h.here_seq fun start => h.kind_seq fun kind => ?_
  split
  · refine h.terminal_seq rfl fun m hm name => h.looksAt_seq ?_ ?_
    · exact h.call (below m hm .arguments) fun _ => h.finish
    · refine h.call (below m hm .vnameFrom _) fun _ => h.looksAt_seq ?_ ?_
      · exact h.skip rfl fun _ => h.call (below m hm .vname) fun _ => h.expect_seq rfl <|
          h.call (below m hm .expression) fun _ => h.expect_seq rfl <|
          h.call (below m hm .expression) fun _ => h.finish
      · exact h.expect_seq rfl <| h.call (below m hm .expression) fun _ => h.finish
  · exact h.pass rfl fun m hm _ => h.call (below m hm .command) fun _ =>
      h.expect_seq rfl (h.ret _)
  · exact h.pass rfl fun m hm _ => h.call (below m hm .declaration) fun _ => h.expect_seq rfl <|
      h.call (below m hm .singleCommand) fun _ => h.finish
  · exact h.pass rfl fun m hm _ => h.call (below m hm .expression) fun _ => h.expect_seq rfl <|
      h.call (below m hm .singleCommand) fun _ => h.expect_seq rfl <|
      h.call (below m hm .singleCommand) fun _ => h.finish
  · refine h.pass rfl fun m hm _ => h.call (below m hm .expression) fun _ =>
      h.kind_seq fun kind => ?_
    split
    · exact h.skip rfl fun _ => h.call (below m hm .singleCommand) fun _ => h.finish
    · exact h.skip rfl fun _ => h.seq h.emptyCommand fun _ => h.call (below m hm .command) fun _ =>
        h.expect_seq rfl h.finish
    · exact h.seq (h.complains _) fun _ => h.seq h.emptyCommand fun _ => h.finish
  · exact h.pass rfl fun m hm _ => h.call (below m hm .singleCommand) fun _ =>
      h.expect_seq rfl <| h.call (below m hm .expression) fun _ => h.expect_seq rfl <|
      h.call (below m hm .singleCommand) fun _ => h.finish
  iterate 6 exact h.emptyCommand
  · exact h.recover_seq h.emptyCommand

theorem succ_expression (hprimary : Throughout @P n (Parser.primaryExpression depth))
    (hoperations : ∀ start left, Throughout @P n (Parser.operations depth start left)) :
    Throughout @P n (Parser.expression (depth + 1)) := by
  refine h.here_seq fun start => h.kind_seq fun kind => ?_
  split
  · exact h.pass rfl fun m hm _ => h.call (below m hm .declaration) fun _ => h.expect_seq rfl <|
      h.call (below m hm .expression) fun _ => h.finish
  · exact h.pass rfl fun m hm _ => h.call (below m hm .expression) fun _ => h.expect_seq rfl <|
      h.call (below m hm .expression) fun _ => h.expect_seq rfl <|
      h.call (below m hm .expression) fun _ => h.finish
  · exact h.call hprimary fun first => hoperations start first

theorem succ_operations (start : Span) (left : Expression) :
    Throughout @P n (Parser.operations (depth + 1) start left) := by
  refine h.looksAt_seq ?_ (h.ret _)
  exact h.terminal_seq rfl fun m hm _ => h.call (below m hm .primaryExpression) fun _ =>
    h.seq (h.marks _) fun _ => below m hm .operations _ _

theorem succ_primaryExpression : Throughout @P n (Parser.primaryExpression (depth + 1)) := by
  refine h.here_seq fun start => h.kind_seq fun kind => ?_
  split
  · exact h.terminal_seq rfl fun m hm _ => h.finish
  · exact h.terminal_seq rfl fun m hm _ => h.finish
  · refine h.terminal_seq rfl fun m hm _ => h.looksAt_seq ?_ ?_
    · exact h.call (below m hm .arguments) fun _ => h.finish
    · exact h.call (below m hm .vnameFrom _) fun _ => h.finish
  · exact h.terminal_seq rfl fun m hm _ => h.call (below m hm .primaryExpression) fun _ => h.finish
  · exact h.pass rfl fun m hm _ => h.call (below m hm .expression) fun _ =>
      h.expect_seq rfl (h.ret _)
  · exact h.pass rfl fun m hm _ => h.call (below m hm .recordAggregate) fun _ =>
      h.expect_seq rfl h.finish
  · exact h.pass rfl fun m hm _ => h.call (below m hm .arrayAggregate) fun _ =>
      h.expect_seq rfl h.finish
  · exact h.recover_seq h.finish

theorem succ_recordAggregate (hvalue : Throughout @P n (Parser.expression depth)) :
    Throughout @P n (Parser.recordAggregate (depth + 1)) := by
  refine h.here_seq fun start => h.terminalOf_seq rfl fun _ => h.expect_seq rfl <|
    h.call hvalue fun _ => h.looksAt_seq ?_ h.finish
  exact h.pass rfl fun m hm _ => h.call (below m hm .recordAggregate) fun _ => h.finish

theorem succ_arrayAggregate (hvalue : Throughout @P n (Parser.expression depth)) :
    Throughout @P n (Parser.arrayAggregate (depth + 1)) := by
  refine h.here_seq fun start => h.call hvalue fun _ => h.looksAt_seq ?_ h.finish
  exact h.pass rfl fun m hm _ => h.call (below m hm .arrayAggregate) fun _ => h.finish

omit below in
theorem succ_vname (hfrom : ∀ name, Throughout @P n (Parser.vnameFrom depth name)) :
    Throughout @P n (Parser.vname (depth + 1)) := by
  exact h.terminalOf_seq rfl fun name => hfrom name

omit below in
theorem succ_vnameFrom (name : Terminal)
    (hselectors : ∀ start whole, Throughout @P n (Parser.selectors depth start whole)) :
    Throughout @P n (Parser.vnameFrom (depth + 1) name) := by
  exact h.seq (h.marks _) fun _ => hselectors _ _

theorem succ_selectors (start : Span) (whole : Vname) :
    Throughout @P n (Parser.selectors (depth + 1) start whole) := by
  refine h.kind_seq fun kind => ?_
  split
  · exact h.pass rfl fun m hm _ => h.terminalOf_seq rfl fun _ => h.seq (h.marks _) fun _ =>
      below m hm .selectors _ _
  · exact h.pass rfl fun m hm _ => h.call (below m hm .expression) fun _ => h.expect_seq rfl <|
      h.seq (h.marks _) fun _ => below m hm .selectors _ _
  · exact h.ret _

omit below in
theorem succ_arguments (hproper : Throughout @P n (Parser.properArguments depth)) :
    Throughout @P n (Parser.arguments (depth + 1)) := by
  refine h.expect_seq rfl <| h.here_seq fun start => h.looksAt_seq ?_ ?_
  · exact h.seq (h.marks _) fun _ => h.seq (h.ret _) fun _ => h.expect_seq rfl (h.ret _)
  · exact h.call hproper fun _ => h.expect_seq rfl (h.ret _)

theorem succ_properArguments (hargument : Throughout @P n (Parser.argument depth)) :
    Throughout @P n (Parser.properArguments (depth + 1)) := by
  refine h.here_seq fun start => h.call hargument fun _ => h.looksAt_seq ?_ h.finish
  exact h.pass rfl fun m hm _ => h.call (below m hm .properArguments) fun _ => h.finish

theorem succ_argument (hvalue : Throughout @P n (Parser.expression depth)) :
    Throughout @P n (Parser.argument (depth + 1)) := by
  refine h.here_seq fun start => h.kind_seq fun kind => ?_
  split
  · exact h.pass rfl fun m hm _ => h.call (below m hm .vname) fun _ => h.finish
  · exact h.pass rfl fun m hm _ => h.terminalOf_seq rfl fun _ => h.finish
  · exact h.pass rfl fun m hm _ => h.terminalOf_seq rfl fun _ => h.finish
  · exact h.call hvalue fun _ => h.finish

theorem succ_declaration (hsingle : Throughout @P n (Parser.singleDeclaration depth)) :
    Throughout @P n (Parser.declaration (depth + 1)) := by
  refine h.here_seq fun start => h.call hsingle fun _ => h.looksAt_seq ?_ (h.ret _)
  exact h.pass rfl fun m hm _ => h.call (below m hm .declaration) fun _ => h.finish

theorem succ_singleDeclaration : Throughout @P n (Parser.singleDeclaration (depth + 1)) := by
  refine h.here_seq fun start => h.kind_seq fun kind => ?_
  split
  · exact h.pass rfl fun m hm _ => h.terminalOf_seq rfl fun _ => h.expect_seq rfl <|
      h.call (below m hm .expression) fun _ => h.finish
  · exact h.pass rfl fun m hm _ => h.terminalOf_seq rfl fun _ => h.expect_seq rfl <|
      h.call (below m hm .typeDenoter) fun _ => h.finish
  · exact h.pass rfl fun m hm _ => h.terminalOf_seq rfl fun _ =>
      h.call (below m hm .parameters) fun _ => h.expect_seq rfl <|
      h.call (below m hm .singleCommand) fun _ => h.finish
  · exact h.pass rfl fun m hm _ => h.terminalOf_seq rfl fun _ =>
      h.call (below m hm .parameters) fun _ => h.expect_seq rfl <|
      h.call (below m hm .typeDenoter) fun _ => h.expect_seq rfl <|
      h.call (below m hm .expression) fun _ => h.finish
  · exact h.pass rfl fun m hm _ => h.terminalOf_seq rfl fun _ => h.expect_seq rfl <|
      h.call (below m hm .typeDenoter) fun _ => h.finish
  · exact h.recover_seq <| h.missing_seq fun _ => h.seq h.erroneousType fun _ => h.finish

/-- **A production has a property if the productions it calls have it**, all of them where fewer
tokens are left and those called first where as many are. -/
theorem succ (p : Production) (first : ∀ q ∈ p.first, q.Has (Throughout @P n) depth) :
    p.Has (Throughout @P n) (depth + 1) := by
  cases p with
  | typeDenoter => exact h.succ_typeDenoter below
  | fieldDenoters => exact h.succ_fieldDenoters below (first .typeDenoter (.head _))
  | parameters => exact h.succ_parameters (first .properParameters (.head _))
  | properParameters => exact h.succ_properParameters below (first .parameter (.head _))
  | parameter => exact h.succ_parameter below
  | command => exact h.succ_command below (first .singleCommand (.head _))
  | singleCommand => exact h.succ_singleCommand below
  | expression =>
    exact h.succ_expression below (first .primaryExpression (.head _))
      (first .operations (.tail _ (.head _)))
  | operations => exact h.succ_operations below
  | primaryExpression => exact h.succ_primaryExpression below
  | recordAggregate => exact h.succ_recordAggregate below (first .expression (.head _))
  | arrayAggregate => exact h.succ_arrayAggregate below (first .expression (.head _))
  | vname => exact h.succ_vname (first .vnameFrom (.head _))
  | vnameFrom => exact fun name => h.succ_vnameFrom name (first .selectors (.head _))
  | selectors => exact h.succ_selectors below
  | arguments => exact h.succ_arguments (first .properArguments (.head _))
  | properArguments => exact h.succ_properArguments below (first .argument (.head _))
  | argument => exact h.succ_argument below (first .expression (.head _))
  | declaration => exact h.succ_declaration below (first .singleDeclaration (.head _))
  | singleDeclaration => exact h.succ_singleDeclaration below

omit below in
/-- What is kept when one parser follows another holds of all productions. -/
theorem productions (hfailure : ∀ {α : Type} {s : ParserState}, P s (failure : Parser α))
    (depth : Nat) : ∀ (n : Nat) (p : Production), p.Has (Throughout @P n) depth := by
  induction depth with
  | zero =>
    have hzero : ∀ {α : Type} (n : Nat), Throughout @P n (failure : Parser α) :=
      fun _ s _ _ => ⟨hfailure, fun _ _ hrun => absurd hrun gives_failure⟩
    intro n p
    cases p
    all_goals
      simp only [Production.Has, Parser.typeDenoter, Parser.fieldDenoters, Parser.parameters,
        Parser.properParameters, Parser.parameter, Parser.command, Parser.singleCommand,
        Parser.expression, Parser.operations, Parser.primaryExpression, Parser.recordAggregate,
        Parser.arrayAggregate, Parser.vname, Parser.vnameFrom, Parser.selectors,
        Parser.arguments, Parser.properArguments, Parser.argument, Parser.declaration,
        Parser.singleDeclaration, hzero, implies_true]
  | succ depth ih => exact fun n p => h.succ (fun m _ => ih m) p fun q _ => ih n q

end Closed

/-! ## Calls -/

namespace Production

variable {P Q R : ∀ {α : Type}, Parser α → Prop} {p : Production} {depth : Nat}

theorem Has.imp₂ (hp : p.Has @P depth) (hq : p.Has @Q depth)
    (h : ∀ {α : Type} {x : Parser α}, P x → Q x → R x) : p.Has @R depth := by
  cases p with
  | operations => exact fun start left => h (hp start left) (hq start left)
  | selectors => exact fun start whole => h (hp start whole) (hq start whole)
  | vnameFrom => exact fun name => h (hp name) (hq name)
  | _ => exact h hp hq

/-- A parser is a production at some depth: it has all properties that the production has. -/
def Is (p : Production) (depth : Nat) {α : Type} (x : Parser α) : Prop :=
  ∀ P : ∀ {β : Type}, Parser β → Prop, p.Has @P depth → P x

theorem has_is (p : Production) (depth : Nat) : p.Has (p.Is depth) depth := by
  cases p with
  | operations => exact fun start left _ h => h start left
  | selectors => exact fun start whole _ h => h start whole
  | vnameFrom => exact fun name _ h => h name
  | _ => exact fun _ h => h

/-- At this depth a production gives a result. -/
def Answers (p : Production) (depth : Nat) (s : ParserState) : Prop :=
  p.Has (fun x => ∃ a s', Gives x s a s') depth

/-- How many productions can call each other before a token is passed. -/
def rank : Production → Nat
  | arguments => 4
  | properArguments => 3
  | parameters | recordAggregate | arrayAggregate | vname | argument => 2
  | fieldDenoters | properParameters | command | expression | vnameFrom | declaration => 1
  | _ => 0

/-- Calls made before a token is passed do not go round in a circle. -/
theorem rank_lt_of_mem_first {q : Production} (h : q ∈ p.first) : q.rank < p.rank := by
  revert q
  cases p <;> simp [first, rank]

theorem rank_le (p : Production) : p.rank ≤ 4 := by
  cases p <;> decide

end Production

/-- A production may call another one where fewer tokens are left, or where no more are left if it
is one of those called first. -/
def Calls (caller called : Production × ParserState) : Prop :=
  called.2.left < caller.2.left ∨
    called.2.left ≤ caller.2.left ∧ called.1 ∈ caller.1.first

/-- What a caller does, from a state on: it puts together basic parsers, of which none passes the
end of the text, and productions that it may call, which are given one level less. -/
inductive Works (caller : Production × ParserState) (depth : Nat) :
    {α : Type} → ParserState → Parser α → Prop
  | pure {α : Type} {s : ParserState} (a : α) : Works caller depth s (pure a)
  | bind {α β : Type} {s : ParserState} {x : Parser α} {f : α → Parser β} :
    Works caller depth s x → (∀ s' a t, s'.current = s.current → s'.left = s.left →
      Gives x s' a t → Works caller depth t (f a)) → Works caller depth s (x >>= f)
  | kind {s : ParserState} : Works caller depth s kind
  | here {s : ParserState} : Works caller depth s here
  | advance {s : ParserState} : s.current.kind ≠ .endOfText → Works caller depth s advance
  | complain {s : ParserState} (expected : Expectation) : Works caller depth s (complain expected)
  | fresh {s : ParserState} : Works caller depth s fresh
  | node {s : ParserState} (start : Span) : Works caller depth s (node start)
  | call {q : Production} {t : ParserState} {α : Type} {x : Parser α} :
    Calls caller (q, t) → q.Is depth x → Works caller depth t x

/-- No production brings tokens back. -/
theorem left_le (depth n : Nat) (p : Production) : p.Has (Throughout (fun _ _ => True) n) depth :=
  Closed.productions ⟨fun _ => trivial, fun _ _ => trivial, trivial, trivial, fun _ => trivial,
    fun _ => trivial, trivial, fun _ => trivial⟩ trivial depth n p

/-- A production calls nothing else, and does not pass the end of the text. -/
theorem works (p : Production) (depth : Nat) (s : ParserState) :
    p.Has (Works (p, s) depth s) (depth + 1) := by
  have hclosed : Closed (Works (p, s) depth) :=
    ⟨.pure, .bind, .kind, .here, .advance, .complain, .fresh, .node⟩
  have hcalls : ∀ (n : Nat) (q : Production), (∀ t, t.left ≤ n → Calls (p, s) (q, t)) →
      q.Has (Throughout (Works (p, s) depth) n) depth := by
    intro n q hq
    exact (q.has_is depth).imp₂ (left_le depth n q) fun hx hleft t _ ht =>
      ⟨.call (hq t ht) hx, (hleft t trivial ht).2⟩
  have hbelow : ∀ m, s.left = m + 1 → ∀ q : Production,
      q.Has (Throughout (Works (p, s) depth) m) depth := by
    intro m hm q
    refine hcalls m q fun t ht => .inl ?_
    show t.left < s.left
    omega
  have hsucc := hclosed.succ hbelow p fun q hq => hcalls _ q fun t ht => .inr ⟨ht, hq⟩
  exact hsucc.imp₂ hsucc fun hx _ => (hx s trivial (Nat.le_refl _)).1

/-- What a production does gives a result, if what it calls does. -/
theorem Works.gives {caller : Production × ParserState} {depth : Nat} {α : Type} {s : ParserState}
    {x : Parser α} (h : Works caller depth s x)
    (hcalls : ∀ q t, Calls caller (q, t) → q.Answers depth t) : ∃ a s', Gives x s a s' := by
  induction h with
  | pure a => exact ⟨a, _, gives_pure.2 ⟨rfl, rfl⟩⟩
  | bind _ _ ihx ihf =>
    obtain ⟨a, t, hx⟩ := ihx
    obtain ⟨b, s', hb⟩ := ihf _ a t rfl rfl hx
    exact ⟨b, s', gives_bind.2 ⟨a, t, hx, hb⟩⟩
  | call hcall hx => exact hx _ (hcalls _ _ hcall)
  | _ => exact ⟨_, _, rfl⟩

/-- A production gives a result if all productions do that it may call. -/
theorem answers_succ {p : Production} {depth : Nat} {s : ParserState}
    (h : ∀ q t, Calls (p, s) (q, t) → q.Answers depth t) : p.Answers (depth + 1) s :=
  (works p depth s).imp₂ (works p depth s) fun hx _ => hx.gives h

/-- With ten levels for each token, and some more, every production gives a result. -/
theorem answers (depth : Nat) : ∀ (p : Production) (s : ParserState),
    10 * s.left + p.rank < depth → p.Answers depth s := by
  induction depth with
  | zero => exact fun p s h => absurd h (Nat.not_lt_zero _)
  | succ depth ih =>
    refine fun p s h => answers_succ fun q t hcall => ih q t ?_
    have hq := q.rank_le
    rcases hcall with hless | ⟨hle, hfirst⟩
    · simp only at hless
      omega
    · have hrank := Production.rank_lt_of_mem_first hfirst
      simp only at hle hrank
      omega

end Triangle.Parser
