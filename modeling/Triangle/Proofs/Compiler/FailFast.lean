import Triangle.Compiler.Compile
import Triangle.Proofs.Encoding.Traversal
import Triangle.Proofs.Parsing.FailFast
import Triangle.Proofs.Runs
import Triangle.Proofs.Typing.Traversal

/-!
# Failing fast only cuts off diagnostics

Checking, folding and code generation add to the log and never look at it.  So what they do commutes
with truncating the log: `Commutes` states this of a computation, and it is kept when one
computation follows another.  Together with what is known about reading, a compilation that fails
fast comes out as any other, with the diagnostics up to and including the first error.
-/

namespace Triangle

/-! ## Computations that do not look at the log -/

section

variable {σ α β : Type} {t : σ → σ}

/-- Changing the state first or last makes no difference. -/
def Commutes (t : σ → σ) (x : StateT σ Checked α) : Prop :=
  ∀ s, x.run (t s) = (x.run s).map fun run => (run.1, t run.2)

theorem commutes_pure (a : α) : Commutes t (pure a : StateT σ Checked α) := fun _ => rfl

theorem Commutes.bind {x : StateT σ Checked α} {f : α → StateT σ Checked β} (hx : Commutes t x)
    (hf : ∀ a, Commutes t (f a)) : Commutes t (x >>= f) := by
  intro s
  rw [StateT.run_bind, StateT.run_bind, hx s]
  cases x.run s with
  | error cause => rfl
  | ok run => exact hf run.1 run.2

theorem commutes_lift (x : Checked α) : Commutes t (liftM x : StateT σ Checked α) := by
  intro s
  cases x <;> rfl

theorem commutes_modify {f : σ → σ} (h : ∀ s, f (t s) = t (f s)) :
    Commutes t (modify f : StateT σ Checked PUnit) := by
  intro s
  rw [StateT.run_modify, StateT.run_modify, h]
  rfl

theorem commutes_modifyGet {f : σ → α × σ} (h : ∀ s, f (t s) = ((f s).1, t (f s).2)) :
    Commutes t (modifyGet f : StateT σ Checked α) := by
  intro s
  rw [StateT.run_modifyGet, StateT.run_modifyGet, h]
  rfl

/-- A computation may look at what the change leaves alone. -/
theorem commutes_get {g : σ → StateT σ Checked α} (hg : ∀ s, g (t s) = g s)
    (h : ∀ s, Commutes t (g s)) : Commutes t (get >>= g) := by
  intro s
  rw [StateT.run_bind, StateT.run_bind, StateT.run_get, StateT.run_get]
  exact (congrArg (fun x => x.run (t s)) (hg s)).trans (h s s)

end

/-! ## Checking -/

/-- The state with a log that fails fast. -/
def CheckState.truncated (s : CheckState) : CheckState := { s with log := s.log.truncated }

/-- The steps that checking is put together from do not look at the log. -/
theorem Check.closed_commutes :
    Check.Closed fun {α} (x : Check α) => Commutes CheckState.truncated x where
  pure := commutes_pure
  bind := Commutes.bind
  lift := commutes_lift
  report span fault := commutes_modify fun s => by simp [CheckState.truncated]
  typed _ ty := Commutes.bind (commutes_modify fun _ => rfl) fun _ => commutes_pure ty
  openScope := commutes_modify fun _ => rfl
  closeScope := commutes_modifyGet fun _ => rfl
  outside hx := Commutes.bind (commutes_modifyGet fun _ => rfl) fun _ =>
    hx.bind fun _ => commutes_modify fun _ => rfl
  declare _ _ _ := by
    refine commutes_get (fun _ => rfl) fun s => ?_
    split
    · exact commutes_modify fun _ => rfl
    · exact commutes_modify fun s => by simp [CheckState.truncated]
  resolve _ := by
    refine commutes_get (fun _ => rfl) fun s => ?_
    split
    · exact Commutes.bind (commutes_modify fun _ => rfl) fun _ => commutes_pure _
    · exact (commutes_modify fun s => by simp [CheckState.truncated]).bind fun _ => commutes_pure _
  assignable id := commutes_modify fun _ => rfl

/-- Checking can be done in a log that fails fast, or the log truncated afterwards. -/
theorem Program.check_truncated (program : Program) (log : Log Problem) :
    program.check log.truncated = (program.check log).map fun r => (r.1, r.2.truncated) := by
  have h := Command.closed_check Check.closed_commutes program.command ⟨.initial, .empty, log⟩
  change (program.command.check.run (CheckState.truncated ⟨.initial, .empty, log⟩) >>= _) = _
  rw [h, Program.check]
  cases program.command.check.run ⟨.initial, .empty, log⟩ <;> rfl

/-! ## Code generation -/

/-- The state with a log that fails fast. -/
def EncodeState.truncated (s : EncodeState) : EncodeState := { s with log := s.log.truncated }

theorem Encode.commutes_restrict (span : Span) (restriction : Restriction) :
    Commutes EncodeState.truncated (Encode.restrict span restriction) :=
  commutes_modify fun s => by simp [EncodeState.truncated]

theorem Encode.commutes_emit (op : Opcode) (r : Register) (n d : Int) :
    Commutes EncodeState.truncated (Encode.emit op r n d) :=
  commutes_modify fun _ => rfl

theorem Encode.commutes_nextAddress : Commutes EncodeState.truncated Encode.nextAddress :=
  commutes_get (fun _ => rfl) fun _ => commutes_pure _

/-- A step of code generation does not look at the log, and its results are as described. -/
structure Logged.Commuting {α : Type} (Q : α → Prop) (t : Logged α) : Prop where
  gives : ∀ s a s', Yields t.erase s a s' → Q a
  commutes : Commutes EncodeState.truncated t.erase

namespace Logged.Commuting

variable {α β : Type} {Q : α → Prop} {R : β → Prop} {t : Logged α}

theorem bind {f : α → Logged β} (ht : Commuting Q t) (hf : ∀ a, Q a → Commuting R (f a)) :
    Commuting R (t >>= f) := by
  refine ⟨fun s b s' h => ?_, fun s => ?_⟩
  · rw [Logged.erase_bind] at h
    obtain ⟨a, u, ha, hb⟩ := yields_bind.1 h
    exact (hf a (ht.gives s a u ha)).gives u b s' hb
  · rw [Logged.erase_bind, StateT.run_bind, StateT.run_bind, ht.commutes s]
    cases hrun : t.erase.run s with
    | error cause => rfl
    | ok run => exact (hf run.1 (ht.gives s run.1 run.2 hrun)).commutes run.2

theorem of_commutes (h : Commutes EncodeState.truncated t.erase) : Commuting (fun _ => True) t :=
  ⟨fun _ _ _ _ => trivial, h⟩

theorem checked {x : Checked α} (h : ∀ a, x = .ok a → Q a) : Commuting Q (liftM x) :=
  ⟨fun _ a _ hrun => h a (yields_lift.1 hrun).1, commutes_lift x⟩

theorem pure {a : α} (ha : Q a) : Commuting Q (pure a) :=
  ⟨fun _ _ _ hrun => (yields_pure.1 hrun).1 ▸ ha, commutes_pure a⟩

/-- Telling something has to do with no log of diagnostics. -/
theorem note (event : CodeEvent) : Commuting (fun _ => True) (Logged.note event) :=
  of_commutes (commutes_pure ())

theorem emit {op : Opcode} {r : Register} {n d : Int} :
    Commuting (fun _ => True) (liftM (Encode.emit op r n d)) :=
  of_commutes (Encode.commutes_emit op r n d)

theorem forward {op : Opcode} {n : Int} : Commuting (fun _ => True) (Logged.forward op n) := by
  refine of_commutes ?_
  rw [Logged.erase_forward]
  exact Encode.commutes_nextAddress.bind fun _ => (Encode.commutes_emit _ _ _ _).bind fun _ =>
    commutes_pure _

theorem patch {label : Nat} : Commuting (fun _ => True) (Logged.patch label) := by
  refine of_commutes ?_
  rw [Logged.erase_patch]
  exact commutes_modify fun _ => rfl

theorem entityOf {A : Annotations} {name : Terminal} :
    Commuting (fun _ => True) (liftM (Encode.entityOf A name)) := by
  refine of_commutes ?_
  rw [Logged.erase_lift, Encode.entityOf]
  split
  · exact commutes_get (fun _ => rfl) fun _ => commutes_pure _
  · exact commutes_pure _
  · exact commutes_pure _

theorem display {frame : Frame} {address : Address} {span : Span} :
    Commuting (fun _ => True) (Logged.display frame address span) := by
  refine (note _).bind fun _ _ => of_commutes ?_
  rw [Logged.erase_lift, Encode.display]
  split
  · exact commutes_pure _
  · exact (Encode.commutes_restrict _ _).bind fun _ => commutes_pure _

end Logged.Commuting

/-- Nor do the steps that code generation is put together from. -/
theorem Logged.closed_commuting (A : Annotations) :
    Logged.Closed A (fun _ => True) (fun _ _ => True) fun _ _ => Logged.Commuting where
  pure := .pure
  bind := .bind
  checked := .checked
  emit _ := .emit
  back _ := .emit
  address hf := .bind (.of_commutes Encode.commutes_nextAddress) fun start _ => hf start
  forward _ hf := .bind .forward fun label _ => hf label
  patch _ _ _ _ ht := .bind .patch fun _ _ => ht
  restrict _ := .of_commutes (Encode.commutes_restrict _ _)
  represent _ _ := .of_commutes (commutes_modify fun _ => rfl)
  entityOf _ := .entityOf
  display _ _ _ := .display
  push hframe hlt := .bind (.checked fun _ => hframe.push hlt) fun _ hinner =>
    .bind (.note _) fun _ _ => .pure hinner

/-- Likewise for code generation; the limits it reports are errors as others are. -/
theorem Program.encode_truncated (program : Program) (A : Annotations) (log : Log Problem) :
    program.encode A log.truncated = (program.encode A log).map fun r => (r.1, r.2.truncated) := by
  have h : Commutes EncodeState.truncated (do
      program.command.encode A .global
      Encode.emit .halt .cb 0 0
      if (← get).store.overflowed then
        Encode.restrict program.mark.span .codeTooLarge) := by
    have hcommand : Logged.Commuting (fun _ => True) (program.command.logged A .global) :=
      program.closed_command (Logged.closed_commuting A) fun _ _ => trivial
    rw [← program.command.erase_logged]
    refine hcommand.commutes.bind fun _ => (Encode.commutes_emit _ _ _ _).bind fun _ =>
      commutes_get (fun _ => rfl) fun s => ?_
    split
    · exact Encode.commutes_restrict _ _
    · exact commutes_pure _
  have hrun := h ⟨.empty, .empty, log⟩
  change (StateT.run _ (EncodeState.truncated ⟨.empty, .empty, log⟩) >>= _) = _
  rw [Program.encode]
  erw [hrun]
  generalize StateT.run _ (⟨.empty, .empty, log⟩ : EncodeState) = run
  cases run <;> rfl

/-! ## Folding -/

/-- The state with a log that fails fast. -/
def FoldState.truncated (s : FoldState) : FoldState := { s with log := s.log.truncated }

namespace Fold

variable {α β : Type}

/-- Folding does not look at the log. -/
def Blind (x : Fold α) : Prop :=
  ∀ s : FoldState, x.run s.truncated = ((x.run s).1, (x.run s).2.truncated)

theorem blind_pure (a : α) : Blind (pure a : Fold α) := fun _ => rfl

theorem Blind.bind {x : Fold α} {f : α → Fold β} (hx : Blind x) (hf : ∀ a, Blind (f a)) :
    Blind (x >>= f) := by
  intro s
  change (f (x.run s.truncated).1).run (x.run s.truncated).2 = _
  rw [hx s]
  exact hf (x.run s).1 (x.run s).2

theorem blind_modify {f : FoldState → FoldState} (h : ∀ s, f s.truncated = (f s).truncated) :
    Blind (modify f : Fold PUnit) := by
  intro s
  change (PUnit.unit, f s.truncated) = _
  rw [h]
  rfl

theorem blind_node (span : Span) : Blind (node span) := fun _ => rfl

theorem blind_annotate (change : Annotations → Annotations) : Blind (annotate change) :=
  blind_modify fun _ => rfl

theorem blind_literal (span : Span) : (constant : Constant) → Blind (literal span constant)
  | .int _ => (blind_node _).bind fun _ => (blind_annotate _).bind fun _ =>
      (blind_node _).bind fun _ => Blind.bind (blind_modify fun _ => rfl) fun _ => blind_pure _
  | .bool _ => (blind_node _).bind fun _ => (blind_annotate _).bind fun _ =>
      (blind_node _).bind fun _ =>
      (blind_annotate _).bind fun _ => (blind_node _).bind fun _ => (blind_annotate _).bind fun _ =>
      Blind.bind (blind_modify fun _ => rfl) fun _ => blind_pure _

/-- The one report of folding can be truncated before or after it is made. -/
theorem blind_replace (expression : Expression) (operator : Terminal) :
    (outcome : Constant.Outcome) → Blind (replace expression operator outcome)
  | .value constant => blind_literal _ constant
  | .byZero _ => (blind_modify fun s => by simp [FoldState.truncated]).bind fun _ => blind_pure _
  | .unknown => blind_pure _

/-- Folding may look at the annotations. -/
theorem blind_annotations {f : Annotations → Fold α} (hf : ∀ A, Blind (f A)) :
    Blind (do f (← get).annotations) :=
  fun s => hf s.annotations s

end Fold

open Fold

mutual

theorem Command.blind_fold : (command : Command) → Blind command.fold
  | .assign _ target value => by
    rw [Command.fold]
    exact target.blind_fold.bind fun _ => value.blind_fold.bind fun _ =>
      blind_pure _
  | .doubleAssign _ first second firstValue secondValue => by
    rw [Command.fold]
    exact first.blind_fold.bind fun _ => second.blind_fold.bind fun _ =>
      firstValue.blind_fold.bind fun _ => secondValue.blind_fold.bind fun _ =>
      blind_pure _
  | .call _ _ arguments => by
    rw [Command.fold]
    exact arguments.blind_fold.bind fun _ => blind_pure _
  | .empty _ => blind_pure _
  | .ifElse _ condition first second => by
    rw [Command.fold]
    exact condition.blind_fold.bind fun _ => first.blind_fold.bind fun _ =>
      second.blind_fold.bind fun _ => blind_pure _
  | .letIn _ declaration body => by
    rw [Command.fold]
    exact declaration.blind_fold.bind fun _ => body.blind_fold.bind fun _ =>
      blind_pure _
  | .sequential _ first second => by
    rw [Command.fold]
    exact first.blind_fold.bind fun _ => second.blind_fold.bind fun _ =>
      blind_pure _
  | .whileDo _ condition body => by
    rw [Command.fold]
    exact condition.blind_fold.bind fun _ => body.blind_fold.bind fun _ =>
      blind_pure _
  | .loopWhile _ prelude condition body => by
    rw [Command.fold]
    exact prelude.blind_fold.bind fun _ => condition.blind_fold.bind fun _ =>
      body.blind_fold.bind fun _ => blind_pure _

theorem Expression.blind_fold : (expression : Expression) → Blind expression.fold
  | .array _ elements => by
    rw [Expression.fold]
    exact elements.blind_fold.bind fun _ => blind_pure _
  | .binary _ left operator right => by
    rw [Expression.fold]
    exact left.blind_fold.bind fun _ => right.blind_fold.bind fun _ =>
      blind_annotations fun A => blind_replace _ _ (A.foldBinary operator _ _)
  | .call _ _ arguments => by
    rw [Expression.fold]
    exact arguments.blind_fold.bind fun _ => blind_pure _
  | .character _ _ | .empty _ | .integer _ _ => blind_pure _
  | .ifElse _ condition first second => by
    rw [Expression.fold]
    exact condition.blind_fold.bind fun _ => first.blind_fold.bind fun _ =>
      second.blind_fold.bind fun _ => blind_pure _
  | .letIn _ declaration body => by
    rw [Expression.fold]
    exact declaration.blind_fold.bind fun _ => body.blind_fold.bind fun _ =>
      blind_pure _
  | .record _ fields => by
    rw [Expression.fold]
    exact fields.blind_fold.bind fun _ => blind_pure _
  | .unary _ operator operand => by
    rw [Expression.fold]
    exact operand.blind_fold.bind fun _ =>
      blind_annotations fun A => blind_replace _ _ (A.foldUnary operator _)
  | .vname _ vname => by
    rw [Expression.fold]
    exact vname.blind_fold.bind fun _ => blind_pure _

theorem Declaration.blind_fold : (declaration : Declaration) → Blind declaration.fold
  | .binaryOperator _ _ _ _ _ | .type _ _ _ | .unaryOperator _ _ _ _ | .var _ _ _ => blind_pure _
  | .const _ _ value => by
    rw [Declaration.fold]
    exact value.blind_fold.bind fun _ => blind_pure _
  | .func _ _ _ _ body => by
    rw [Declaration.fold]
    exact body.blind_fold.bind fun _ => blind_pure _
  | .proc _ _ _ body => by
    rw [Declaration.fold]
    exact body.blind_fold.bind fun _ => blind_pure _
  | .sequential _ first second => by
    rw [Declaration.fold]
    exact first.blind_fold.bind fun _ => second.blind_fold.bind fun _ =>
      blind_pure _

theorem Vname.blind_fold : (vname : Vname) → Blind vname.fold
  | .dot _ record _ => by
    rw [Vname.fold]
    exact record.blind_fold.bind fun _ => blind_pure _
  | .simple _ _ => blind_pure _
  | .subscript _ array index => by
    rw [Vname.fold]
    exact array.blind_fold.bind fun _ => index.blind_fold.bind fun _ =>
      blind_pure _

theorem Argument.blind_fold : (argument : Argument) → Blind argument.fold
  | .const _ value => by
    rw [Argument.fold]
    exact value.blind_fold.bind fun _ => blind_pure _
  | .func _ _ | .proc _ _ => blind_pure _
  | .var _ vname => by
    rw [Argument.fold]
    exact vname.blind_fold.bind fun _ => blind_pure _

theorem Arguments.blind_fold : (arguments : Arguments) → Blind arguments.fold
  | .empty _ => blind_pure _
  | .single _ argument => by
    rw [Arguments.fold]
    exact argument.blind_fold.bind fun _ => blind_pure _
  | .multiple _ first rest => by
    rw [Arguments.fold]
    exact first.blind_fold.bind fun _ => rest.blind_fold.bind fun _ =>
      blind_pure _

theorem ArrayAggregate.blind_fold : (elements : ArrayAggregate) → Blind elements.fold
  | .single _ element => by
    rw [ArrayAggregate.fold]
    exact element.blind_fold.bind fun _ => blind_pure _
  | .multiple _ first rest => by
    rw [ArrayAggregate.fold]
    exact first.blind_fold.bind fun _ => rest.blind_fold.bind fun _ =>
      blind_pure _

theorem RecordAggregate.blind_fold : (fields : RecordAggregate) → Blind fields.fold
  | .single _ _ value => by
    rw [RecordAggregate.fold]
    exact value.blind_fold.bind fun _ => blind_pure _
  | .multiple _ _ value rest => by
    rw [RecordAggregate.fold]
    exact value.blind_fold.bind fun _ => rest.blind_fold.bind fun _ =>
      blind_pure _

end

/-- A folded program with a log that fails fast. -/
def Folded.truncated (folded : Folded) : Folded := { folded with log := folded.log.truncated }

/-- Likewise for folding, which cannot fail. -/
theorem Program.fold_truncated (program : Program) (A : Annotations) (log : Log Problem) :
    program.fold A log.truncated = (program.fold A log).truncated := by
  have h : program.command.fold.run ⟨program.issued, A, log.truncated, {}⟩ = _ :=
    Command.blind_fold program.command ⟨program.issued, A, log, {}⟩
  rw [Program.fold, Program.fold, h]
  rfl

/-! ## Compilations

The two compilations print different texts.  They are compared by what they come to. -/

/-- What came of a compilation, with a log that fails fast. -/
def Outcome.truncated (outcome : Outcome) : Outcome := { outcome with log := outcome.log.truncated }

namespace Compilation

variable {α β γ δ : Type}

/-- Whatever was written before, one compilation results in what the other does, changed. -/
def Mirrors (t : α → β) (x : Compilation α) (y : Compilation β) : Prop :=
  ∀ before before' : String, (y.run.run before').1 = (x.run.run before).1.map t

theorem mirrors_pure (t : α → β) (a : α) : Mirrors t (pure a) (pure (t a)) := fun _ _ => rfl

theorem Mirrors.bind {t : α → β} {u : γ → δ} {x : Compilation α} {y : Compilation β}
    {f : α → Compilation γ} {g : β → Compilation δ} (h : Mirrors t x y)
    (hf : ∀ a, Mirrors u (f a) (g (t a))) : Mirrors u (x >>= f) (y >>= g) := by
  intro before before'
  have hxy := h before before'
  simp only [ExceptT.run_bind, StateT.run_bind] at *
  generalize x.run.run before = r at *
  generalize y.run.run before' = r' at *
  obtain ⟨a, after⟩ := r
  obtain ⟨b, after'⟩ := r'
  obtain rfl : b = a.map t := hxy
  cases a with
  | error cause => rfl
  | ok a => exact hf a after after'

theorem mirrors_write (text text' : String) : Mirrors id (write text) (write text') :=
  fun _ _ => rfl

theorem mirrors_writeLine (text text' : String) : Mirrors id (writeLine text) (writeLine text') :=
  fun _ _ => rfl

theorem mirrors_lift {t : α → β} {x : Checked α} {y : Checked β} (h : y = x.map t) :
    Mirrors t (liftM x) (liftM y) := by
  subst h
  intro before before'
  cases x <;> rfl

variable (options : Options)

theorem mirrors_summarize (program : Program) (failFast failFast' : Bool) :
    Mirrors id (summarize { options with failFast } program)
      (summarize { options with failFast := failFast' } program) := by
  simp only [summarize]
  split
  · exact (mirrors_write _ _).bind fun _ => mirrors_pure id _
  · exact mirrors_pure id _

/-- The annotations are the same; what is written about them need not be. -/
theorem mirrors_analyze (program : Program) (log : Log Problem) (failFast failFast' : Bool) :
    Mirrors (fun r => (r.1, r.2.truncated)) (analyze { options with failFast } program log)
      (analyze { options with failFast := failFast' } program log.truncated) := by
  simp only [analyze]
  refine (mirrors_writeLine _ _).bind fun _ =>
    (mirrors_lift (program.check_truncated log)).bind fun r => ?_
  simp only
  split
  · exact (mirrors_write _ _).bind fun _ => mirrors_pure _ (r.1, r.2)
  · exact mirrors_pure _ (r.1, r.2)

theorem mirrors_optimize (program : Program) (A : Annotations) (log : Log Problem)
    (failFast failFast' : Bool) :
    Mirrors Folded.truncated (optimize { options with failFast } program A log)
      (optimize { options with failFast := failFast' } program A log.truncated) := by
  simp only [optimize, program.fold_truncated A log]
  refine (mirrors_writeLine _ _).bind fun _ => ?_
  split
  · exact (mirrors_write _ _).bind fun _ => mirrors_pure Folded.truncated _
  · exact mirrors_pure Folded.truncated _

/-- Whether there is an error can be seen in a truncated log. -/
theorem errors_truncated_eq_zero {log : Log Problem} :
    log.truncated.errors = 0 ↔ log.errors = 0 := by
  rw [Log.errors_truncated]
  omega

theorem mirrors_generate (program : Program) (A : Annotations) (log : Log Problem) :
    Mirrors (fun r => (r.1, r.2.truncated)) (generate program A log)
      (generate program A log.truncated) := by
  refine (mirrors_writeLine _ _).bind fun _ =>
    (mirrors_lift (program.encode_truncated A log)).bind fun r => ?_
  simp only [errors_truncated_eq_zero]
  exact mirrors_pure (fun r => (r.1, r.2.truncated))
    (if r.2.errors = 0 then some r.1 else none, r.2)

/-- Going on depends on whether there is an error, and truncating does not hide that. -/
theorem mirrors_proceed (program : Program) (log : Log Problem) :
    Mirrors Outcome.truncated (proceed { options with failFast := false } program log)
      (proceed { options with failFast := true } program log.truncated) := by
  simp only [proceed]
  refine (mirrors_summarize options program _ _).bind fun statistics =>
    (mirrors_analyze options program log _ _).bind fun r => ?_
  simp only [errors_truncated_eq_zero]
  split
  · split
    · refine (mirrors_optimize options program r.1 r.2 _ _).bind fun folded => ?_
      exact (mirrors_generate folded.program folded.annotations folded.log).bind fun r' =>
        mirrors_pure Outcome.truncated { log := r'.2, object := r'.1, statistics, folds := some _ }
    · exact (mirrors_generate program r.1 r.2).bind fun r' =>
        mirrors_pure Outcome.truncated { log := r'.2, object := r'.1, statistics }
  · exact mirrors_pure Outcome.truncated { log := r.2, statistics }

theorem mirrors_phases (source : Source) :
    Mirrors Outcome.truncated (phases source { options with failFast := false })
      (phases source { options with failFast := true }) := by
  obtain ⟨hlog, htree⟩ := parse_truncated source
  refine (mirrors_writeLine _ _).bind fun _ => (mirrors_writeLine _ _).bind fun _ => ?_
  have hreport : ∀ outcome : Outcome, Mirrors Outcome.truncated
      (do
        write (outcome.log.reportOn source)
        return outcome)
      (do
        write (outcome.truncated.log.reportOn source)
        return outcome.truncated) := fun outcome =>
    (mirrors_write _ _).bind fun _ => mirrors_pure Outcome.truncated outcome
  simp only [hlog, errors_truncated_eq_zero]
  by_cases herrors : (parse source false).log.errors = 0
  · simp only [if_pos herrors, htree herrors]
    exact (mirrors_proceed options _ _).bind hreport
  · simp only [if_neg herrors]
    exact (mirrors_pure Outcome.truncated { log := (parse source false).log }).bind hreport

end Compilation

/-- **Failing fast only cuts off diagnostics.**  A compilation that fails fast overflows where any
other does, and otherwise it comes out with the same code, statistics and counts.  Its diagnostics
are those up to and including the first error, so there is at most one error among them. -/
theorem compile_failFast (source : Source) (options : Options) :
    (∃ cause, (compile source { options with failFast := false }).1 = .error cause ∧
        (compile source { options with failFast := true }).1 = .error cause) ∨
      ∃ outcome fast, (compile source { options with failFast := false }).1 = .ok outcome ∧
        (compile source { options with failFast := true }).1 = .ok fast ∧
        fast.successful = outcome.successful ∧ fast.object = outcome.object ∧
        fast.statistics = outcome.statistics ∧ fast.folds = outcome.folds ∧
        fast.log.diagnostics = Diagnostic.untilError outcome.log.diagnostics ∧
        fast.log.errors ≤ 1 := by
  have h : (compile source { options with failFast := true }).1 =
      (compile source { options with failFast := false }).1.map Outcome.truncated :=
    Compilation.mirrors_phases options source "" ""
  cases houtcome : (compile source { options with failFast := false }).1 with
  | error cause =>
    rw [houtcome] at h
    exact .inl ⟨cause, rfl, h⟩
  | ok outcome =>
    rw [houtcome] at h
    refine .inr ⟨outcome, outcome.truncated, rfl, h, rfl, rfl, rfl, rfl, rfl, ?_⟩
    change outcome.log.truncated.errors ≤ 1
    rw [Log.errors_truncated]
    exact Nat.min_le_left _ _

end Triangle
