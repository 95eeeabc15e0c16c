import Triangle.Proofs.Diagnostic.Truncation
import Triangle.Proofs.Parsing.Trees

/-!
# Reading with a log that fails fast

Two readings of one text, with a log that fails fast and with one that does not, go the same way up
to the first error.  After it they part: the one finds the end of the text wherever it looks, the
other goes on.  But nothing that comes after the first error makes a difference to the log that
fails fast, so at the end it holds what the other one does up to its first error.

`Parser.Follows` states this of a parser.  It is kept when one parser follows another, because logs
only grow; so it holds of all productions.
-/

namespace Triangle

variable {α : Type} {x : Parser α} {s : ParserState} {v : ParserState → α}

/-! ## Reading tokens -/

namespace Reader

/-- The reader with a log that fails fast. -/
def truncated (reader : Reader) : Reader := { reader with log := reader.log.truncated }

theorem grows_logAfter (log : Log Problem) (lexeme : Lexeme) : log.Grows (logAfter log lexeme) := by
  rw [logAfter]
  split
  · exact Log.grows_report _ _ _
  · exact .refl _

theorem truncated_logAfter (log : Log Problem) (lexeme : Lexeme) :
    (logAfter log lexeme).truncated = logAfter log.truncated lexeme := by
  rw [logAfter, logAfter]
  split
  · exact Log.truncated_report _ _ _
  · rfl

theorem grows_next (reader : Reader) : reader.log.Grows reader.next.2.log := by
  rcases reader.next_cases with heq | ⟨lexeme, rest, -, -, heq⟩
  · rw [heq]
    exact .refl _
  · rw [heq]
    exact grows_logAfter _ _

theorem grows_significant (reader : Reader) : reader.log.Grows reader.significant.2.log := by
  fun_induction Reader.significant reader with
  | case1 reader _ ih => exact (grows_next reader).trans ih
  | case2 reader _ => exact grows_next reader

/-- Up to the first error the same tokens are read. -/
theorem next_truncated {reader : Reader} (h : reader.log.errors = 0) :
    reader.truncated.next = (reader.next.1, reader.next.2.truncated) := by
  have hhalted : reader.truncated.log.halted = false :=
    Log.halted_eq_false (by rw [truncated, Log.errors_truncated, h]; rfl)
  rw [next, next, hhalted, Log.halted_eq_false h]
  have hupcoming : reader.truncated.upcoming = reader.upcoming := rfl
  simp only [Bool.false_eq_true, if_false, hupcoming]
  cases reader.upcoming with
  | nil => rfl
  | cons lexeme rest =>
    simp only [truncated, truncated_logAfter]

/-- What is read agrees as long as there is no error, and the logs agree in any case. -/
theorem significant_truncated {reader : Reader} (h : reader.log.errors = 0) :
    reader.truncated.significant.2.log = reader.significant.2.log.truncated ∧
      (reader.significant.2.log.errors = 0 →
        reader.truncated.significant = (reader.significant.1, reader.significant.2.truncated)) := by
  fun_induction Reader.significant reader with
  | case1 reader hfaulty ih =>
    rw [significant, next_truncated h, if_pos hfaulty]
    by_cases hnext : reader.next.2.log.errors = 0
    · exact ih hnext
    · -- From here on one of the readers is at the end of the text.
      have hgrows := grows_significant reader.next.2
      have hhalted := (grows_significant reader.next.2.truncated).eq_of_halted
        (Log.halted_truncated hnext)
      refine ⟨by rw [hhalted, hgrows.truncated_eq hnext]; rfl, fun herrors => ?_⟩
      have hle := hgrows.errors_le
      omega
  | case2 reader hfaulty =>
    rw [significant, next_truncated h, if_neg hfaulty]
    exact ⟨rfl, fun _ => rfl⟩

end Reader

/-! ## Parsers -/

/-- The state with a log that fails fast. -/
def ParserState.truncated (s : ParserState) : ParserState := { s with reader := s.reader.truncated }

namespace Parser

/-- One state is the other with a log that fails fast, or the other has an error and the logs agree
up to it. -/
structure Lags (s₁ s₂ : ParserState) : Prop where
  log : s₁.reader.log = s₂.reader.log.truncated
  same : Clean s₂ → s₁ = s₂.truncated

theorem lags_truncated (s : ParserState) : Lags s.truncated s := ⟨rfl, fun _ => rfl⟩

/-- From a state the log grows, with a log that fails fast too, and then the same is done up to the
first error. -/
structure Follows {α : Type} (s : ParserState) (x : Parser α) : Prop where
  grows : ∀ {a s'}, Gives x s a s' → s.reader.log.Grows s'.reader.log
  grows_truncated : ∀ {a s'}, Gives x s.truncated a s' →
    s.truncated.reader.log.Grows s'.reader.log
  agrees : ∀ {a₁ s₁' a₂ s₂'}, Clean s → Gives x s.truncated a₁ s₁' → Gives x s a₂ s₂' →
    Lags s₁' s₂' ∧ (Clean s₂' → a₁ = a₂)

/-- After an error any two runs will do. -/
theorem Lags.of_grows {s₁ s₂ s₁' s₂' : ParserState} (h : Lags s₁ s₂) (hdirty : ¬ Clean s₂)
    (h₁ : s₁.reader.log.Grows s₁'.reader.log) (h₂ : s₂.reader.log.Grows s₂'.reader.log) :
    Lags s₁' s₂' ∧ ¬ Clean s₂' := by
  have hdirty' : ¬ Clean s₂' := fun hclean => hdirty (Nat.le_zero.1 (hclean ▸ h₂.errors_le))
  refine ⟨⟨?_, fun hclean => absurd hclean hdirty'⟩, hdirty'⟩
  have hhalted : s₁.reader.log.halted = true := by
    rw [h.log]
    exact Log.halted_truncated hdirty
  rw [h₁.eq_of_halted hhalted, h.log, h₂.truncated_eq hdirty]

theorem Follows.bind {α β : Type} {s : ParserState} {x : Parser α} {f : α → Parser β}
    (hx : Follows s x) (hf : ∀ s' a t, s'.current = s.current → s'.left = s.left →
      Gives x s' a t → Follows t (f a)) : Follows s (x >>= f) := by
  constructor
  · intro b s' h
    obtain ⟨a, t, h₁, h₂⟩ := gives_bind.1 h
    exact (hx.grows h₁).trans ((hf s a t rfl rfl h₁).grows h₂)
  · intro b s' h
    obtain ⟨a, t, h₁, h₂⟩ := gives_bind.1 h
    exact (hx.grows_truncated h₁).trans ((hf s.truncated a t rfl rfl h₁).grows h₂)
  · intro b₁ s₁' b₂ s₂' hclean h₁ h₂
    obtain ⟨a₁, t₁, hx₁, hf₁⟩ := gives_bind.1 h₁
    obtain ⟨a₂, t₂, hx₂, hf₂⟩ := gives_bind.1 h₂
    obtain ⟨hlags, ha⟩ := hx.agrees hclean hx₁ hx₂
    by_cases ht : Clean t₂
    · obtain rfl := ha ht
      rw [hlags.same ht] at hf₁
      exact (hf s a₁ t₂ rfl rfl hx₂).agrees ht hf₁ hf₂
    · obtain ⟨hlags', hdirty⟩ := hlags.of_grows ht
        ((hf s.truncated a₁ t₁ rfl rfl hx₁).grows hf₁) ((hf s a₂ t₂ rfl rfl hx₂).grows hf₂)
      exact ⟨hlags', fun hclean' => absurd hclean' hdirty⟩

/-- A parser that does the same at all states. -/
theorem Follows.of_grows (hgrows : ∀ {s a s'}, Gives x s a s' → s.reader.log.Grows s'.reader.log)
    (hagrees : ∀ {a₁ s₁' a₂ s₂'}, Clean s → Gives x s.truncated a₁ s₁' → Gives x s a₂ s₂' →
      Lags s₁' s₂' ∧ (Clean s₂' → a₁ = a₂)) : Follows s x :=
  ⟨hgrows, hgrows, hagrees⟩

theorem follows_advance : Follows s advance := by
  refine .of_grows (fun {s token s'} h => ?_) fun hclean h₁ h₂ => ?_
  · obtain ⟨-, rfl⟩ := gives_modifyGet.1 h
    exact Reader.grows_significant s.reader
  · obtain ⟨rfl, rfl⟩ := gives_modifyGet.1 h₁
    obtain ⟨rfl, rfl⟩ := gives_modifyGet.1 h₂
    obtain ⟨hlog, hsame⟩ := Reader.significant_truncated hclean
    refine ⟨⟨hlog, fun hclean' => ?_⟩, fun _ => rfl⟩
    simp only [ParserState.truncated, hsame hclean']

theorem follows_complain (expected : Expectation) : Follows s (complain expected) := by
  refine .of_grows (fun h => ?_) fun hclean h₁ h₂ => ?_
  · obtain rfl := gives_modify.1 h
    exact Log.grows_report _ _ _
  · obtain rfl := gives_modify.1 h₁
    obtain rfl := gives_modify.1 h₂
    refine ⟨⟨(Log.truncated_report _ _ _).symm, fun hclean' => ?_⟩, fun _ => rfl⟩
    exact absurd hclean' (Log.errors_report_ne_zero _ _ _)

theorem follows_fresh : Follows s fresh := by
  refine .of_grows (fun h => ?_) fun hclean h₁ h₂ => ?_
  · obtain ⟨-, rfl⟩ := gives_modifyGet.1 h
    exact .refl _
  · obtain ⟨rfl, rfl⟩ := gives_modifyGet.1 h₁
    obtain ⟨rfl, rfl⟩ := gives_modifyGet.1 h₂
    exact ⟨lags_truncated { s with issued := s.issued + 1 }, fun _ => rfl⟩

/-- A parser that leaves the state alone and does not look at the log. -/
theorem Follows.of_read (hv : ∀ s, v s.truncated = v s)
    (h : ∀ s a s', Gives x s a s' → v s = a ∧ s = s') : Follows s x := by
  refine .of_grows (fun {s a s'} hx => ?_) fun hclean h₁ h₂ => ?_
  · obtain ⟨-, rfl⟩ := h s a s' hx
    exact .refl _
  · obtain ⟨rfl, rfl⟩ := h _ _ _ h₁
    obtain ⟨rfl, rfl⟩ := h _ _ _ h₂
    exact ⟨lags_truncated s, fun _ => hv s⟩

/-- What makes something of the state at last. -/
theorem follows_get (hv : ∀ s, v s.truncated = v s) : Follows s (do return v (← get)) :=
  .of_read hv fun s a s' h => by
    obtain ⟨_, _, hget, hpure⟩ := gives_bind.1 h
    obtain ⟨rfl, rfl⟩ := gives_get.1 hget
    exact gives_pure.1 hpure

theorem closed_follows : Closed @Follows where
  pure a := .of_read (v := fun _ => a) (fun _ => rfl) fun _ _ _ h => gives_pure.1 h
  bind := Follows.bind
  kind := .of_read (v := fun s => s.current.kind) (fun _ => rfl) fun _ _ _ h => gives_kind.1 h
  here := .of_read (v := fun s => s.current.span) (fun _ => rfl) fun _ _ _ h => gives_here.1 h
  advance _ := follows_advance
  complain := follows_complain
  fresh := follows_fresh
  node start := follows_fresh.bind fun _ id _ _ _ _ =>
    follows_get (v := fun s => Mark.mk id (extent start s.previous)) fun _ => rfl

theorem follows_program (depth : Nat) (s : ParserState) : Follows s (program depth) := by
  have hclosed := closed_follows
  have hrest : ∀ (start : Span) (command : Command) (s : ParserState), Follows s (do
      let mark ← node start
      let state ← get
      pure (⟨mark, command, state.issued⟩ : Program)) := fun start command _ =>
    (hclosed.node start).bind fun _ mark _ _ _ _ =>
      follows_get (v := fun s => Program.mk mark command s.issued) fun _ => rfl
  have hcommand : ∀ s, Follows s (command depth) := fun s =>
    (hclosed.productions ⟨fun h => absurd h gives_failure, fun h => absurd h gives_failure,
      fun _ h => absurd h gives_failure⟩ depth s.left .command s trivial (Nat.le_refl _)).1
  refine hclosed.here.bind fun _ start _ _ _ _ => (hcommand _).bind fun _ command _ _ _ _ =>
    (hclosed.kind.bind fun _ _ _ _ _ _ => hclosed.pure _).bind fun _ found t _ _ _ => ?_
  cases found with
  | true => exact hrest start command t
  | false => exact (follows_complain _).bind fun _ _ t _ _ _ => hrest start command t

end Parser

/-- Reading with a log that fails fast gives the log of the other reading up to its first error, and
the same tree if there is no error. -/
theorem parse_truncated (source : Source) :
    (parse source true).log = (parse source false).log.truncated ∧
      ((parse source false).log.errors = 0 →
        (parse source true).program = (parse source false).program) := by
  obtain ⟨s₁, h₁, hlog₁⟩ := parse_gives source true
  obtain ⟨s₂, h₂, hlog₂⟩ := parse_gives source false
  obtain ⟨hlog, hsame⟩ := @Reader.significant_truncated (Reader.ofSource source false) rfl
  have hlags : Parser.Lags (Parser.start source true) (Parser.start source false) := by
    refine ⟨hlog, fun hclean => ?_⟩
    have htrue : Reader.ofSource source true = (Reader.ofSource source false).truncated := rfl
    simp only [Parser.start, htrue, hsame hclean]
    rfl
  have hend : Parser.Lags s₁ s₂ ∧
      (Parser.Clean s₂ → (parse source true).program = (parse source false).program) := by
    by_cases hclean : Parser.Clean (Parser.start source false)
    · rw [hlags.same hclean] at h₁
      exact (Parser.follows_program _ _).agrees hclean h₁ h₂
    · obtain ⟨hlags', hdirty⟩ := hlags.of_grows hclean ((Parser.follows_program _ _).grows h₁)
        ((Parser.follows_program _ _).grows h₂)
      exact ⟨hlags', fun hclean' => absurd hclean' hdirty⟩
  rw [hlog₁, hlog₂]
  exact ⟨hend.1.log, hend.2⟩

end Triangle
