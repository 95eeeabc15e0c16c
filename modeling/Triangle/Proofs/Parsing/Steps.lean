import Triangle.Proofs.Parsing.Derivations
import Triangle.Proofs.Parsing.Tokens
import Triangle.Syntax.Parser.State

/-!
# What a parser does to its state

A parser reads tokens, hands out identities and complains.  `Parser.Moves` says what is known of
the states before and after: how many identities were handed out, that no token came back and no
complaint was taken back, and that the current token is still spelled as its kind demands.
`Parser.StandsBefore` says which symbols of the grammar are still to be read.
-/

namespace Triangle

variable {u : Unit} {kind : Kind} {m : Mark} {expected : Expectation} {start : Span}

/-- A token that is read is one less to come, unless it is the end of the text. -/
theorem Reader.significant_upcoming (reader : Reader) :
    reader.significant.2.upcoming.length +
      (if reader.significant.1.kind = .endOfText then 0 else 1) ≤ reader.upcoming.length := by
  fun_induction Reader.significant reader with
  | case1 reader hfaulty ih =>
    have hnext := next_upcoming_length reader (by rw [hfaulty]; decide)
    omega
  | case2 reader hfaulty =>
    by_cases hend : reader.next.1.kind = .endOfText
    · rw [if_pos hend, Nat.add_zero, Reader.next]
      split
      · exact Nat.le_refl _
      · split
        · exact Nat.le_refl _
        · rename_i heq
          simp [heq]
    · rw [if_neg hend]
      exact next_upcoming_length reader hend

/-- The number of tokens that are left, with the current one unless it is the end of the text. -/
def ParserState.left (s : ParserState) : Nat :=
  s.reader.upcoming.length + (if s.current.kind = .endOfText then 0 else 1)

variable {token : Token} {t : Terminal}

namespace Parser

open Grammar (nextKind)
open Triangle.Symbol (sign)

variable {α β : Type} {s s' : ParserState}

/-! ## Runs -/

/-- A run: at the state `s` the parser gives the result `a` and goes to `s'`. -/
def Gives (x : Parser α) (s : ParserState) (a : α) (s' : ParserState) : Prop :=
  x.run s = some (a, s')

@[simp] theorem gives_pure {a b : α} : Gives (pure a) s b s' ↔ a = b ∧ s = s' := by
  rw [Gives, StateT.run_pure]
  simp [pure]

@[simp] theorem gives_bind {x : Parser α} {f : α → Parser β} {b : β} :
    Gives (x >>= f) s b s' ↔ ∃ a t, Gives x s a t ∧ Gives (f a) t b s' := by
  rw [Gives, StateT.run_bind]
  simp [Gives, Option.bind_eq_some_iff]

@[simp] theorem gives_failure {a : α} : ¬ Gives (failure : Parser α) s a s' := by
  simp [Gives, failure, StateT.failure, StateT.run]

@[simp] theorem gives_get {t : ParserState} : Gives get s t s' ↔ s = t ∧ s = s' := by
  rw [Gives, StateT.run_get]
  simp [pure]

@[simp] theorem gives_modify {f : ParserState → ParserState} {u : PUnit} :
    Gives (modify f) s u s' ↔ f s = s' := by
  rw [Gives, StateT.run_modify]
  simp [pure]

@[simp] theorem gives_modifyGet {f : ParserState → α × ParserState} {a : α} :
    Gives (modifyGet f) s a s' ↔ (f s).1 = a ∧ (f s).2 = s' := by
  rw [Gives, StateT.run_modifyGet]
  simp [pure, Prod.ext_iff]

/-! ## Looking at the current token -/

@[simp] theorem gives_kind : Gives Parser.kind s kind s' ↔ s.current.kind = kind ∧ s = s' := by
  simp only [Parser.kind, gives_bind, gives_get, gives_pure]
  constructor
  · rintro ⟨_, _, ⟨rfl, rfl⟩, h, rfl⟩
    exact ⟨h, rfl⟩
  · rintro ⟨h, rfl⟩
    exact ⟨s, s, ⟨rfl, rfl⟩, h, rfl⟩

@[simp] theorem gives_looksAt {b : Bool} :
    Gives (looksAt kind) s b s' ↔ decide (s.current.kind = kind) = b ∧ s = s' := by
  simp only [looksAt, gives_bind, gives_kind, gives_pure]
  constructor
  · rintro ⟨_, _, ⟨rfl, rfl⟩, h, rfl⟩
    exact ⟨h, rfl⟩
  · rintro ⟨h, rfl⟩
    exact ⟨s.current.kind, s, ⟨rfl, rfl⟩, h, rfl⟩

@[simp] theorem gives_here {span : Span} :
    Gives here s span s' ↔ s.current.span = span ∧ s = s' := by
  simp only [here, gives_bind, gives_get, gives_pure]
  constructor
  · rintro ⟨_, _, ⟨rfl, rfl⟩, h, rfl⟩
    exact ⟨h, rfl⟩
  · rintro ⟨h, rfl⟩
    exact ⟨s, s, ⟨rfl, rfl⟩, h, rfl⟩

/-! ## Moves -/

/-- No error was reported so far. -/
def Clean (s : ParserState) : Prop := s.reader.log.errors = 0

/-- Tokens are spelled as their kinds demand: each on one line, and integers
that were read without a fault like numbers. -/
structure Valued (s : ParserState) : Prop where
  reader : s.reader.Valued
  integer : Clean s → s.current.kind = .integer →
    (Literal.integerValue? s.current.spelling).isSome
  line : '\n' ∉ s.current.spelling.toList

/-- A move from one state to another in which some identities were handed out. -/
structure Moves (s : ParserState) (count : Nat) (s' : ParserState) : Prop where
  issued : s'.issued = s.issued + count
  left : s'.left ≤ s.left
  clean : Clean s' → Clean s
  valued : Valued s → Valued s'

/-- Moves compose, and the identities they take add up. -/
theorem Moves.trans {t : ParserState} {m n : Nat} (h₁ : Moves s m t) (h₂ : Moves t n s') :
    Moves s (m + n) s' :=
  ⟨by rw [h₂.issued, h₁.issued, Nat.add_assoc], Nat.le_trans h₂.left h₁.left,
    h₁.clean ∘ h₂.clean, h₂.valued ∘ h₁.valued⟩

theorem moves_advance (h : Gives advance s token s') : token = s.current ∧ Moves s 0 s' := by
  obtain ⟨rfl, rfl⟩ := gives_modifyGet.1 h
  have hleft := Reader.significant_upcoming s.reader
  refine ⟨rfl, rfl, ?_, Reader.errors_significant, fun hvalued => ?_⟩
  · simp only [ParserState.left]
    omega
  · exact ⟨hvalued.reader.significant, hvalued.reader.significant_integer,
      hvalued.reader.significant_line⟩

/-- A token that is passed is not left, unless it is the end of the text. -/
theorem left_advance (h : Gives advance s token s') (hkind : s.current.kind ≠ .endOfText) :
    s'.left < s.left := by
  obtain ⟨-, rfl⟩ := gives_modifyGet.1 h
  have hleft := Reader.significant_upcoming s.reader
  simp only [ParserState.left, if_neg hkind]
  omega

/-- A complaint is an error. -/
theorem moves_complain (h : Gives (complain expected) s u s') : Moves s 0 s' ∧ ¬ Clean s' := by
  have h := gives_modify.1 h
  have hdirty : ¬ Clean s' := by
    rw [Clean, ← h]
    exact Log.errors_report_ne_zero _ _ _
  subst h
  exact ⟨⟨rfl, Nat.le_refl _, fun hclean => absurd hclean hdirty, fun hvalued =>
    ⟨hvalued.reader, fun hclean => absurd hclean hdirty, hvalued.line⟩⟩, hdirty⟩

theorem moves_fresh {id : NodeId} (h : Gives fresh s id s') : id = s.issued ∧ Moves s 1 s' := by
  obtain ⟨rfl, rfl⟩ := gives_modifyGet.1 h
  exact ⟨rfl, rfl, Nat.le_refl _, fun h => h, fun h => ⟨h.reader, h.integer, h.line⟩⟩

theorem gives_node (h : Gives (node start) s m s') : Gives fresh s m.id s' := by
  simp only [node, gives_bind, gives_get, gives_pure] at h
  obtain ⟨id, t, h, _, _, ⟨-, rfl⟩, rfl, rfl⟩ := h
  exact h

theorem moves_node (h : Gives (node start) s m s') : m.id = s.issued ∧ Moves s 1 s' :=
  moves_fresh (gives_node h)

/-- A terminal is spelled as the current token and takes one identity. -/
theorem moves_terminal (h : Gives terminal s t s') :
    t.mark.id = s.issued ∧ t.spelling = s.current.spelling ∧ Moves s 1 s' ∧
      (s.current.kind ≠ .endOfText → s'.left < s.left) := by
  simp only [terminal, gives_bind, gives_pure] at h
  obtain ⟨token, u, h₁, id, v, h₂, rfl, rfl⟩ := h
  obtain ⟨rfl, hadvance⟩ := moves_advance h₁
  obtain ⟨rfl, hfresh⟩ := moves_fresh h₂
  exact ⟨hadvance.issued, rfl, hadvance.trans hfresh,
    fun hkind => Nat.lt_of_le_of_lt hfresh.left (left_advance h₁ hkind)⟩

theorem gives_missing (h : Gives missing s t s') :
    t.spelling = "" ∧ Gives fresh s t.mark.id s' := by
  simp only [missing, gives_bind, gives_here, gives_pure] at h
  obtain ⟨_, _, ⟨-, rfl⟩, id, u, h, rfl, rfl⟩ := h
  exact ⟨rfl, h⟩

/-- Recovering complains. -/
theorem moves_recover (h : Gives (recover expected) s u s') : Moves s 0 s' ∧ ¬ Clean s' := by
  simp only [recover, gives_bind, gives_kind] at h
  obtain ⟨_, t, h₁, _, _, ⟨rfl, rfl⟩, h⟩ := h
  obtain ⟨hmoves, hdirty⟩ := moves_complain h₁
  split at h
  · obtain ⟨-, rfl⟩ := gives_pure.1 h
    exact ⟨hmoves, hdirty⟩
  · simp only [gives_bind, gives_pure] at h
    obtain ⟨token, v, h₂, -, rfl⟩ := h
    obtain ⟨-, hadvance⟩ := moves_advance h₂
    exact ⟨hmoves.trans hadvance, fun hclean => hdirty (hadvance.clean hclean)⟩

/-! ## What a parser stands before -/

variable {w : List Symbol}

/-- The parser stands before some symbols and then the end of the text, with no fault to come. -/
structure StandsBefore (s : ParserState) (w : List Symbol) : Prop where
  symbols : s.current.symbol :: s.reader.upcoming.map (fun lexeme => lexeme.token.symbol) =
    w ++ [sign .endOfText]
  faultless : ∀ lexeme ∈ s.reader.upcoming, lexeme.fault = none
  readable : ∀ symbol ∈ w, symbol.kind ≠ .endOfText ∧ symbol.kind ≠ .faulty

theorem StandsBefore.kind_eq (h : StandsBefore s w) : s.current.kind = nextKind w := by
  have hhead := h.symbols
  cases w with
  | nil => exact congrArg Symbol.kind (List.cons.inj hhead).1
  | cons symbol rest => exact congrArg Symbol.kind (List.cons.inj hhead).1

/-- Identities are handed out without a look at the text. -/
theorem StandsBefore.fresh {id : NodeId} (h : StandsBefore s w) (hgives : Gives fresh s id s') :
    StandsBefore s' w ∧ (Clean s → Clean s') := by
  obtain ⟨-, rfl⟩ := gives_modifyGet.1 hgives
  exact ⟨⟨h.symbols, h.faultless, h.readable⟩, fun h => h⟩

/-- A token that is not the end is the first of the symbols. -/
theorem StandsBefore.eq_cons (h : StandsBefore s w) (hkind : s.current.kind ≠ .endOfText) :
    ∃ r, w = s.current.symbol :: r := by
  cases w with
  | nil => exact absurd h.kind_eq hkind
  | cons symbol rest => exact ⟨rest, by rw [(List.cons.inj h.symbols).1]⟩

/-- The first of the symbols to come is passed. -/
theorem StandsBefore.advance {symbol : Symbol} (h : StandsBefore s (symbol :: w)) (hclean : Clean s)
    (hgives : Gives advance s token s') : StandsBefore s' w ∧ Clean s' := by
  obtain ⟨rfl, rfl⟩ := gives_modifyGet.1 hgives
  have hrest := (List.cons.inj h.symbols).2
  obtain ⟨lexeme, rest, hupcoming⟩ : ∃ lexeme rest, s.reader.upcoming = lexeme :: rest := by
    cases hu : s.reader.upcoming with
    | nil => simp [hu] at hrest
    | cons lexeme rest => exact ⟨lexeme, rest, rfl⟩
  rw [hupcoming, List.map_cons] at hrest
  have hfault : lexeme.fault = none := h.faultless lexeme (by simp [hupcoming])
  have hkind : lexeme.token.kind ≠ .faulty := by
    cases w with
    | nil =>
      have hend := congrArg Symbol.kind (List.cons.inj hrest).1
      simp only [Token.symbol, Symbol.of, sign] at hend
      simp [hend]
    | cons other more =>
      have hother := congrArg Symbol.kind (List.cons.inj hrest).1
      have hreadable := (h.readable other (by simp)).2
      rwa [← hother] at hreadable
  have hsignificant : s.reader.significant =
      (lexeme.token, ⟨rest, Reader.placeAfter lexeme.token, s.reader.log⟩) := by
    rw [Reader.significant, Reader.next_of_upcoming (Log.halted_eq_false hclean) hupcoming,
      if_neg hkind, Reader.logAfter_of_fault hfault]
  refine ⟨⟨?_, ?_, ?_⟩, ?_⟩
  · simp only [hsignificant]
    exact hrest
  · simp only [hsignificant]
    exact fun other hother => h.faultless other (by simp [hupcoming, hother])
  · exact fun other hother => h.readable other (List.mem_cons_of_mem _ hother)
  · simp only [Clean, hsignificant]
    exact hclean

end Parser

end Triangle
