import Triangle.Proofs.Parsing.Completeness
import Triangle.Proofs.Parsing.Trees

/-!
# Parsing accepts the programs of the grammar

For a text without lexical errors, parsing reports no error exactly if the symbols of the text are
those of an admissible derivation of Program.  There is only one such derivation then, and the tree
that was built is its tree, up to marks.

Two facts about scanning are used: the end of the text is the last token and no other token, and
what could not be read is reported.
-/

namespace Triangle

open Triangle.Symbol (sign)

variable {reader : Reader} {source : Source}

/-! ## The tokens of a text -/

namespace Reader

theorem errors_tokens (h : reader.tokens.2.log.errors = 0) : reader.log.errors = 0 := by
  fun_induction Reader.tokens reader with
  | case1 reader hend => exact errors_next h
  | case2 reader hend rest ih => exact errors_next (ih h)

/-- If scanning reports no error, then no token has a fault, and all tokens were read. -/
theorem tokens_eq_map {init : List Lexeme} {final : Lexeme}
    (hfinal : final.token.kind = .endOfText)
    (hinit : ∀ lexeme ∈ init, lexeme.token.kind ≠ .endOfText)
    (hupcoming : reader.upcoming = init ++ [final]) (h : reader.tokens.2.log.errors = 0) :
    reader.tokens.1 = reader.upcoming.map Lexeme.token ∧
      ∀ lexeme ∈ reader.upcoming, lexeme.fault = none := by
  induction init generalizing reader with
  | nil =>
    have hnext := next_of_upcoming (Log.halted_eq_false (errors_tokens h)) hupcoming
    rw [tokens, hnext, if_pos hfinal] at h ⊢
    simpa [hupcoming] using fault_eq_none h
  | cons lexeme init ih =>
    rw [List.cons_append] at hupcoming
    have hnext := next_of_upcoming (Log.halted_eq_false (errors_tokens h)) hupcoming
    rw [tokens, hnext, if_neg (hinit lexeme List.mem_cons_self)] at h ⊢
    obtain ⟨htokens, hfaults⟩ :=
      ih (fun other hother => hinit other (List.mem_cons_of_mem _ hother))
      rfl h
    refine ⟨?_, fun other hother => ?_⟩
    · simp only [htokens, hupcoming, List.map_cons]
    · rw [hupcoming] at hother
      rcases List.mem_cons.1 hother with rfl | hother
      · exact fault_eq_none (errors_tokens h)
      · exact hfaults other hother

/-- Without errors all tokens of a text are read. -/
theorem tokens_eq_lexemes {failFast : Bool}
    (h : (ofSource source failFast).tokens.2.log.errors = 0) :
    (ofSource source failFast).tokens.1 = (lexemes source.text).map Lexeme.token ∧
      ∀ lexeme ∈ lexemes source.text, lexeme.fault = none := by
  obtain ⟨init, final, hlexemes, hfinal, hinit⟩ := lexemes_eq_append source.text
  refine tokens_eq_map (congrArg Prod.fst hfinal) (fun lexeme hlexeme => ?_) hlexemes h
  obtain ⟨rest, hcut⟩ := hinit lexeme hlexeme
  exact hcut.proper

end Reader

/-- The symbols of a source: its tokens as they are scanned, the last of which is the end. -/
def Source.symbols (source : Source) : List Symbol :=
  (Reader.ofSource source false).tokens.1.map Token.symbol

namespace Parser

/-- Before the first token, a parser stands before all symbols of the text. -/
theorem standsBefore_start (hscan : (Reader.ofSource source false).tokens.2.log.errors = 0) :
    ∃ w, source.symbols = w ++ [sign .endOfText] ∧
      StandsBefore (start source false) w ∧ Clean (start source false) := by
  obtain ⟨init, final, hlexemes, hfinal, hinit⟩ := lexemes_eq_append source.text
  have hupcoming : (Reader.ofSource source false).upcoming = init ++ [final] := hlexemes
  obtain ⟨htokens, hfaults⟩ := Reader.tokens_eq_lexemes hscan
  rw [hlexemes] at htokens hfaults
  have hfinal : final.token.kind = .endOfText := congrArg Prod.fst hfinal
  have hsign : final.token.symbol = sign .endOfText :=
    (Symbol.eq_of hfinal).trans (Symbol.of_closed _ rfl)
  have hsymbols : source.symbols = init.map (fun lexeme => lexeme.token.symbol) ++
      [sign .endOfText] := by
    simp [Source.symbols, htokens, hsign]
  refine ⟨_, hsymbols, ?_⟩
  -- standing before a token not yet read is standing at it once it has been read
  obtain ⟨first, rest, hfirst⟩ : ∃ first rest, init ++ [final] = first :: rest := by
    cases init with
    | nil => exact ⟨final, [], rfl⟩
    | cons lexeme init => exact ⟨lexeme, init ++ [final], rfl⟩
  have hreadable : ∀ lexeme ∈ init,
      lexeme.token.kind ≠ .endOfText ∧ lexeme.token.kind ≠ .faulty := by
    intro lexeme h
    obtain ⟨rest, hcut⟩ := hinit lexeme h
    exact ⟨hcut.proper, hcut.readable (hfaults lexeme (by simp [h]))⟩
  have hkind : first.token.kind ≠ .faulty := by
    have hmem : first ∈ init ++ [final] := by simp [hfirst]
    rcases List.mem_append.1 hmem with h | h
    · exact (hreadable first h).2
    · rw [List.mem_singleton.1 h, hfinal]
      simp
  have hnext := Reader.next_of_upcoming rfl (hupcoming.trans hfirst)
  have hlog : Reader.logAfter (Reader.ofSource source false).log first =
      (Reader.ofSource source false).log :=
    Reader.logAfter_of_fault (hfaults first (by simp [hfirst]))
  have hsignificant : (Reader.ofSource source false).significant =
      (first.token, ⟨rest, Reader.placeAfter first.token,
        (Reader.ofSource source false).log⟩) := by
    rw [Reader.significant, hnext, if_neg hkind, hlog]
  refine ⟨⟨?_, ?_, ?_⟩, ?_⟩
  · simp only [start, hsignificant]
    have h := congrArg (List.map fun lexeme => lexeme.token.symbol) hfirst
    simpa [hsign] using h.symm
  · simp only [start, hsignificant]
    exact fun lexeme h => hfaults lexeme (by simp [hfirst, h])
  · intro symbol hsymbol
    obtain ⟨lexeme, hlexeme, rfl⟩ := List.mem_map.1 hsymbol
    exact hreadable lexeme hlexeme
  · simp only [Clean, start, hsignificant]
    rfl

theorem StandsBefore.eq_nil {s : ParserState} {w : List Symbol} (h : StandsBefore s w)
    (hw : Grammar.nextKind w = .endOfText) : w = [] := by
  cases w with
  | nil => rfl
  | cons symbol rest => exact absurd hw (h.readable symbol List.mem_cons_self).1

end Parser

/-! ## Programs -/

/-- What is parsed without an error is derived, and the tree is that of the derivation. -/
theorem derives_of_parse (hscan : (Reader.ofSource source false).tokens.2.log.errors = 0)
    (hclean : (parse source false).log.errors = 0) :
    ∃ D : Grammar.Program, D.Admissible ∧ D.yield = source.symbols ∧
      (parse source false).program.command.erased = D.command.tree := by
  obtain ⟨w, hsymbols, hstands, -⟩ := Parser.standsBefore_start hscan
  obtain ⟨s', -, hlog, -, D, hstep⟩ := parse_step source false
  have hclean : Parser.Clean s' := by rw [Parser.Clean, ← hlog]; exact hclean
  obtain ⟨-, htree, hadm, hend⟩ := hstep.whole hclean
  obtain ⟨r, rfl, hr⟩ := hstep.stands hclean w hstands
  obtain rfl := hr.eq_nil (hr.kind_eq.symm.trans hend)
  exact ⟨D, hadm, by rw [hsymbols, List.append_nil, Grammar.Program.yield], htree⟩

/-- What an admissible derivation derives is parsed without an error, and the tree is its tree. -/
theorem parse_of_derives (hscan : (Reader.ofSource source false).tokens.2.log.errors = 0)
    {D : Grammar.Program} (hadm : D.Admissible) (hyield : D.yield = source.symbols) :
    (parse source false).log.errors = 0 ∧
      (parse source false).program.command.erased = D.command.tree := by
  have hclean : (parse source false).log.errors = 0 := by
    obtain ⟨w, hsymbols, hstands, hclean⟩ := Parser.standsBefore_start hscan
    obtain ⟨s', hgives, hlog⟩ := parse_gives source false
    obtain rfl : D.command.yield = w := List.append_cancel_right (hyield.trans hsymbols)
    rw [hlog]
    exact (D.accepts hadm _ hstands hclean hgives).2
  -- the tree is that of a derivation, and there is only one
  obtain ⟨D', hadm', hyield', htree⟩ := derives_of_parse hscan hclean
  rw [Grammar.Program.unique hadm hadm' (hyield.trans hyield'.symm)]
  exact ⟨hclean, htree⟩

/-- Without lexical errors, parsing reports no error exactly if the symbols of the source are
those of an admissible derivation of a program; there is only one such derivation, and the tree is
its tree. -/
theorem parse_errors_eq_zero_iff_derives (source : Source)
    (hscan : (Reader.ofSource source false).tokens.2.log.errors = 0) :
    ((parse source false).log.errors = 0 ↔
      ∃ D : Grammar.Program, D.Admissible ∧ D.yield = source.symbols) ∧
    ∀ D : Grammar.Program, D.Admissible → D.yield = source.symbols →
      (parse source false).program.command.erased = D.command.tree ∧
      ∀ D' : Grammar.Program, D'.Admissible → D'.yield = source.symbols → D' = D := by
  refine ⟨⟨fun hclean => ?_, fun hderives => ?_⟩, fun D hadm hyield =>
    ⟨?_, fun D' hadm' hyield' => ?_⟩⟩
  · obtain ⟨D, hadm, hyield, -⟩ := derives_of_parse hscan hclean
    exact ⟨D, hadm, hyield⟩
  · obtain ⟨D, hadm, hyield⟩ := hderives
    exact (parse_of_derives hscan hadm hyield).1
  · exact (parse_of_derives hscan hadm hyield).2
  · exact Grammar.Program.unique hadm' hadm (hyield'.trans hyield.symm)

/-- A source with braces, parentheses and a block. -/
def Source.countdown : Source :=
  ⟨"countdown.tri", "while n > (0) \x7b begin n := n - 1; putint(n) end \x7d"⟩

/-- That source has one derivation, and its tree is the one that is built. -/
theorem countdown_derives :
    (Reader.ofSource .countdown false).tokens.2.log.errors = 0 ∧
      ∃ D : Grammar.Program, D.Admissible ∧ D.yield = Source.countdown.symbols ∧
        (parse .countdown false).program.command.erased = D.command.tree ∧
        ∀ D' : Grammar.Program, D'.Admissible → D'.yield = Source.countdown.symbols → D' = D := by
  have hscan : (Reader.ofSource .countdown false).tokens.2.log.errors = 0 := by decide +kernel
  obtain ⟨hiff, hall⟩ := parse_errors_eq_zero_iff_derives .countdown hscan
  obtain ⟨D, hadm, hyield⟩ := hiff.1 (by decide +kernel)
  obtain ⟨htree, hunique⟩ := hall D hadm hyield
  exact ⟨hscan, D, hadm, hyield, htree, hunique⟩

end Triangle
