import Triangle.Proofs.Diagnostic.Errors
import Triangle.Token.Reader

/-!
# Tokens are spelled as their kinds demand

A literal is kept as it is spelled, and what reads a value off it later on does not complain where
there is none.  So it has to be known that the scanner complained before: an integer token that was
read without a fault is a run of digits whose value is at most `maxint`, and a character token is a
character or an escape between quotes.  A token that could be read stays in its line.

All of this is known of a token that was cut off a text (`Scan.cut`), and all tokens but the last
one are (`lexemes_eq_append`).
-/

namespace Triangle

variable {c : Char} {lexeme : Lexeme} {log : Log Problem}

/-! ## Runs of digits -/

namespace Text

theorem readInteger?_of_digit {rest : List Char} (hc : isDigit c = true)
    (hrest : rest.all isDigit = true) :
    readInteger? (c :: rest) = some (decimalValue (c :: rest) : Int) := by
  have hplus : c ≠ '+' := by rintro rfl; revert hc; decide
  have hminus : c ≠ '-' := by rintro rfl; revert hc; decide
  rw [readInteger?]
  · simp [readNatural?, hc, hrest]
  · rintro digits ⟨⟩
    exact hplus rfl
  · rintro digits ⟨⟩
    exact hminus rfl

end Text

variable {text : List Char} {reader : Reader}

namespace Scan

/-- What a gap leaves starts no comment, and only the end comes after one that is not closed. -/
theorem gap_rest (text : List Char) : ¬ ['/', '*'] <+: (gap text).rest ∧
    ((gap text).rest ≠ [] → (gap text).unclosed = []) := by
  fun_induction gap text with
  | case6 c rest _ hcomment _ =>
    refine ⟨?_, fun _ => rfl⟩
    rintro ⟨tail, htail⟩
    obtain ⟨rfl, rfl⟩ := List.cons.inj htail
    exact hcomment _ rfl rfl
  | _ => simp_all [Gap.prepend]

/-! ## Tokens cut off a text -/

/-- How a character is written as a literal: between quotes, or as an escape between them. -/
inductive Quotes (value : Char) : List Char → Prop
  | plain : value ≠ '\n' → Quotes value ['\'', value, '\'']
  | escape {c : Char} :
      Literal.unescape? c = some value → Quotes value ['\'', '\\', c, '\'']

/-- A token is spelled as its kind demands. -/
structure Cut.Sound (cut : Cut) : Prop where
  proper : cut.kind ≠ .endOfText
  faulty : cut.kind = .faulty → cut.fault ≠ none
  integer : cut.kind = .integer → cut.spelling ≠ [] ∧ cut.spelling.all Text.isDigit = true ∧
    cut.fault = integerFault? cut.spelling
  character : cut.kind = .character → ∃ value, Quotes value cut.spelling

/-- The kinds of the tokens that are not made of one sign or one word. -/
def openKinds : List Kind := [.integer, .character, .endOfText, .faulty]

theorem Cut.Sound.of_kind {cut : Cut} (h : cut.kind ∉ openKinds) : cut.Sound := by
  simp only [openKinds, List.mem_cons, List.not_mem_nil, or_false, not_or] at h
  exact ⟨h.2.2.1, fun hkind => absurd hkind h.2.2.2, fun hkind => absurd hkind h.1,
    fun hkind => absurd hkind h.2.1⟩

theorem sound_cutCharacter (text : List Char) : (cutCharacter text).Sound := by
  fun_cases cutCharacter text with
  | case3 c rest hc =>
    obtain ⟨value, hvalue⟩ := Option.isSome_iff_exists.1 hc
    exact ⟨nofun, nofun, nofun, fun _ => ⟨value, .escape hvalue⟩⟩
  | case5 => exact ⟨nofun, nofun, nofun, fun _ => ⟨'\\', .plain (by decide)⟩⟩
  | case8 c rest _ _ hline => exact ⟨nofun, nofun, nofun, fun _ => ⟨c, .plain hline⟩⟩
  | _ => exact ⟨nofun, nofun, nofun, nofun⟩

/-- What is cut off a text is spelled as its kind demands. -/
theorem sound_cut (htext : text ≠ []) : (cut text).Sound := by
  fun_cases cut text with
  | case1 => contradiction
  | case2 | case3 => exact .of_kind (by simp [openKinds])
  | case4 rest => exact sound_cutCharacter rest
  | case5 c rest _ _ _ kind hsign =>
    rw [signKind?.eq_def] at hsign
    split at hsign <;> cases hsign <;> exact .of_kind (by simp [openKinds])
  | case6 c rest _ _ _ _ _ word =>
    refine .of_kind ?_
    simp only [wordKind]
    split <;> simp [openKinds]
  | case7 c rest _ _ _ _ _ hdigit digits =>
    refine ⟨nofun, nofun, fun _ => ⟨List.cons_ne_nil _ _, ?_, rfl⟩, nofun⟩
    exact List.all_cons.trans (by rw [hdigit, List.all_takeWhile]; rfl)
  | case8 => exact .of_kind (by simp [openKinds])
  | case9 => exact ⟨nofun, fun _ => nofun, nofun, nofun⟩

/-- A run of characters none of which is a line feed stays in its line. -/
theorem newline_not_mem_run {p : Char → Bool} (hp : p '\n' = false) (hc : p c = true)
    (rest : List Char) : '\n' ∉ c :: rest.takeWhile p := by
  rw [List.mem_cons, not_or]
  constructor
  · rintro rfl
    exact Bool.noConfusion (hp.symm.trans hc)
  · intro h
    exact Bool.noConfusion (hp.symm.trans (List.all_eq_true.1 List.all_takeWhile _ h))

/-- A token that could be read stays in its line. -/
theorem newline_not_mem_cut (h : (cut text).kind ≠ .faulty) : '\n' ∉ (cut text).spelling := by
  fun_cases cut text with
  | case1 | case2 | case3 => simp
  | case4 rest =>
    rw [cut] at h
    fun_cases cutCharacter rest with
    | case3 c rest hc =>
      have hne : '\n' ≠ c := by rintro rfl; simp [Literal.unescape?] at hc
      simp [hne]
    | case5 => simp
    | case8 c rest _ _ hline => simp [Ne.symm hline]
    | _ => simp [cutCharacter, *] at h
  | case5 c rest _ _ _ kind hsign =>
    have hne : '\n' ≠ c := by rintro rfl; simp [signKind?] at hsign
    simp [hne]
  | case6 c rest _ _ _ _ hletter =>
    exact newline_not_mem_run (by decide) (by simp [isWordCharacter, hletter]) rest
  | case7 c rest _ _ _ _ _ hdigit => exact newline_not_mem_run (by decide) hdigit rest
  | case8 c rest _ _ _ _ _ _ hoperator => exact newline_not_mem_run (by decide) hoperator rest
  | case9 => simp [cut, *] at h

/-- What reads the value of a run of digits complains exactly where the scanner does. -/
theorem integerValue?_of_digits {digits : List Char} (hne : digits ≠ [])
    (hdigits : digits.all Text.isDigit = true) (hfault : integerFault? digits = none) :
    Literal.integerValue? (String.ofList digits) = some (Text.decimalValue digits : Int) := by
  obtain ⟨c, rest, rfl⟩ := List.exists_cons_of_ne_nil hne
  obtain ⟨hc, hrest⟩ := Bool.and_eq_true_iff.1 (List.all_cons.symm.trans hdigits)
  have hle : (Text.decimalValue (c :: rest) : Int) ≤ Machine.maxint := by
    refine Decidable.byContradiction fun h => ?_
    simp [integerFault?, Int.not_le.1 h] at hfault
  have hfits : Word.fits (Text.decimalValue (c :: rest)) = true := by
    rw [Word.fits_iff]
    simp only [Word.least, Word.greatest, Machine.maxint] at *
    omega
  rw [Literal.integerValue?, String.toList_ofList, Text.readInteger?_of_digit hc hrest]
  simp [Option.filter, hfits, hle]

end Scan

/-! ## Tokens of a text -/

/-- A token apart from its place. -/
def Token.content (token : Token) : Kind × String := (token.kind, token.spelling)

/-- A token is cut off the head of a text that starts with no gap. -/
structure Lexeme.CutOff (lexeme : Lexeme) (text : List Char) : Prop where
  ne_nil : text ≠ []
  block : ¬ ['/', '*'] <+: text
  kind : lexeme.token.kind = (Scan.cut text).kind
  spelling : lexeme.token.spelling = String.ofList (Scan.cut text).spelling
  fault : lexeme.fault = (Scan.cut text).fault.map (lexeme.token.span, ·)

/-- The last token of a text is its end, and each other one is cut off. -/
theorem Scan.locate_eq_append (text : List Char) : ∀ position : Position, ∃ init final,
    locate position (pieces text) = init ++ [final] ∧ final.token.content = (.endOfText, "") ∧
      ∀ lexeme ∈ init, ∃ rest, lexeme.CutOff rest := by
  fun_induction pieces text with
  | case1 text gap cut piece hrest =>
    intro position
    refine ⟨[], piece.lexeme position, rfl, ?_, by simp⟩
    simp only [Token.content, Piece.lexeme, piece, cut, hrest]
    rfl
  | case2 text gap cut piece hrest _ ih =>
    intro position
    obtain ⟨init, final, hlocate, hfinal, hinit⟩ := ih (position.after piece.text)
    refine ⟨piece.lexeme position :: init, final, ?_, hfinal, List.forall_mem_cons.2 ⟨?_, hinit⟩⟩
    · rw [locate, hlocate, List.cons_append]
    · refine ⟨gap.rest, hrest, (gap_rest text).1, rfl, rfl, ?_⟩
      have hunclosed : piece.unclosed = [] := (gap_rest text).2 hrest
      simp only [Piece.lexeme, hunclosed, List.isEmpty_nil, if_true]
      rfl

/-- The end of the text comes last, and all before it are cut off. -/
theorem lexemes_eq_append (text : String) : ∃ init final, lexemes text = init ++ [final] ∧
    final.token.content = (.endOfText, "") ∧ ∀ lexeme ∈ init, ∃ rest, lexeme.CutOff rest :=
  Scan.locate_eq_append text.toList .start

/-- The token is the end of the text, or cut off. -/
def Lexeme.Scanned (lexeme : Lexeme) : Prop :=
  lexeme.token.content = (.endOfText, "") ∨ ∃ text, lexeme.CutOff text

namespace Lexeme

variable {lexeme : Lexeme}

theorem CutOff.sound (h : lexeme.CutOff text) : (Scan.cut text).Sound := Scan.sound_cut h.ne_nil

theorem CutOff.proper (h : lexeme.CutOff text) :
    lexeme.token.kind ≠ .endOfText := h.kind ▸ h.sound.proper

/-- What could not be read has a fault. -/
theorem CutOff.readable (h : lexeme.CutOff text) (hfault : lexeme.fault = none) :
    lexeme.token.kind ≠ .faulty := by
  intro hkind
  have hne := h.sound.faulty (h.kind ▸ hkind)
  rw [h.fault, Option.map_eq_none_iff] at hfault
  exact hne hfault

theorem Scanned.integer (h : lexeme.Scanned) (hkind : lexeme.token.kind = .integer) :
    lexeme.fault = (Scan.integerFault? lexeme.token.spelling.toList).map (lexeme.token.span, ·) ∧
      (Scan.integerFault? lexeme.token.spelling.toList = none →
        Literal.integerValue? lexeme.token.spelling =
          some (Text.decimalValue lexeme.token.spelling.toList : Int)) := by
  rcases h with h | ⟨text, h⟩
  · cases (congrArg Prod.fst h).symm.trans hkind
  · obtain ⟨hne, hdigits, hfault⟩ := h.sound.integer (h.kind ▸ hkind)
    have heq := h.fault
    rw [hfault] at heq
    rw [heq, h.spelling, String.toList_ofList]
    exact ⟨rfl, Scan.integerValue?_of_digits hne hdigits⟩

theorem Scanned.character (h : lexeme.Scanned) (hkind : lexeme.token.kind = .character) :
    ∃ value, Scan.Quotes value lexeme.token.spelling.toList := by
  rcases h with h | ⟨text, h⟩
  · cases (congrArg Prod.fst h).symm.trans hkind
  · rw [h.spelling, String.toList_ofList]
    exact h.sound.character (h.kind ▸ hkind)

theorem Scanned.line (h : lexeme.Scanned) (hkind : lexeme.token.kind ≠ .faulty) :
    '\n' ∉ lexeme.token.spelling.toList := by
  rcases h with h | ⟨text, h⟩
  · simp [show lexeme.token.spelling = "" from congrArg Prod.snd h]
  · rw [h.spelling, String.toList_ofList]
    exact Scan.newline_not_mem_cut (h.kind ▸ hkind)

end Lexeme

/-! ## Reading -/

namespace Reader

theorem next_of_upcoming {rest : List Lexeme} (hlog : reader.log.halted = false)
    (h : reader.upcoming = lexeme :: rest) :
    reader.next = (lexeme.token, ⟨rest, placeAfter lexeme.token, logAfter reader.log lexeme⟩) := by
  simp [next, hlog, h]

/-- There is an end, or the next token is read. -/
theorem next_cases (reader : Reader) : reader.next = (.endAt reader.place, reader) ∨
    ∃ lexeme rest, reader.log.halted = false ∧ reader.upcoming = lexeme :: rest ∧
      reader.next =
        (lexeme.token, ⟨rest, placeAfter lexeme.token, logAfter reader.log lexeme⟩) := by
  cases hhalted : reader.log.halted with
  | true => exact .inl (by rw [next, if_pos hhalted])
  | false =>
    cases hupcoming : reader.upcoming with
    | nil => exact .inl (by simp [next, hhalted, hupcoming])
    | cons lexeme rest => exact .inr ⟨lexeme, rest, rfl, rfl, next_of_upcoming hhalted hupcoming⟩

/-- A lexeme that brings no error has no fault. -/
theorem fault_eq_none (h : (logAfter log lexeme).errors = 0) : lexeme.fault = none := by
  cases hfault : lexeme.fault with
  | none => rfl
  | some fault =>
    simp only [logAfter, hfault] at h
    exact absurd h (Log.errors_report_ne_zero _ _ _)

theorem logAfter_of_fault (h : lexeme.fault = none) : logAfter log lexeme = log := by
  rw [logAfter, h]

/-- Reading a token takes no error back. -/
theorem errors_next (h : reader.next.2.log.errors = 0) : reader.log.errors = 0 := by
  rcases reader.next_cases with heq | ⟨lexeme, rest, -, -, heq⟩
  · rwa [heq] at h
  · rw [heq] at h
    rwa [logAfter_of_fault (fault_eq_none h)] at h

/-- Passing over faulty tokens takes no error back. -/
theorem errors_significant (h : reader.significant.2.log.errors = 0) : reader.log.errors = 0 := by
  fun_induction Reader.significant reader with
  | case1 reader hfaulty ih => exact errors_next (ih h)
  | case2 reader hfaulty => exact errors_next h

/-- The tokens to come are spelled as their kinds demand. -/
def Valued (reader : Reader) : Prop :=
  ∀ lexeme ∈ reader.upcoming, lexeme.Scanned

theorem valued_ofSource (source : Source) (failFast : Bool) :
    (ofSource source failFast).Valued := by
  obtain ⟨init, final, heq, hfinal, hinit⟩ := lexemes_eq_append source.text
  rw [Valued, show (ofSource source failFast).upcoming = _ from heq]
  exact List.forall_mem_append.2
    ⟨fun lexeme h => .inr (hinit lexeme h), List.forall_mem_singleton.2 (.inl hfinal)⟩

theorem Valued.next (h : reader.Valued) : reader.next.2.Valued := by
  rcases reader.next_cases with heq | ⟨lexeme, rest, -, hupcoming, heq⟩
  · rwa [heq]
  · rw [heq]
    exact fun other hmem => h other (hupcoming ▸ List.mem_cons_of_mem _ hmem)

theorem Valued.significant (h : reader.Valued) : reader.significant.2.Valued := by
  fun_induction Reader.significant reader with
  | case1 reader hfaulty ih => exact ih h.next
  | case2 reader hfaulty => exact h.next

theorem Valued.significant_integer (h : reader.Valued) (hlog : reader.significant.2.log.errors = 0)
    (hkind : reader.significant.1.kind = .integer) :
    (Literal.integerValue? reader.significant.1.spelling).isSome := by
  fun_induction Reader.significant reader with
  | case1 reader hfaulty ih => exact ih h.next hlog hkind
  | case2 reader hfaulty =>
    rcases reader.next_cases with heq | ⟨lexeme, rest, -, hupcoming, heq⟩
    · simp [heq, Token.endAt] at hkind
    · rw [heq] at hlog hkind ⊢
      obtain ⟨hfault, hvalue⟩ := (h lexeme (hupcoming ▸ List.mem_cons_self)).integer hkind
      rw [fault_eq_none hlog, eq_comm, Option.map_eq_none_iff] at hfault
      rw [hvalue hfault]
      rfl

theorem Valued.significant_line (h : reader.Valued) :
    '\n' ∉ reader.significant.1.spelling.toList := by
  fun_induction Reader.significant reader with
  | case1 reader hfaulty ih => exact ih h.next
  | case2 reader hfaulty =>
    rcases reader.next_cases with heq | ⟨lexeme, rest, -, hupcoming, heq⟩
    · simp [heq, Token.endAt]
    · rw [heq] at hfaulty ⊢
      exact (h lexeme (hupcoming ▸ List.mem_cons_self)).line hfaulty

end Reader

end Triangle
