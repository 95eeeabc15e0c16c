import Triangle.Proofs.Parsing.Tokenization

/-!
# Tokens are told by their spellings

A token is cut off a text with a look at the character after it.  What that character is does not
matter as long as it cannot be part of the token: then the token is read off its own characters,
wherever they are (`Scan.Stands`).  So a text can be put together from the spellings of tokens
(`Scan.Spells`), and reading it gives these tokens again.
-/

namespace Triangle

/-- Whether a character right after a token of a kind could be taken for a part of it. -/
def Kind.goesOn : Kind → Char → Bool
  | .identifier, c | .keyword _, c => Scan.isWordCharacter c
  | .integer, c => Text.isDigit c
  | .operator, c => Scan.isOperatorCharacter c
  | .colon, c => c = '='
  | .character, c => c = '\''
  | _, _ => false

theorem Kind.goesOn_blank (kind : Kind) : kind.goesOn ' ' = false := by
  cases kind <;> rfl

variable {c value : Char} {run text : List Char} {reader : Reader}

namespace Scan

/-! ## Characters -/

/-- Whether a character can start a word, a number or an operator. -/
def isPlain (c : Char) : Bool := isWordCharacter c || isOperatorCharacter c

theorem ne_of_isPlain {d : Char} (hc : isPlain c = true) (hd : isPlain d = false) : c ≠ d := by
  rintro rfl
  simp [hc] at hd

theorem isBlank_eq_false (h : isPlain c = true) : Text.isBlank c = false := by
  have hrange : 32 < c.toNat ∧ c.toNat < 127 := by
    simp only [isPlain, isWordCharacter, isLetter, Text.isDigit, isOperatorCharacter,
      Bool.or_eq_true, Bool.and_eq_true, decide_eq_true_eq, Char.le_def, UInt32.le_iff_toNat_le,
      List.contains_iff_mem, List.mem_cons, List.not_mem_nil, or_false] at h
    rcases h with ((⟨h₁, h₂⟩ | ⟨h₁, h₂⟩) | ⟨h₁, h₂⟩) | h
    iterate 3 exact ⟨Nat.lt_of_lt_of_le (by decide) h₁, Nat.lt_of_le_of_lt h₂ (by decide)⟩
    rcases h with rfl | rfl | rfl | rfl | rfl | rfl | rfl | rfl | rfl | rfl | rfl | rfl | rfl <;>
      decide
  simp only [Text.isBlank, Text.blankCodes, List.contains_eq_mem, decide_eq_false_iff_not,
    List.mem_cons, List.not_mem_nil, or_false]
  omega

theorem isLetter_of_isDigit (h : Text.isDigit c = true) : isLetter c = false := by
  simp only [Text.isDigit, Bool.and_eq_true, decide_eq_true_eq, Char.le_def,
    UInt32.le_iff_toNat_le] at h
  simp only [isLetter, Bool.or_eq_false_iff, Bool.and_eq_false_iff, decide_eq_false_iff_not,
    Char.le_def, UInt32.le_iff_toNat_le]
  have : '9'.val.toNat < 'A'.val.toNat ∧ '9'.val.toNat < 'a'.val.toNat := by decide
  omega

theorem isOperatorCharacter_iff (h : isOperatorCharacter c = true) :
    isLetter c = false ∧ Text.isDigit c = false := by
  simp only [isOperatorCharacter, List.contains_iff_mem, List.mem_cons, List.not_mem_nil,
    or_false] at h
  rcases h with rfl | rfl | rfl | rfl | rfl | rfl | rfl | rfl | rfl | rfl | rfl | rfl | rfl <;>
    decide

theorem takeWhile_run {p : Char → Bool} {after : List Char} (hrun : ∀ c ∈ run, p c = true)
    (hafter : ∀ c ∈ after.head?, p c = false) :
    (run ++ after).takeWhile p = run ∧ (run ++ after).dropWhile p = after := by
  have hnil : after.takeWhile p = [] ∧ after.dropWhile p = after := by
    cases after with
    | nil => exact ⟨rfl, rfl⟩
    | cons c after => simp [hafter c rfl]
  rw [List.takeWhile_append_of_pos hrun, List.dropWhile_append_of_pos hrun, hnil.1, hnil.2,
    List.append_nil]
  exact ⟨rfl, rfl⟩

/-! ## Tokens that stand for themselves -/

/-- The text starts with no gap. -/
def Bare (text : List Char) : Prop := gap text = ⟨[], [], text⟩

theorem bare_cons (hline : c ≠ '!') (hblank : Text.isBlank c = false)
    (hblock : ¬ ['/', '*'] <+: c :: text) : Bare (c :: text) := by
  rw [Bare, gap, if_neg (by simp [hblank])]
  · exact hline
  · rintro rest rfl rfl
    exact hblock ⟨rest, rfl⟩

/-- The characters are read as a token of the kind, whatever follows that cannot go on it. -/
def Stands (kind : Kind) (run : List Char) : Prop :=
  ∀ after, (∀ c ∈ after.head?, kind.goesOn c = false) →
    Bare (run ++ after) ∧ cut (run ++ after) = ⟨kind, run, none, after⟩

theorem Stands.ne_nil {kind : Kind} (h : Stands kind run) : run ≠ [] := by
  rintro rfl
  obtain ⟨hbare, -⟩ := h [' '] (by simp [Kind.goesOn_blank])
  revert hbare
  simp [Bare, gap, Text.isBlank, Text.blankCodes, Gap.prepend]

/-- A character of words, numbers and operators starts such a token. -/
theorem cut_cons (h : isPlain c = true) (rest : List Char) : cut (c :: rest) =
    if isLetter c then ⟨wordKind (c :: rest.takeWhile isWordCharacter), c :: rest.takeWhile
      isWordCharacter, none, rest.dropWhile isWordCharacter⟩ else if Text.isDigit c then ⟨.integer,
      c :: rest.takeWhile Text.isDigit, integerFault? (c :: rest.takeWhile Text.isDigit),
      rest.dropWhile Text.isDigit⟩ else ⟨.operator, c :: rest.takeWhile isOperatorCharacter, none,
      rest.dropWhile isOperatorCharacter⟩ := by
  have hsign : signKind? c = none := by
    rw [signKind?.eq_def]
    split
    case h_11 => rfl
    all_goals exact absurd rfl (ne_of_isPlain h (by decide))
  rw [cut, hsign]
  · by_cases hletter : isLetter c = true
    · simp [hletter]
    · by_cases hdigit : Text.isDigit c = true
      · simp [hletter, hdigit]
      · have hoperator : isOperatorCharacter c = true := by
          simpa [isPlain, isWordCharacter, hletter, hdigit] using h
        simp [hletter, hdigit, hoperator]
  · exact fun _ hc => absurd hc (ne_of_isPlain h (by decide))
  · exact ne_of_isPlain h (by decide)
  · exact ne_of_isPlain h (by decide)

/-- A run of characters of one class, of which only an operator can start with `/`. -/
theorem stands_run {p : Char → Bool} {kind : Kind} (hc : isPlain c = true)
    (hrun : ∀ d ∈ run, p d = true) (hgoesOn : ∀ d, kind.goesOn d = p d)
    (hblock : c = '/' → p '*' = true ∧ '*' ∉ run.head?) (hcut : ∀ rest, rest.takeWhile p = run →
      cut (c :: rest) = ⟨kind, c :: run, none, rest.dropWhile p⟩) : Stands kind (c :: run) := by
  intro after hafter
  have hafter : ∀ d ∈ after.head?, p d = false := fun d hd => hgoesOn d ▸ hafter d hd
  obtain ⟨htake, hdrop⟩ := takeWhile_run hrun hafter
  refine ⟨bare_cons (ne_of_isPlain hc (by decide)) (isBlank_eq_false hc) ?_, ?_⟩
  · rintro ⟨tail, htail⟩
    obtain ⟨rfl, hstar⟩ := List.cons.inj htail
    obtain ⟨hp, hhead⟩ := hblock rfl
    cases run with
    | nil =>
      obtain rfl : '*' :: tail = after := hstar
      simp [hafter '*' rfl] at hp
    | cons d run =>
      obtain ⟨rfl, -⟩ := List.cons.inj hstar
      exact hhead rfl
  · rw [List.cons_append, hcut _ htake, hdrop]

theorem stands_word (hc : isLetter c = true) (hrun : ∀ d ∈ run, isWordCharacter d = true) :
    Stands (wordKind (c :: run)) (c :: run) := by
  have hplain : isPlain c = true := by simp [isPlain, isWordCharacter, hc]
  refine stands_run hplain hrun (fun d => ?_) ?_ fun rest h => ?_
  · rw [wordKind]
    split <;> rfl
  · rintro rfl
    exact absurd hc (by decide)
  · rw [cut_cons hplain, if_pos hc, h]

theorem stands_integer (hne : run ≠ []) (hrun : ∀ d ∈ run, Text.isDigit d = true)
    (hfault : integerFault? run = none) : Stands .integer run := by
  obtain ⟨c, run, rfl⟩ := List.exists_cons_of_ne_nil hne
  have hc := hrun c List.mem_cons_self
  have hplain : isPlain c = true := by simp [isPlain, isWordCharacter, hc]
  refine stands_run hplain (fun d hd => hrun d (List.mem_cons_of_mem _ hd)) (fun d => rfl) ?_
    fun rest h => ?_
  · rintro rfl
    exact absurd hc (by decide)
  · rw [cut_cons hplain, if_neg (by simp [isLetter_of_isDigit hc]), if_pos hc, h, hfault]

theorem stands_operator (hc : isOperatorCharacter c = true)
    (hrun : ∀ d ∈ run, isOperatorCharacter d = true) (hblock : c = '/' → '*' ∉ run.head?) :
    Stands .operator (c :: run) := by
  have hplain : isPlain c = true := by simp [isPlain, hc]
  obtain ⟨hletter, hdigit⟩ := isOperatorCharacter_iff hc
  refine stands_run hplain hrun (fun d => rfl) (fun h => ⟨by decide, hblock h⟩) fun rest h => ?_
  rw [cut_cons hplain, if_neg (by simp [hletter]), if_neg (by simp [hdigit]), h]

theorem stands_colon : Stands .colon [':'] := by
  refine fun after hafter => ⟨bare_cons (by decide) (by decide) (by simp), ?_⟩
  rw [List.singleton_append, cut]
  rintro rest rfl
  exact absurd (hafter '=' rfl) (by decide)

theorem stands_sign {kind : Kind} (h : signKind? c = some kind) : Stands kind [c] := by
  intro after _
  rw [signKind?.eq_def] at h
  split at h <;> cases h
  all_goals exact ⟨bare_cons (by decide) (by decide) (by simp), rfl⟩

/-- In `'\'` the backslash is no escape, because no quote follows. -/
theorem Quotes.stands (h : Quotes value run) : Stands .character run := by
  have hbare {after : List Char} : Bare ('\'' :: after) :=
    bare_cons (by decide) (by decide) (by simp)
  cases h with
  | plain hline =>
    refine fun after hafter => ⟨hbare, ?_⟩
    have hquote : ∀ rest, after ≠ '\'' :: rest := by
      rintro rest rfl
      cases hafter '\'' rfl
    show cutCharacter (value :: '\'' :: after) = _
    by_cases hvalue : value = '\\'
    · rw [hvalue, cutCharacter]
      exact hquote
    · rw [cutCharacter]
      · exact fun rest h => absurd h hvalue
      · exact hvalue
      · exact hline
  | escape hc => exact fun after _ => ⟨hbare, by simp [cut, cutCharacter, hc]⟩

theorem stands_cut (htext : text ≠ []) (hblock : ¬ ['/', '*'] <+: text) :
    (cut text).fault = none → Stands (cut text).kind (cut text).spelling := by
  fun_cases cut text with
  | case1 => contradiction
  | case2 rest => exact fun _ after _ => ⟨bare_cons (by decide) (by decide) (by simp), rfl⟩
  | case3 rest _ => exact fun _ => stands_colon
  | case4 rest =>
    intro hfault
    have hkind : (cutCharacter rest).kind = .character := by
      revert hfault
      fun_cases cutCharacter rest <;> simp
    obtain ⟨value, hquotes⟩ := (sound_cutCharacter rest).character hkind
    exact hkind ▸ hquotes.stands
  | case5 c rest _ _ _ kind hsign => exact fun _ => stands_sign hsign
  | case6 c rest _ _ _ _ hletter word =>
    exact fun _ => stands_word hletter (List.all_eq_true.1 List.all_takeWhile)
  | case7 c rest _ _ _ _ _ hdigit digits =>
    exact stands_integer (List.cons_ne_nil _ _) (longest_takeWhile hdigit rest).all
  | case8 c rest _ _ _ _ _ _ hoperator =>
    refine fun _ => stands_operator hoperator (List.all_eq_true.1 List.all_takeWhile) ?_
    rintro rfl hstar
    obtain ⟨run, hrun⟩ := List.head?_eq_some_iff.1 hstar
    refine hblock ⟨run ++ rest.dropWhile isOperatorCharacter, ?_⟩
    have heq := List.takeWhile_append_dropWhile (p := isOperatorCharacter) (l := rest)
    rw [hrun] at heq
    simpa using heq
  | case9 => exact fun h => absurd h (by simp)

/-! ## Texts made of tokens -/

/-- A text is made of the given tokens, with blanks where they are needed. -/
inductive Spells : List (Kind × List Char) → List Char → Prop
  | nil : Spells [] []
  | blank {c : Char} {tokens : List (Kind × List Char)} {text : List Char} :
      Text.isBlank c = true → Spells tokens text → Spells tokens (c :: text)
  | token {kind : Kind} {run : List Char} {tokens : List (Kind × List Char)} {text : List Char} :
      Stands kind run → (∀ c ∈ text.head?, kind.goesOn c = false) → Spells tokens text →
      Spells ((kind, run) :: tokens) (run ++ text)

theorem pieces_eq (text : List Char) : pieces text =
    ⟨(gap text).skipped, (gap text).unclosed, (cut (gap text).rest).kind,
      (cut (gap text).rest).spelling, (cut (gap text).rest).fault⟩ ::
      if (gap text).rest = [] then [] else pieces (cut (gap text).rest).rest := by
  conv => lhs; rw [pieces]
  split <;> simp [*]

theorem locate_blank (hc : Text.isBlank c = true) (text : List Char) (position : Position) :
    locate position (pieces (c :: text)) = locate (position.step c) (pieces text) := by
  have hgap : gap (c :: text) = (gap text).prepend [c] := by
    rw [gap, if_pos hc]
    · rintro rfl
      exact absurd hc (by decide)
    · rintro rest rfl
      exact absurd hc (by decide)
  rw [pieces_eq, pieces_eq text, hgap]
  rfl

/-- Scanning a text that is made of tokens gives these tokens and the end, without a fault. -/
theorem Spells.locate {tokens : List (Kind × List Char)} (h : Spells tokens text) :
    ∀ position : Position, (∀ lexeme ∈ locate position (pieces text), lexeme.fault = none) ∧
    (locate position (pieces text)).map (fun lexeme => lexeme.token.content) =
    tokens.map (fun token => (token.1, String.ofList token.2)) ++ [(.endOfText, "")] := by
  induction h with
  | nil =>
    intro position
    rw [pieces_eq]
    simp [gap, cut, Scan.locate, Piece.lexeme, Token.content]
  | blank hc _ ih =>
    intro position
    rw [locate_blank hc]
    exact ih _
  | token hstands hafter _ ih =>
    intro position
    obtain ⟨hbare, hcut⟩ := hstands _ hafter
    rw [pieces_eq, show gap _ = _ from hbare, hcut, if_neg (by simp [hstands.ne_nil]), Scan.locate]
    obtain ⟨hfaults, hcontents⟩ := ih _
    exact ⟨List.forall_mem_cons.2 ⟨rfl, hfaults⟩, congrArg (_ :: ·) hcontents⟩

end Scan

namespace Reader

/-- Tokens without a fault leave the log as it is. -/
theorem log_tokens (reader : Reader) (h : ∀ lexeme ∈ reader.upcoming, lexeme.fault = none) :
    reader.tokens.2.log = reader.log := by
  have hnext : ∀ reader : Reader, (∀ lexeme ∈ reader.upcoming, lexeme.fault = none) →
      reader.next.2.log = reader.log ∧ ∀ lexeme ∈ reader.next.2.upcoming, lexeme.fault = none := by
    intro reader h
    rcases reader.next_cases with heq | ⟨lexeme, rest, -, hupcoming, heq⟩
    · rw [heq]
      exact ⟨rfl, h⟩
    · rw [hupcoming, List.forall_mem_cons] at h
      rw [heq]
      exact ⟨logAfter_of_fault h.1, h.2⟩
  fun_induction Reader.tokens reader with
  | case1 reader _ => exact (hnext reader h).1
  | case2 reader _ rest ih => exact (ih (hnext reader h).2).trans (hnext reader h).1

/-- **A text made of tokens is read as these tokens, without an error.** -/
theorem tokens_of_spells {tokens : List (Kind × List Char)} {source : Source}
    (h : Scan.Spells tokens source.text.toList) (failFast : Bool) :
    (ofSource source failFast).tokens.2.log.errors = 0 ∧
      (ofSource source failFast).tokens.1.map Token.content =
        tokens.map (fun token => (token.1, String.ofList token.2)) ++ [(.endOfText, "")] := by
  obtain ⟨hfaults, hcontents⟩ := h.locate .start
  have hlog : (ofSource source failFast).tokens.2.log.errors = 0 :=
    congrArg Log.errors (log_tokens (ofSource source failFast) hfaults)
  rw [(tokens_eq_lexemes hlog).1, List.map_map]
  exact ⟨hlog, hcontents⟩

end Reader

/-! ## Spacing tokens out -/

/-- What was read without a fault is read the same from its own characters. -/
theorem Lexeme.CutOff.stands {lexeme : Lexeme} (h : lexeme.CutOff text)
    (hfault : lexeme.fault = none) :
    Scan.Stands lexeme.token.kind lexeme.token.spelling.toList := by
  rw [h.fault, Option.map_eq_none_iff] at hfault
  rw [h.kind, h.spelling, String.toList_ofList]
  exact Scan.stands_cut h.ne_nil h.block hfault

namespace Scan

theorem spells_intercalate : ∀ {tokens : List (Kind × List Char)},
    (∀ token ∈ tokens, Stands token.1 token.2) →
      Spells tokens ([' '].intercalate (tokens.map Prod.snd))
  | [], _ => .nil
  | [(kind, run)], h => by
    have hstands := h _ List.mem_cons_self
    simpa using Spells.token hstands (by simp) .nil
  | (kind, run) :: second :: tokens, h => by
    have hstands := h _ List.mem_cons_self
    have hrest := spells_intercalate fun token htoken => h token (List.mem_cons_of_mem _ htoken)
    have hblank := Spells.blank (c := ' ') (by decide) hrest
    simpa [List.intercalate, List.intersperse] using
      Spells.token hstands (by simp [Kind.goesOn_blank]) hblank

end Scan

/-- A text with the given tokens, one space between each two of them. -/
def Source.spaced (name : String) (tokens : List Token) : Source :=
  ⟨name, " ".intercalate (tokens.map Token.spelling)⟩

namespace Reader

/-- **A text whose tokens are spaced out is read as before.** -/
theorem tokens_spaced {source : Source} {failFast : Bool}
    (h : (ofSource source failFast).tokens.2.log.errors = 0) (name : String) (failFast' : Bool) :
    (ofSource (.spaced name (ofSource source failFast).tokens.1.dropLast)
        failFast').tokens.2.log.errors = 0 ∧
      (ofSource (.spaced name (ofSource source failFast).tokens.1.dropLast)
        failFast').tokens.1.map Token.content =
        (ofSource source failFast).tokens.1.map Token.content := by
  obtain ⟨htokens, hfaults⟩ := tokens_eq_lexemes h
  obtain ⟨init, final, hlexemes, hfinal, hinit⟩ := lexemes_eq_append source.text
  rw [hlexemes] at htokens hfaults
  rw [htokens, List.map_append, List.map_singleton, List.dropLast_concat]
  have hstands : ∀ token ∈ init.map fun lexeme =>
      (lexeme.token.kind, lexeme.token.spelling.toList), Scan.Stands token.1 token.2 := by
    refine List.forall_mem_map.2 fun lexeme hlexeme => ?_
    obtain ⟨rest, hcut⟩ := hinit lexeme hlexeme
    exact hcut.stands (hfaults lexeme (List.mem_append_left _ hlexeme))
  have hspells := Scan.spells_intercalate hstands
  have htext : (Source.spaced name (init.map Lexeme.token)).text.toList =
      [' '].intercalate ((init.map fun lexeme =>
        (lexeme.token.kind, lexeme.token.spelling.toList)).map Prod.snd) := by
    simp [Source.spaced, String.toList_intercalate, Function.comp_def]
  rw [← htext] at hspells
  obtain ⟨hlog, hcontents⟩ := tokens_of_spells hspells failFast'
  refine ⟨hlog, ?_⟩
  rw [hcontents, List.map_append, List.map_singleton, hfinal]
  simp [Token.content, Function.comp_def]

/-- Quotes, backslashes and slashes are where a token could be taken for another one. -/
theorem tokens_spaced_quotes :
    (ofSource ⟨"", "a:='\\'/*c*/+/'''"⟩ false).tokens.2.log.errors = 0 ∧
      (ofSource ⟨"", "a := '\\' +/ '''"⟩ true).tokens.1.map Token.content =
        (ofSource ⟨"", "a:='\\'/*c*/+/'''"⟩ false).tokens.1.map Token.content := by
  have h : (ofSource ⟨"", "a:='\\'/*c*/+/'''"⟩ false).tokens.2.log.errors = 0 := by
    decide +kernel
  have htext : Source.spaced "" (ofSource ⟨"", "a:='\\'/*c*/+/'''"⟩ false).tokens.1.dropLast =
      ⟨"", "a := '\\' +/ '''"⟩ := by
    decide +kernel
  exact ⟨h, htext ▸ (tokens_spaced h "" true).2⟩

end Reader

/-! ## The values of literals -/

namespace Scan

theorem Quotes.characterValue? (h : Quotes value run) :
    Literal.characterValue? (String.ofList run) = some value := by
  cases h with
  | plain hline => simp [Literal.characterValue?, Literal.unquoted?]
  | escape hc => simp [Literal.characterValue?, Literal.unquoted?, hc]

theorem quotes_of_characterValue? {spelling : String} (hline : '\n' ∉ spelling.toList)
    (h : Literal.characterValue? spelling = some value) : Quotes value spelling.toList := by
  rw [Literal.characterValue?] at h
  generalize spelling.toList = run at h hline
  split at h
  · rename_i rest
    split at h
    · rename_i hlast
      obtain ⟨body, rfl⟩ := List.getLast?_eq_some_iff.1 hlast
      rw [List.dropLast_concat, Literal.unquoted?.eq_def] at h
      split at h
      · cases h
        exact .plain fun heq => hline (by simp [heq])
      · exact .escape h
      · cases h
    · cases h
  · cases h

end Scan

namespace Reader

theorem Valued.iterate (h : reader.Valued) (n : Nat) :
    ((fun reader => reader.next.2)^[n] reader).Valued := by
  induction n with
  | zero => exact h
  | succ n ih =>
    rw [Function.iterate_succ_apply']
    exact ih.next

/-- Reading an integer reports exactly that it is too great. -/
theorem Valued.next_integer (h : reader.Valued) (hkind : reader.next.1.kind = .integer) :
    reader.next.2.log.diagnostics = reader.log.diagnostics ++
        (if Machine.maxint < Text.decimalValue reader.next.1.spelling.toList then
          [⟨.error, reader.next.1.span, .lexical .integerOverflow⟩] else []) ∧
      (Text.decimalValue reader.next.1.spelling.toList ≤ Machine.maxint →
        Literal.integerValue? reader.next.1.spelling =
          some (Text.decimalValue reader.next.1.spelling.toList : Int)) := by
  rcases reader.next_cases with heq | ⟨lexeme, rest, hhalted, hupcoming, heq⟩
  · simp [heq, Token.endAt] at hkind
  · rw [heq] at hkind ⊢
    obtain ⟨hfault, hvalue⟩ := (h lexeme (hupcoming ▸ List.mem_cons_self)).integer hkind
    rw [Scan.integerFault?] at hfault hvalue
    by_cases hle : (Text.decimalValue lexeme.token.spelling.toList : Int) ≤ Machine.maxint
    · rw [if_pos hle] at hfault hvalue
      rw [if_neg (Int.not_lt.2 hle), List.append_nil]
      exact ⟨congrArg Log.diagnostics (logAfter_of_fault hfault), fun _ => hvalue rfl⟩
    · rw [if_neg hle] at hfault
      rw [if_pos (Int.not_le.1 hle)]
      refine ⟨?_, fun h => absurd h hle⟩
      simp [logAfter, hfault, Log.report, Log.add, hhalted]

theorem Valued.next_character (h : reader.Valued) (hkind : reader.next.1.kind = .character) :
    ∃ value, Scan.Quotes value reader.next.1.spelling.toList := by
  rcases reader.next_cases with heq | ⟨lexeme, rest, -, hupcoming, heq⟩
  · simp [heq, Token.endAt] at hkind
  · rw [heq] at hkind ⊢
    exact (h lexeme (hupcoming ▸ List.mem_cons_self)).character hkind

/-- **What reads the values of literals agrees with what reads literals.**  A character literal
that was read has the value between its quotes, and what has a value is read as a literal; an
integer that was read has its decimal value, unless it was reported to be too great. -/
theorem literals_agree :
    (∀ (source : Source) (failFast : Bool) (n : Nat) (reader : Reader),
      reader = (fun reader => reader.next.2)^[n] (ofSource source failFast) →
      (reader.next.1.kind = .character →
        ∃ value, Scan.Quotes value reader.next.1.spelling.toList ∧
          Literal.characterValue? reader.next.1.spelling = some value) ∧
      (reader.next.1.kind = .integer →
        reader.next.2.log.diagnostics = reader.log.diagnostics ++
          (if Machine.maxint < Text.decimalValue reader.next.1.spelling.toList then
            [⟨.error, reader.next.1.span, .lexical .integerOverflow⟩] else []) ∧
        (Text.decimalValue reader.next.1.spelling.toList ≤ Machine.maxint →
          Literal.integerValue? reader.next.1.spelling =
            some (Text.decimalValue reader.next.1.spelling.toList : Int)))) ∧
    ∀ (name spelling : String) (failFast : Bool), '\n' ∉ spelling.toList →
      (Literal.characterValue? spelling).isSome →
      (ofSource ⟨name, spelling⟩ failFast).tokens.2.log.errors = 0 ∧
      (ofSource ⟨name, spelling⟩ failFast).tokens.1.map Token.content =
        [(.character, spelling), (.endOfText, "")] := by
  refine ⟨?_, fun name spelling failFast hline hvalue => ?_⟩
  · rintro source failFast n reader rfl
    have hvalued := (valued_ofSource source failFast).iterate n
    refine ⟨fun hkind => ?_, hvalued.next_integer⟩
    obtain ⟨value, hquotes⟩ := hvalued.next_character hkind
    exact ⟨value, hquotes, by simpa using hquotes.characterValue?⟩
  · obtain ⟨value, hvalue⟩ := Option.isSome_iff_exists.1 hvalue
    have hstands := (Scan.quotes_of_characterValue? hline hvalue).stands
    have hspells : Scan.Spells [(.character, spelling.toList)]
        (Source.mk name spelling).text.toList := by
      simpa using Scan.Spells.token hstands (by simp) .nil
    simpa using tokens_of_spells hspells failFast

/-- The first integer that is too great is reported, and a quote between quotes is a literal. -/
theorem literals_agree_quotes :
    (ofSource ⟨"", "32768"⟩ true).next.2.log.diagnostics.length = 1 ∧
      (ofSource ⟨"", "'''"⟩ true).tokens.1.map Token.content =
        [(.character, "'''"), (.endOfText, "")] := by
  refine ⟨?_, (literals_agree.2 "" "'''" true (by decide) (by decide)).2⟩
  have h := ((literals_agree.1 ⟨"", "32768"⟩ true 0 _ rfl).2 (by decide +kernel)).1
  rw [if_pos (by decide +kernel)] at h
  exact congrArg List.length h

end Reader

end Triangle
