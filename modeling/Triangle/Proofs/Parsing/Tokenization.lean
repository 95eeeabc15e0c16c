import Mathlib.Logic.Function.Iterate
import Triangle.Proofs.Parsing.Exactness

/-!
# Scanning loses nothing

A text is told by its tokens and the gaps between them.  `Tokenized` is the rule for this, stated
without the scanner: each gap is made of blanks and whole comments, each token is as long as the
characters after it allow, and only the last gap may end in a comment that is not closed.

The rule is proved of the scanner along `Scan.pieces`: one step takes a gap (`separates_gap`) and a
token (`spelled_cut`) off the text.
-/

namespace Triangle

variable {unclosed : Bool} {tokens : List Token} {p : Char → Bool} {c : Char} {log : Log Problem}

variable {text : List Char}

namespace Scan

/-! ## The rule -/

/-- Text that only separates tokens, where `after` follows it: blanks, line comments that run to
the end of their line, and block comments that run to the first sign that closes them. -/
inductive Separates (after : List Char) : List Char → Prop
  | nil : Separates after []
  | blank {c : Char} {text : List Char} :
      Text.isBlank c = true → Separates after text → Separates after (c :: text)
  | line {comment text : List Char} :
      '\n' ∉ comment → (∀ c ∈ (text ++ after).head?, c = '\n') → Separates after text →
      Separates after ('!' :: (comment ++ text))
  | block {comment text : List Char} :
      ¬ ['*', '/'] <:+: comment ++ ['*'] → Separates after text →
      Separates after ('/' :: '*' :: (comment ++ '*' :: '/' :: text))

/-- The longest run of characters of a class at the head of `run ++ after`. -/
structure Longest (p : Char → Bool) (run after : List Char) : Prop where
  ne_nil : run ≠ []
  all : ∀ c ∈ run, p c = true
  stop : ∀ c ∈ after.head?, p c = false

/-- The characters of a token of each kind, where `after` follows it.  Only characters that start
no other token, and quotes, start what cannot be read. -/
inductive Spelled (after : List Char) : Kind → List Char → Prop
  | identifier {c : Char} {run : List Char} :
      isLetter c = true → Longest isWordCharacter (c :: run) after →
      (∀ word ∈ Keyword.all, word.spelling ≠ String.ofList (c :: run)) →
      Spelled after .identifier (c :: run)
  | keyword {word : Keyword} :
      word ∈ Keyword.all → Longest isWordCharacter word.spelling.toList after →
      Spelled after (.keyword word) word.spelling.toList
  | integer {run : List Char} : Longest Text.isDigit run after → Spelled after .integer run
  | operator {run : List Char} :
      Longest isOperatorCharacter run after → ¬ ['/', '*'] <+: run ++ after →
      Spelled after .operator run
  | becomes : Spelled after .becomes [':', '=']
  | colon : '=' ∉ after.head? → Spelled after .colon [':']
  | sign {c : Char} {kind : Kind} : signKind? c = some kind → Spelled after kind [c]
  | character {body : List Char} : Spelled after .character ('\'' :: (body ++ ['\'']))
  | faulty {c : Char} {run : List Char} :
      isWordCharacter c = false → isOperatorCharacter c = false → signKind? c = none → c ≠ ':' →
      Spelled after .faulty (c :: run)

/-- A text as the tokens in it, with a gap before each; the last token is the end of the text.
Whether the gap before the end ends in a comment that is not closed is told apart. -/
inductive Tokenized : Bool → List Char → List Token → Prop
  | finish {gap : List Char} {stop : Position} :
      Separates [] gap → Tokenized false gap [.endAt stop]
  | unclosed {gap comment : List Char} {stop : Position} :
      Separates ('/' :: '*' :: comment) gap → ¬ ['*', '/'] <:+: comment →
      Tokenized true (gap ++ '/' :: '*' :: comment) [.endAt stop]
  | token {unclosed : Bool} {gap rest : List Char} {token : Token} {tokens : List Token} :
      Separates (token.spelling.toList ++ rest) gap →
      Spelled rest token.kind token.spelling.toList → Tokenized unclosed rest tokens →
      Tokenized unclosed (gap ++ (token.spelling.toList ++ rest)) (token :: tokens)

theorem Spelled.ne_nil {after run : List Char} {kind : Kind} (h : Spelled after kind run) :
    run ≠ [] := by
  cases h with
  | integer h => exact h.ne_nil
  | operator h _ => exact h.ne_nil
  | keyword _ h => exact h.ne_nil
  | _ => exact List.cons_ne_nil _ _

/-- Each token but the last one takes up a character. -/
theorem Tokenized.length_le (h : Tokenized unclosed text tokens) :
    tokens.length ≤ text.length + 1 := by
  induction h with
  | finish _ => simp
  | unclosed _ _ => simp
  | token _ hspelled _ ih =>
    have hpos := List.length_pos_iff.2 hspelled.ne_nil
    simp only [List.length_cons, List.length_append]
    omega

theorem Tokenized.spelling_ne (h : Tokenized unclosed text tokens) :
    ∀ token ∈ tokens, token.kind ≠ .endOfText → token.spelling ≠ "" := by
  induction h with
  | finish _ => simp [Token.endAt]
  | unclosed _ _ => simp [Token.endAt]
  | token _ hspelled _ ih =>
    intro other hmem hkind
    rcases List.mem_cons.1 hmem with rfl | hmem
    · intro hempty
      exact hspelled.ne_nil (by rw [hempty]; rfl)
    · exact ih other hmem hkind

/-! ## Gaps -/

theorem closeComment_some {closed rest : List Char} (h : closeComment text = some (closed, rest)) :
    ∃ comment, closed = comment ++ ['*', '/'] ∧ text = comment ++ '*' :: '/' :: rest ∧
      ¬ ['*', '/'] <:+: comment ++ ['*'] := by
  fun_induction closeComment text generalizing closed with
  | case1 => simp at h
  | case2 rest' =>
    obtain ⟨rfl, rfl⟩ := Prod.mk.inj (Option.some.inj h)
    exact ⟨[], rfl, rfl, by decide⟩
  | case3 c text' hstar ih =>
    obtain ⟨⟨closed', rest'⟩, hclosed, heq⟩ := Option.map_eq_some_iff.1 h
    obtain ⟨rfl, rfl⟩ := Prod.mk.inj heq
    obtain ⟨comment, rfl, rfl, hfirst⟩ := ih hclosed
    refine ⟨c :: comment, rfl, rfl, ?_⟩
    rw [List.cons_append, List.infix_cons_iff]
    rintro (hhead | htail)
    · obtain ⟨tail, htail⟩ := hhead
      obtain ⟨rfl, hslash⟩ := List.cons.inj htail
      cases comment with
      | nil => simp at hslash
      | cons d comment =>
        obtain ⟨rfl, -⟩ := List.cons.inj hslash
        exact hstar _ rfl rfl
    · exact hfirst htail

theorem closeComment_none (h : closeComment text = none) : ¬ ['*', '/'] <:+: text := by
  fun_induction closeComment text with
  | case1 => decide
  | case2 => simp at h
  | case3 c text' hstar ih =>
    rw [List.infix_cons_iff]
    rintro (⟨tail, htail⟩ | htail)
    · obtain ⟨rfl, rfl⟩ := List.cons.inj htail
      exact hstar _ rfl rfl
    · exact ih (Option.map_eq_none_iff.1 h) htail

theorem head?_dropWhile : ∀ c ∈ (text.dropWhile p).head?, p c = false := by
  intro c hc
  have := List.head?_dropWhile_not p text
  rw [Option.mem_def.1 hc] at this
  simpa using this

/-- Nothing is left after a comment that is not closed. -/
structure Gap.Splits (gap : Gap) (text : List Char) : Prop where
  eq : text = gap.skipped ++ (gap.unclosed ++ gap.rest)
  separates : Separates (gap.unclosed ++ gap.rest) gap.skipped
  unclosed : gap.unclosed = [] ∨
    gap.rest = [] ∧ ∃ comment, gap.unclosed = '/' :: '*' :: comment ∧ ¬ ['*', '/'] <:+: comment

theorem separates_gap (text : List Char) : (gap text).Splits text := by
  fun_induction gap text with
  | case1 => exact ⟨rfl, .nil, .inl rfl⟩
  | case2 rest ih =>
    have hline : (restOfLine rest).2 = (gap (restOfLine rest).2).skipped ++
        ((gap (restOfLine rest).2).unclosed ++ (gap (restOfLine rest).2).rest) := ih.eq
    refine ⟨?_, .line ?_ ?_ ih.separates, ih.unclosed⟩
    · simp only [Gap.prepend, List.cons_append, List.append_assoc, ← hline]
      simp only [restOfLine, List.takeWhile_append_dropWhile]
    · intro hmem
      simpa using List.all_eq_true.1 List.all_takeWhile _ hmem
    · rw [Gap.prepend, ← hline]
      intro c hc
      simpa using head?_dropWhile c hc
  | case3 rest closed rest' h _ ih =>
    obtain ⟨comment, rfl, rfl, hfirst⟩ := closeComment_some h
    refine ⟨?_, ?_, ih.unclosed⟩
    · conv => lhs; rw [ih.eq]
      simp [Gap.prepend]
    · simpa [Gap.prepend] using Separates.block hfirst ih.separates
  | case4 rest h =>
    exact ⟨by simp, .nil, .inr ⟨rfl, rest, rfl, closeComment_none h⟩⟩
  | case5 c rest _ _ hblank ih =>
    refine ⟨?_, .blank hblank ih.separates, ih.unclosed⟩
    conv => lhs; rw [ih.eq]
    rfl
  | case6 => exact ⟨rfl, .nil, .inl rfl⟩

/-! ## Tokens -/

theorem longest_takeWhile (hc : p c = true) (rest : List Char) :
    Longest p (c :: rest.takeWhile p) (rest.dropWhile p) :=
  ⟨List.cons_ne_nil _ _,
    fun d hd => by
      rcases List.mem_cons.1 hd with rfl | hd
      · exact hc
      · exact List.all_eq_true.1 List.all_takeWhile d hd,
    head?_dropWhile⟩

theorem spelled_word (hc : isLetter c = true) (rest : List Char) :
    Spelled (rest.dropWhile isWordCharacter) (wordKind (c :: rest.takeWhile isWordCharacter))
      (c :: rest.takeWhile isWordCharacter) := by
  have hrun := longest_takeWhile (show isWordCharacter c = true by simp [isWordCharacter, hc]) rest
  rw [wordKind]
  split
  · rename_i word hword
    have hspelling : word.spelling = String.ofList (c :: rest.takeWhile isWordCharacter) := by
      simpa using List.find?_some hword
    have hchars := congrArg String.toList hspelling
    rw [String.toList_ofList] at hchars
    rw [← hchars] at hrun ⊢
    exact .keyword (List.mem_of_find?_eq_some hword) hrun
  · rename_i hnone
    refine .identifier hc hrun fun word hword => ?_
    simpa using List.find?_eq_none.1 hnone word hword

theorem spelled_cutCharacter (text : List Char) :
    '\'' :: text = (cutCharacter text).spelling ++ (cutCharacter text).rest ∧
      Spelled (cutCharacter text).rest (cutCharacter text).kind (cutCharacter text).spelling := by
  have hfaulty {after run : List Char} : Spelled after .faulty ('\'' :: run) :=
    .faulty (by decide) (by decide) (by decide) (by decide)
  have hchar {after : List Char} (body : List Char) :
      Spelled after .character ('\'' :: (body ++ ['\''])) := .character
  fun_cases cutCharacter text with
  | case1 => exact ⟨rfl, hfaulty⟩
  | case2 => exact ⟨rfl, hfaulty⟩
  | case3 c rest _ => exact ⟨rfl, hchar ['\\', c]⟩
  | case4 => exact ⟨rfl, hfaulty⟩
  | case5 rest => exact ⟨rfl, hchar ['\\']⟩
  | case6 => exact ⟨rfl, hfaulty⟩
  | case7 => exact ⟨rfl, hfaulty⟩
  | case8 c rest => exact ⟨rfl, hchar [c]⟩
  | case9 => exact ⟨rfl, hfaulty⟩

theorem spelled_cut (htext : text ≠ []) (hcomment : ¬ ['/', '*'] <+: text) :
    text = (cut text).spelling ++ (cut text).rest ∧
      Spelled (cut text).rest (cut text).kind (cut text).spelling := by
  fun_cases cut text with
  | case1 => contradiction
  | case2 rest => exact ⟨rfl, .becomes⟩
  | case3 rest hrest =>
    refine ⟨rfl, .colon ?_⟩
    cases rest with
    | nil => simp
    | cons c rest =>
      rintro ⟨⟩
      exact hrest _ rfl
  | case4 rest => exact spelled_cutCharacter rest
  | case5 c rest _ _ _ kind hsign => exact ⟨rfl, .sign hsign⟩
  | case6 c rest _ _ _ _ hletter word =>
    exact ⟨by simp [word], spelled_word hletter rest⟩
  | case7 c rest _ _ _ _ _ hdigit digits =>
    exact ⟨by simp [digits], .integer (longest_takeWhile hdigit rest)⟩
  | case8 c rest _ _ _ _ _ _ hoperator =>
    have heq : c :: rest = (c :: rest.takeWhile isOperatorCharacter) ++
        rest.dropWhile isOperatorCharacter := by simp
    exact ⟨heq, .operator (longest_takeWhile hoperator rest) (heq ▸ hcomment)⟩
  | case9 c rest _ hcolon _ hsign hletter hdigit hoperator =>
    refine ⟨rfl, .faulty ?_ (by simpa using hoperator) hsign ?_⟩
    · simp [isWordCharacter, hletter, hdigit]
    · rintro rfl
      exact hcolon rfl

theorem cutCharacter_fault (text : List Char) : (cutCharacter text).fault ≠ some .openComment := by
  fun_cases cutCharacter text <;> simp

theorem cut_fault (text : List Char) : (cut text).fault ≠ some .openComment := by
  fun_cases cut text with
  | case4 rest => exact cutCharacter_fault rest
  | case7 c rest _ _ _ _ _ _ digits =>
    simp only [integerFault?]
    split <;> simp
  | _ => simp

end Scan

/-! ## Reading -/

/-- Whether a problem is a comment that is not closed. -/
def Problem.isOpenComment : Problem → Bool
  | .lexical .openComment => true
  | _ => false

/-- How many comments were reported that are not closed. -/
def Log.openComments (log : Log Problem) : Nat :=
  log.diagnostics.countP fun diagnostic => diagnostic.complaint.isOpenComment

namespace Reader

theorem failFast_logAfter (log : Log Problem) (lexeme : Lexeme) :
    (logAfter log lexeme).failFast = log.failFast := by
  rw [logAfter]
  split
  · rw [Log.report, Log.add]
    split <;> rfl
  · rfl

theorem openComments_logAfter (hlog : log.failFast = false) (lexeme : Lexeme) :
    (logAfter log lexeme).openComments =
      log.openComments + (lexeme.fault.any fun fault => fault.2 = .openComment).toNat := by
  cases hfault : lexeme.fault with
  | none => simp [logAfter, hfault]
  | some fault =>
    obtain ⟨span, fault⟩ := fault
    simp only [logAfter, hfault, Log.report, Log.add, Log.halted, hlog, Bool.false_and,
      Bool.false_eq_true, if_false, Log.openComments, List.countP_append, List.countP_singleton]
    cases fault <;> rfl

/-- After the end of the text there is nothing to read. -/
theorem next_end {place : Position} :
    (Reader.mk [] place log).next = (.endAt place, Reader.mk [] place log) := by
  simp [next]

/-- Reading a text to its end, from any position on. -/
theorem tokens_locate (text : List Char) : ∀ (reader : Reader) (position : Position),
    reader.log.failFast = false →
    reader.upcoming = Scan.locate position (Scan.pieces text) →
    ∃ unclosed stop, Scan.Tokenized unclosed text reader.tokens.1 ∧
      reader.tokens.2.log.openComments = reader.log.openComments + unclosed.toNat ∧
      reader.tokens.1.getLast? = some (.endAt stop) ∧
      reader.tokens.2.next = (.endAt stop, reader.tokens.2) := by
  fun_induction Scan.pieces text with
  | case1 text gap cut piece hrest =>
    intro reader position hlog hupcoming
    have hsplit : gap.Splits text := Scan.separates_gap text
    have hcut : cut = ⟨.endOfText, [], none, []⟩ := by simp only [cut, hrest]; rfl
    have htoken : (piece.lexeme position).token =
        .endAt ((position.after piece.skipped).after piece.unclosed) := by
      simp only [piece, hcut]
      rfl
    have hnext := next_of_upcoming (by simp [Log.halted, hlog]) hupcoming
    rw [tokens, hnext, if_pos (by rw [htoken]; rfl), htoken]
    have heq := hsplit.eq
    have hseparates := hsplit.separates
    rw [hrest, List.append_nil] at heq hseparates
    -- only a gap is left, perhaps with a comment that is never closed
    rcases hsplit.unclosed with hclosed | ⟨-, comment, hunclosed, hopen⟩
    · refine ⟨false, _, ?_, ?_, rfl, next_end⟩
      · rw [hclosed] at heq hseparates
        rw [heq, List.append_nil]
        exact .finish hseparates
      · rw [openComments_logAfter hlog]
        simp [Scan.Piece.lexeme, piece, hclosed, hcut]
    · refine ⟨true, _, ?_, ?_, rfl, next_end⟩
      · rw [hunclosed] at heq hseparates
        rw [heq]
        exact .unclosed hseparates hopen
      · rw [openComments_logAfter hlog]
        simp [Scan.Piece.lexeme, piece, hunclosed]
  | case2 text gap cut piece hrest _ ih =>
    intro reader position hlog hupcoming
    have hsplit : gap.Splits text := Scan.separates_gap text
    obtain ⟨hcut, hspelled⟩ := Scan.spelled_cut hrest (Scan.gap_rest text).1
    have hclosed : gap.unclosed = [] := (Scan.gap_rest text).2 hrest
    have hspelling : (piece.lexeme position).token.spelling.toList = cut.spelling :=
      String.toList_ofList
    rw [tokens, next_of_upcoming (by simp [Log.halted, hlog]) hupcoming,
      if_neg (show (piece.lexeme position).token.kind ≠ .endOfText
        from (Scan.sound_cut hrest).proper)]
    obtain ⟨unclosed, stop, htokens, hcount, hlast, hend⟩ :=
      ih ⟨Scan.locate _ (Scan.pieces cut.rest), placeAfter (piece.lexeme position).token,
        logAfter reader.log (piece.lexeme position)⟩ _
        ((failFast_logAfter _ _).trans hlog) rfl
    refine ⟨unclosed, stop, ?_, ?_, ?_, hend⟩
    · have heq := hsplit.eq
      have hseparates := hsplit.separates
      rw [hclosed, List.nil_append, hcut] at heq hseparates
      rw [heq]
      rw [← hspelling] at heq hseparates hspelled ⊢
      exact .token hseparates hspelled htokens
    -- faults of tokens are no open comments, so the count is that of what follows
    · have hfault : (piece.lexeme position).fault.any (fun fault => fault.2 = .openComment) =
          false := by
        have hfault := Scan.cut_fault gap.rest
        simp only [Scan.Piece.lexeme, piece, hclosed, List.isEmpty_nil, if_true, Option.any_map]
        cases h : cut.fault with
        | none => rfl
        | some fault => simpa using fun hopen => hfault (h.trans (congrArg some hopen))
      rw [hcount, openComments_logAfter hlog, hfault, Bool.toNat_false, Nat.add_zero]
    · rw [List.getLast?_cons, hlast, Option.getD_some]

/-- A text read to its end is its tokens with the gaps between them: nothing is lost, every token
is as long as it can be, and a comment that is not closed is reported once.  After the end the
reader stays where it is. -/
theorem tokenized_tokens (source : Source) :
    ∃ unclosed stop,
      Scan.Tokenized unclosed source.text.toList (ofSource source false).tokens.1 ∧
      (ofSource source false).tokens.1.length ≤ source.text.length + 1 ∧
      (∀ token ∈ (ofSource source false).tokens.1,
        token.kind ≠ .endOfText → token.spelling ≠ "") ∧
      (ofSource source false).tokens.2.log.openComments = unclosed.toNat ∧
      (ofSource source false).tokens.1.getLast? = some (.endAt stop) ∧
      ∀ n, ((fun reader => reader.next.2)^[n] (ofSource source false).tokens.2).next =
        (.endAt stop, (ofSource source false).tokens.2) := by
  obtain ⟨unclosed, stop, htokens, hcount, hlast, hend⟩ :=
    tokens_locate source.text.toList (ofSource source false) .start rfl rfl
  refine ⟨unclosed, stop, htokens, htokens.length_le, htokens.spelling_ne, ?_, hlast, fun n => ?_⟩
  · rw [hcount]
    exact Nat.zero_add _
  · rw [Function.iterate_fixed (by rw [hend]) n, hend]

end Reader

end Triangle
