import Triangle.Text.Blank
import Triangle.Token.Basic
import Triangle.Token.Literal

/-!
# Scanning

A text is a sequence of tokens with gaps between them.  A gap is made of blanks, line comments
(from `!` to the end of the line) and block comments (from `/*` to the first `*/` after it).  A
token is as long as its first character allows: words, numbers and operators run as far as their
characters do.

Scanning never stops at a mistake.  What cannot be read becomes a token of its own with a fault,
an integer that is too great is still an integer, and a block comment that is not closed takes up
the rest of the text.

## What is here

* `gap` and `cut` — the gap and the token at the head of a text.
* `pieces` — a text as gaps and tokens, nothing left out: the texts of its pieces make up the text
  again.
* `lexemes` — the same with the positions that reading the text passes through.
-/

namespace Triangle

/-- A mistake in the text of a token or of a gap. -/
inductive LexicalFault where
  /-- A character that starts no token. -/
  | badCharacter (c : Char)
  /-- An integer greater than `maxint`. -/
  | integerOverflow
  /-- A character literal without its closing quote. -/
  | openCharacter
  /-- A character literal with an escape that does not exist. -/
  | badEscape (c : Char)
  /-- A block comment without its end. -/
  | openComment
deriving DecidableEq

namespace Scan

/-! ## Gaps -/

/-- The gap at the head of a text. -/
structure Gap where
  /-- Blanks and complete comments. -/
  skipped : List Char
  /-- A block comment that runs to the end of the text, or nothing. -/
  unclosed : List Char
  /-- What follows the gap. -/
  rest : List Char

/-- A gap with more text before it. -/
def Gap.prepend (text : List Char) (gap : Gap) : Gap :=
  { gap with skipped := text ++ gap.skipped }

/-- The rest of a block comment, up to and including the first `*/`, and what follows it. -/
def closeComment : List Char → Option (List Char × List Char)
  | [] => none
  | '*' :: '/' :: rest => some (['*', '/'], rest)
  | c :: rest => (closeComment rest).map fun cut => (c :: cut.1, cut.2)

/-- The rest of a line, without its line feed, and what follows it. -/
def restOfLine (text : List Char) : List Char × List Char :=
  (text.takeWhile (· ≠ '\n'), text.dropWhile (· ≠ '\n'))

theorem closeComment_length {text comment rest : List Char}
    (h : closeComment text = some (comment, rest)) : rest.length ≤ text.length := by
  fun_induction closeComment text generalizing comment with
  | case1 => simp at h
  | case2 rest' =>
    simp only [Option.some.injEq, Prod.mk.injEq] at h
    simp only [List.length_cons, ← h.2]
    omega
  | case3 c text' _ ih =>
    obtain ⟨cut, hcut, heq⟩ := Option.map_eq_some_iff.1 h
    have hrest : closeComment text' = some (cut.1, rest) := by
      rw [hcut, ← (Prod.mk.inj heq).2]
    have := ih hrest
    simp only [List.length_cons]
    omega

theorem length_dropWhile_le {α : Type} (p : α → Bool) (l : List α) :
    (l.dropWhile p).length ≤ l.length :=
  (List.dropWhile_suffix p).length_le

/-- The gap at the head of a text. -/
def gap (text : List Char) : Gap :=
  match text with
  | [] => ⟨[], [], []⟩
  | '!' :: rest =>
    (gap (restOfLine rest).2).prepend ('!' :: (restOfLine rest).1)
  | '/' :: '*' :: rest =>
    match h : closeComment rest with
    | some (comment, rest') =>
      have := closeComment_length h
      (gap rest').prepend ('/' :: '*' :: comment)
    | none => ⟨[], text, []⟩
  | c :: rest => if Text.isBlank c then (gap rest).prepend [c] else ⟨[], [], text⟩
termination_by text.length
decreasing_by
  · exact Nat.lt_succ_of_le (length_dropWhile_le _ rest)
  · simp only [List.length_cons]; omega
  · simp

/-! ## Tokens -/

/-- The token at the head of a text. -/
structure Cut where
  kind : Kind
  spelling : List Char
  fault : Option LexicalFault
  /-- What follows the token. -/
  rest : List Char

/-- Whether a character may start a word. -/
def isLetter (c : Char) : Bool :=
  ('a' ≤ c && c ≤ 'z') || ('A' ≤ c && c ≤ 'Z')

/-- Whether a character may go on a word. -/
def isWordCharacter (c : Char) : Bool :=
  isLetter c || Text.isDigit c

/-- Whether a character may be part of an operator. -/
def isOperatorCharacter (c : Char) : Bool :=
  ['+', '-', '*', '/', '=', '<', '>', '\\', '&', '@', '%', '^', '?'].contains c

/-- The kind of a sign of one character. -/
def signKind? : Char → Option Kind
  | '.' => some .dot
  | ';' => some .semicolon
  | ',' => some .comma
  | '~' => some .is
  | '(' => some .openParen
  | ')' => some .closeParen
  | '[' => some .openSquare
  | ']' => some .closeSquare
  | '\x7b' => some .openCurly
  | '\x7d' => some .closeCurly
  | _ => none

/-- The kind of a word. -/
def wordKind (word : List Char) : Kind :=
  match Keyword.ofSpelling? (String.ofList word) with
  | some keyword => .keyword keyword
  | none => .identifier

/-- The mistake in a run of digits, if its value is too great. -/
def integerFault? (digits : List Char) : Option LexicalFault :=
  if (Text.decimalValue digits : Int) ≤ Machine.maxint then none else some .integerOverflow

/-- A character literal, from what follows its opening quote.  The literal `'\'` is a backslash
and not the start of an escape, unless a quote follows it. -/
def cutCharacter (text : List Char) : Cut :=
  match text with
  | [] => ⟨.faulty, ['\''], some .openCharacter, []⟩
  | ['\\'] => ⟨.faulty, ['\'', '\\'], some .openCharacter, []⟩
  | '\\' :: c :: '\'' :: rest =>
    if (Literal.unescape? c).isSome then
      ⟨.character, ['\'', '\\', c, '\''], none, rest⟩
    else
      ⟨.faulty, ['\'', '\\', c, '\''], some (.badEscape c), rest⟩
  | '\\' :: '\'' :: rest => ⟨.character, ['\'', '\\', '\''], none, rest⟩
  | '\\' :: c :: rest => ⟨.faulty, ['\'', '\\', c], some .openCharacter, rest⟩
  | '\n' :: rest => ⟨.faulty, ['\'', '\n'], some .openCharacter, rest⟩
  | c :: '\'' :: rest => ⟨.character, ['\'', c, '\''], none, rest⟩
  | c :: rest => ⟨.faulty, ['\'', c], some .openCharacter, rest⟩

/-- The token at the head of a text that starts with no gap. -/
def cut (text : List Char) : Cut :=
  match text with
  | [] => ⟨.endOfText, [], none, []⟩
  | ':' :: '=' :: rest => ⟨.becomes, [':', '='], none, rest⟩
  | ':' :: rest => ⟨.colon, [':'], none, rest⟩
  | '\'' :: rest => cutCharacter rest
  | c :: rest =>
    match signKind? c with
    | some kind => ⟨kind, [c], none, rest⟩
    | none =>
      if isLetter c then
        let word := c :: rest.takeWhile isWordCharacter
        ⟨wordKind word, word, none, rest.dropWhile isWordCharacter⟩
      else if Text.isDigit c then
        let digits := c :: rest.takeWhile Text.isDigit
        ⟨.integer, digits, integerFault? digits, rest.dropWhile Text.isDigit⟩
      else if isOperatorCharacter c then
        ⟨.operator, c :: rest.takeWhile isOperatorCharacter, none,
          rest.dropWhile isOperatorCharacter⟩
      else
        ⟨.faulty, [c], some (.badCharacter c), rest⟩

/-! ## Progress -/

theorem gap_rest_length (text : List Char) : (gap text).rest.length ≤ text.length := by
  fun_induction gap text with
  | case1 => simp
  | case2 rest ih =>
    have : (restOfLine rest).2.length ≤ rest.length := length_dropWhile_le _ rest
    simp only [Gap.prepend, List.length_cons]
    omega
  | case3 rest comment rest' h hle ih =>
    simp only [Gap.prepend, List.length_cons] at *
    omega
  | case4 => simp
  | case5 c rest _ _ _ ih =>
    simp only [Gap.prepend, List.length_cons] at *
    omega
  | case6 => simp

theorem cutCharacter_rest_length (text : List Char) :
    (cutCharacter text).rest.length ≤ text.length := by
  unfold cutCharacter
  split <;> try split
  all_goals simp only [List.length_cons, List.length_nil]; omega

/-- A token takes up at least one character, unless the text has come to its end. -/
theorem cut_rest_length (text : List Char) (h : text ≠ []) :
    (cut text).rest.length < text.length := by
  unfold cut
  split
  · contradiction
  · simp only [List.length_cons]; omega
  · simp
  · exact Nat.lt_succ_of_le (cutCharacter_rest_length _)
  · split
    · simp
    · split
      · exact Nat.lt_succ_of_le (length_dropWhile_le _ _)
      · split
        · exact Nat.lt_succ_of_le (length_dropWhile_le _ _)
        · split
          · exact Nat.lt_succ_of_le (length_dropWhile_le _ _)
          · simp

/-! ## Pieces -/

/-- A token with the gap before it. -/
structure Piece where
  /-- Blanks and complete comments before the token. -/
  skipped : List Char
  /-- A block comment before the end of the text that is not closed, or nothing. -/
  unclosed : List Char
  kind : Kind
  spelling : List Char
  fault : Option LexicalFault

/-- The text of a piece. -/
def Piece.text (piece : Piece) : List Char :=
  piece.skipped ++ piece.unclosed ++ piece.spelling

/-- A text as pieces, the last of which holds the end of the text. -/
def pieces (text : List Char) : List Piece :=
  let gap := gap text
  let cut := cut gap.rest
  let piece : Piece := ⟨gap.skipped, gap.unclosed, cut.kind, cut.spelling, cut.fault⟩
  if h : gap.rest = [] then
    [piece]
  else
    have : cut.rest.length < text.length :=
      Nat.lt_of_lt_of_le (cut_rest_length _ h) (gap_rest_length text)
    piece :: pieces cut.rest
termination_by text.length

end Scan

/-- A token with the mistake found where it was read, if there is one. -/
structure Lexeme where
  token : Token
  /-- The mistake and the stretch of the text it is in. -/
  fault : Option (Span × LexicalFault)

namespace Scan

/-- The token of a piece whose gap starts at a position. -/
def Piece.lexeme (piece : Piece) (position : Position) : Lexeme :=
  let comment := position.after piece.skipped
  let start := comment.after piece.unclosed
  let span := Span.between start (start.after piece.spelling)
  { token := ⟨piece.kind, String.ofList piece.spelling, span⟩
    fault :=
      if piece.unclosed.isEmpty then
        piece.fault.map fun fault => (span, fault)
      else
        some (.between comment start, .openComment) }

/-- The tokens of consecutive pieces from a position on. -/
def locate (position : Position) : List Piece → List Lexeme
  | [] => []
  | piece :: rest => piece.lexeme position :: locate (position.after piece.text) rest

end Scan

/-- The tokens of a text, the last of which is its end. -/
def lexemes (text : String) : List Lexeme :=
  Scan.locate .start (Scan.pieces text.toList)

end Triangle
