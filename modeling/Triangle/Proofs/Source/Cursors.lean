import Mathlib.Data.List.DropRight
import Triangle.Proofs.Parsing.Tokenization
import Triangle.Source.Cursor

/-!
# Cursors and lines

A cursor counts lines and columns as it reads, and the text is cut at its line feeds to be quoted.
The two agree wherever a cursor comes, by reading on and by going back to marks, because where it is
only depends on how many characters are before it.

That number is told from the moves alone (`tally`): reading adds one, up to the length of the text,
and going back to a mark gives the number back that it was set at.  The invariant of all moves is
that the cursor is the one past so many characters, and each mark as well (`Trail.Counts`).

Tokens are not read by cursors here, but by cutting the text into pieces.  The last section shows
that a token has the span of a cursor that reads its characters.
-/

namespace Triangle

variable {text : List Char}

/-! ## Cursors by the characters before them -/

/-- The cursor past the first characters of a text. -/
def Cursor.past (text : List Char) (count : Nat) : Cursor :=
  ⟨text.drop count, Position.start.after (text.take count)⟩

namespace Cursor

/-- The next character is read, if there is one. -/
theorem bump_past (text : List Char) {count : Nat} (hcount : count ≤ text.length) :
    (past text count).bump = (text[count]?, past text (min (count + 1) text.length)) := by
  have hpeek : (past text count).peek = text[count]? := List.head?_drop
  rw [bump, hpeek]
  rcases Nat.lt_or_eq_of_le hcount with hlt | rfl
  · rw [List.getElem?_eq_getElem hlt, Nat.min_eq_left hlt]
    simp only [past, List.tail_drop, Prod.mk.injEq, mk.injEq, true_and]
    rw [← List.take_append_getElem hlt, Position.after_append, Position.after_cons,
      Position.after_nil]
  · rw [List.getElem?_eq_none (Nat.le_refl _), Nat.min_eq_right (Nat.le_succ _)]

theorem bumps_past (text : List Char) (more : Nat) : ∀ count, count + more ≤ text.length →
    (past text count).bumps more = past text (count + more) := by
  induction more with
  | zero => exact fun _ _ => rfl
  | succ more ih =>
    intro count hcount
    rw [bumps, bump_past text (by omega), Nat.min_eq_left (by omega), ih _ (by omega)]
    congr 1
    omega

/-- The slice from a mark to a cursor is what is between them. -/
theorem sliceFrom_past {mark count : Nat} (hmark : mark ≤ count) (hcount : count ≤ text.length) :
    (past text mark).sliceFrom (past text count) = (text.take count).drop mark := by
  simp only [sliceFrom, past, List.length_drop, List.drop_take]
  congr 1
  omega

end Cursor

/-! ## Ways through a text -/

/-- A cursor reads a character, keeps its place as the next mark or goes back to a mark. -/
inductive Cursor.Move where
  | bump
  | mark
  | rewind (mark : Nat)

/-- A cursor on its way, with the marks that were set. -/
structure Trail where
  cursor : Cursor
  marks : List Cursor := []

def Trail.move (trail : Trail) : Cursor.Move → Trail
  | .bump => { trail with cursor := trail.cursor.bump.2 }
  | .mark => { trail with marks := trail.marks ++ [trail.cursor] }
  | .rewind mark => { trail with cursor := trail.marks.getD mark trail.cursor }

/-- Makes some moves from the start of a source on. -/
def Source.trail (source : Source) (moves : List Cursor.Move) : Trail :=
  moves.foldl Trail.move ⟨source.cursor, []⟩

/-- How many characters have been consumed, and had been at each mark. -/
structure Tally where
  consumed : Nat := 0
  marks : List Nat := []

/-- Counts a move in a text of some length. -/
def Tally.move (length : Nat) (tally : Tally) : Cursor.Move → Tally
  | .bump => { tally with consumed := min (tally.consumed + 1) length }
  | .mark => { tally with marks := tally.marks ++ [tally.consumed] }
  | .rewind mark => { tally with consumed := tally.marks.getD mark tally.consumed }

/-- What moves consume of a text of some length. -/
def tally (length : Nat) (moves : List Cursor.Move) : Tally :=
  moves.foldl (Tally.move length) {}

/-- The cursor of a trail, and each of its marks, is past as many characters as are counted. -/
structure Trail.Counts (text : List Char) (trail : Trail) (tally : Tally) : Prop where
  le : tally.consumed ≤ text.length
  cursor : trail.cursor = .past text tally.consumed
  marks : trail.marks = tally.marks.map (.past text)
  marks_le : ∀ mark ∈ tally.marks, mark ≤ text.length

theorem Trail.Counts.move {trail : Trail} {tally : Tally} (h : trail.Counts text tally)
    (move : Cursor.Move) : (trail.move move).Counts text (tally.move text.length move) := by
  obtain ⟨hle, hcursor, hmarks, hmarksle⟩ := h
  cases move with
  | bump =>
    refine ⟨Nat.min_le_right _ _, ?_, hmarks, hmarksle⟩
    show trail.cursor.bump.2 = _
    rw [hcursor, Cursor.bump_past text hle, Tally.move]
  | mark =>
    refine ⟨hle, hcursor, ?_, fun mark hmark => ?_⟩
    · show trail.marks ++ [trail.cursor] = _
      rw [hmarks, hcursor, Tally.move, List.map_append, List.map_singleton]
    · rcases List.mem_append.1 hmark with hmark | hmark
      · exact hmarksle mark hmark
      · exact List.mem_singleton.1 hmark ▸ hle
  | rewind i =>
    have hgetD : trail.marks.getD i trail.cursor = .past text
        (tally.marks.getD i tally.consumed) := by
      rw [hmarks, hcursor, List.getD_eq_getElem?_getD, List.getElem?_map, Option.getD_map,
        List.getD_eq_getElem?_getD]
    refine ⟨?_, hgetD, hmarks, hmarksle⟩
    show tally.marks.getD i tally.consumed ≤ text.length
    rw [List.getD_eq_getElem?_getD]
    cases hmark : tally.marks[i]? with
    | none => exact hle
    | some mark => exact hmarksle mark (List.mem_of_getElem? hmark)

/-- All moves keep count. -/
theorem Source.trail_counts (source : Source) (moves : List Cursor.Move) :
    (source.trail moves).Counts source.text.toList (tally source.text.toList.length moves) := by
  suffices h : ∀ trail tally, trail.Counts source.text.toList tally →
      (moves.foldl Trail.move trail).Counts source.text.toList
        (moves.foldl (Tally.move source.text.toList.length) tally) from
    h _ _ ⟨Nat.zero_le _, rfl, rfl, by simp⟩
  induction moves with
  | nil => exact fun _ _ => id
  | cons first rest ih => exact fun trail tally h => ih _ _ (h.move first)

/-- Marks that were set stay. -/
theorem Trail.marks_prefix (moves : List Cursor.Move) : (trail : Trail) →
    trail.marks <+: (moves.foldl Trail.move trail).marks := by
  induction moves with
  | nil => exact fun _ => List.prefix_rfl
  | cons first rest ih =>
    intro trail
    refine List.IsPrefix.trans ?_ (ih _)
    cases first with
    | bump | rewind => exact List.prefix_rfl
    | mark => exact List.prefix_append _ _

/-- To go back to a mark is to be where it was set. -/
theorem Source.trail_rewind (source : Source) (before since : List Cursor.Move) :
    (source.trail (before ++ .mark :: since ++
      [.rewind (source.trail before).marks.length])).cursor =
      (source.trail before).cursor := by
  obtain ⟨later, hlater⟩ := Trail.marks_prefix since ((source.trail before).move .mark)
  have hmarks : (source.trail (before ++ .mark :: since)).marks =
      (source.trail before).marks ++ [(source.trail before).cursor] ++ later := by
    rw [trail, List.foldl_append, List.foldl_cons]
    exact hlater.symm
  rw [trail, List.foldl_append, ← trail]
  simp [Trail.move, hmarks]

/-! ## Positions -/

/-- The column after a stretch of one line: a tab goes to the next column that is one more than a
multiple of the tab width, and anything else one column on. -/
def columnAfter (stretch : List Char) : Nat :=
  stretch.foldl (fun column c =>
    if c = '\t' then column + (Position.tabWidth - (column - 1) % Position.tabWidth)
    else column + 1) 1

theorem columnAfter_concat (stretch : List Char) (c : Char) :
    columnAfter (stretch ++ [c]) = if c = '\t' then
      columnAfter stretch + (Position.tabWidth - (columnAfter stretch - 1) % Position.tabWidth)
      else columnAfter stretch + 1 := by
  simp [columnAfter]

theorem columnAfter_pos (stretch : List Char) : 0 < columnAfter stretch := by
  induction stretch using List.reverseRecOn with
  | nil => decide
  | append_singleton stretch c ih =>
    rw [columnAfter_concat]
    split <;> omega

/-- The part of a text after its last line feed. -/
def sinceNewline (text : List Char) : List Char := text.rtakeWhile (· ≠ '\n')

theorem sinceNewline_concat (text : List Char) (c : Char) :
    sinceNewline (text ++ [c]) = if c = '\n' then [] else sinceNewline text ++ [c] := by
  split
  · exact List.rtakeWhile_concat_neg _ _ _ (by simpa)
  · exact List.rtakeWhile_concat_pos _ _ _ (by simpa)

theorem Position.start_after (read : List Char) :
    start.after read = ⟨1 + read.count '\n', columnAfter (sinceNewline read)⟩ := by
  induction read using List.reverseRecOn with
  | nil => rfl
  | append_singleton read c ih =>
    have hpos := columnAfter_pos (sinceNewline read)
    rw [after_append, ih, sinceNewline_concat, List.count_append, after_cons, after_nil, step]
    split
    · subst c
      rfl
    · rename_i hline
      have hcount : [c].count '\n' = 0 := List.count_eq_zero.2 (by simpa using Ne.symm hline)
      rw [hcount, Nat.add_zero, columnAfter_concat]
      split
      · simp only [tab, tabWidth, Position.mk.injEq, true_and]
        omega
      · rfl

/-- Reading on moves a cursor forward. -/
theorem Position.lt_start_after_append (read : List Char) {more : List Char} (hmore : more ≠ []) :
    start.after read < start.after (read ++ more) := by
  induction more using List.reverseRecOn with
  | nil => exact absurd rfl hmore
  | append_singleton more c ih =>
    have hstep : start.after (read ++ more) < start.after (read ++ (more ++ [c])) := by
      rw [← List.append_assoc, after_append _ (read ++ more), after_cons, after_nil]
      apply lt_step
      rw [start_after]
      exact columnAfter_pos _
    by_cases hnil : more = []
    · subst hnil
      rwa [List.append_nil] at hstep
    · have hbefore := ih hnil
      rw [lt_iff] at hbefore hstep ⊢
      omega

theorem Cursor.position_past_lt {count later : Nat} (hlt : count < later)
    (hlater : later ≤ text.length) : (past text count).position < (past text later).position := by
  have hsplit : text.take later = text.take count ++ (text.take later).drop count := by
    conv_lhs => rw [← List.take_append_drop count (text.take later)]
    rw [List.take_take, Nat.min_eq_left hlt.le]
  have hmore : (text.take later).drop count ≠ [] := by
    rw [Ne, List.drop_eq_nil_iff, List.length_take]
    omega
  show Position.start.after _ < Position.start.after _
  rw [hsplit]
  exact Position.lt_start_after_append _ hmore

/-! ## Lines -/

/-- A line is the stretch between the line feeds around it, if there are any. -/
def IsLine (text : List Char) (number : Nat) (line : List Char) : Prop :=
  ∃ before after, text = before ++ line ++ after ∧ number = 1 + before.count '\n' ∧
    (before = [] ∨ before.getLast? = some '\n') ∧ '\n' ∉ line ∧
    (after = [] ∨ after.head? = some '\n')

theorem splitLines_ne_nil (text : List Char) : splitLines text ≠ [] := by
  cases text with
  | nil => simp [splitLines]
  | cons c text =>
    rw [splitLines]
    split
    · simp
    · split <;> simp

theorem splitLines_newline (before after : List Char) :
    splitLines (before ++ '\n' :: after) = splitLines before ++ splitLines after := by
  induction before with
  | nil => simp [splitLines]
  | cons c before ih =>
    obtain ⟨line, lines, hlines⟩ := List.exists_cons_of_ne_nil (splitLines_ne_nil before)
    simp only [List.cons_append, splitLines, ih, hlines]
    split <;> rfl

/-- The first line goes up to the first line feed. -/
theorem splitLines_getElem?_zero {line after : List Char} (hline : '\n' ∉ line)
    (hafter : after = [] ∨ after.head? = some '\n') :
    (splitLines (line ++ after))[0]? = some line := by
  induction line with
  | nil =>
    cases after with
    | nil => rfl
    | cons c after => simp_all [splitLines]
  | cons c line ih =>
    obtain ⟨hc, hline⟩ : c ≠ '\n' ∧ '\n' ∉ line := by simpa [eq_comm] using hline
    obtain ⟨first, lines, hlines⟩ := List.exists_cons_of_ne_nil (splitLines_ne_nil (line ++ after))
    have hfirst := ih hline
    rw [hlines] at hfirst
    simp_all [splitLines]

theorem length_splitLines (text : List Char) :
    (splitLines text).length = 1 + text.count '\n' := by
  induction text with
  | nil => rfl
  | cons c text ih =>
    obtain ⟨line, lines, hlines⟩ := List.exists_cons_of_ne_nil (splitLines_ne_nil text)
    rw [hlines] at ih
    rw [splitLines, hlines, List.count_cons]
    split
    · simp_all [Nat.add_comm]
    · simp_all

/-- A text is cut into its lines. -/
theorem IsLine.getElem? {line : List Char} {number : Nat} (h : IsLine text number line) :
    (splitLines text)[number - 1]? = some line := by
  obtain ⟨before, after, rfl, rfl, hbefore, hline, hafter⟩ := h
  rw [List.append_assoc, Nat.add_sub_cancel_left]
  rcases hbefore with rfl | hlast
  · exact splitLines_getElem?_zero hline hafter
  · obtain ⟨before, rfl⟩ := List.getLast?_eq_some_iff.1 hlast
    rw [List.append_assoc, List.singleton_append, splitLines_newline, List.count_append,
      List.getElem?_append_right (by simp [length_splitLines]; omega)]
    simpa [length_splitLines, Nat.add_comm] using splitLines_getElem?_zero hline hafter

/-- Around every place of a text there is a line. -/
theorem IsLine.around (read rest : List Char) : IsLine (read ++ rest) (1 + read.count '\n')
    (sinceNewline read ++ rest.takeWhile (· ≠ '\n')) := by
  refine ⟨read.rdropWhile (· ≠ '\n'), rest.dropWhile (· ≠ '\n'), ?_, ?_, ?_, ?_, ?_⟩
  · rw [← List.append_assoc, sinceNewline, List.rdropWhile_append_rtakeWhile, List.append_assoc,
      List.takeWhile_append_dropWhile]
  · have hsince : (sinceNewline read).count '\n' = 0 :=
      List.count_eq_zero.2 fun h => by simpa using List.mem_rtakeWhile_imp h
    conv_lhs => rw [← List.rdropWhile_append_rtakeWhile (p := (· ≠ '\n')) (l := read)]
    rw [List.count_append, ← sinceNewline, hsince, Nat.add_zero]
  · by_cases hnil : read.rdropWhile (· ≠ '\n') = []
    · exact .inl hnil
    · have hlast := List.rdropWhile_last_not (· ≠ '\n') read hnil
      rw [List.getLast?_eq_getLast_of_ne_nil hnil]
      exact .inr (by simpa using hlast)
  · intro h
    rcases List.mem_append.1 h with h | h
    · simpa using List.mem_rtakeWhile_imp h
    · simpa using List.mem_takeWhile_imp h
  · cases hrest : rest.dropWhile (· ≠ '\n') with
    | nil => exact .inl rfl
    | cons c after =>
      have hhead := List.head?_dropWhile_not (· ≠ '\n') rest
      rw [hrest] at hhead
      exact .inr (by simpa using hhead)

theorem exists_count_newline (text : List Char) {n : Nat} (h : n ≤ text.count '\n') :
    ∃ read rest, text = read ++ rest ∧ read.count '\n' = n := by
  induction text using List.reverseRecOn with
  | nil => exact ⟨[], [], rfl, (Nat.le_zero.1 h).symm⟩
  | append_singleton text c ih =>
    by_cases hn : n ≤ text.count '\n'
    · obtain ⟨read, rest, rfl, hread⟩ := ih hn
      exact ⟨read, rest ++ [c], by simp, hread⟩
    · refine ⟨text ++ [c], [], by simp, ?_⟩
      rw [List.count_append, List.count_singleton] at h ⊢
      split at h
      · rename_i hc
        rw [if_pos hc]
        omega
      · omega

/-- What is quoted of a line is all but the carriage returns at its end. -/
def Quoted (line quoted : List Char) : Prop :=
  ∃ returns, line = quoted ++ List.replicate returns '\r' ∧ quoted.getLast? ≠ some '\r'

theorem quoted_trimReturns (line : List Char) : Quoted line (trimReturns line) := by
  have hreturns : line.rtakeWhile (· = '\r') =
      List.replicate (line.rtakeWhile (· = '\r')).length '\r' :=
    List.eq_replicate_of_mem fun c hc => by simpa using List.mem_rtakeWhile_imp hc
  refine ⟨_, (hreturns ▸ List.rdropWhile_append_rtakeWhile.symm :), fun hlast => ?_⟩
  have hnil : trimReturns line ≠ [] := by
    rintro hnil
    simp [hnil] at hlast
  rw [List.getLast?_eq_getLast_of_ne_nil hnil, Option.some.injEq] at hlast
  exact List.rdropWhile_last_not (· = '\r') line hnil (decide_eq_true hlast)

theorem IsLine.quoted {line : List Char} {number : Nat} (h : IsLine text number line) :
    Quoted line (lineOf (splitLines text) number) := by
  have hline := h.getElem?
  obtain ⟨before, -, -, rfl, -⟩ := h
  rw [Nat.add_sub_cancel_left] at hline
  rw [Nat.add_comm, lineOf, List.getD_eq_getElem?_getD, hline]
  exact quoted_trimReturns line

/-- There are as many lines as line feeds, and one more. -/
theorem Source.line_spec (source : Source) (number : Nat) :
    if 1 ≤ number ∧ number ≤ 1 + source.text.toList.count '\n' then
      ∃ line, IsLine source.text.toList number line ∧ Quoted line (source.line number)
    else source.line number = [] := by
  split
  · rename_i h
    obtain ⟨read, rest, htext, hcount⟩ := exists_count_newline source.text.toList
      (n := number - 1) (by omega)
    have hline := IsLine.around read rest
    rw [← htext, hcount, Nat.add_sub_cancel' h.1] at hline
    exact ⟨_, hline, hline.quoted⟩
  · rename_i h
    cases number with
    | zero => rfl
    | succ index =>
      have hindex : source.lines.length ≤ index := by
        rw [lines, length_splitLines]
        omega
      rw [line, lineOf, List.getD_eq_getElem?_getD, List.getElem?_eq_none hindex]
      rfl

/-- **Cursors and lines agree.**  Wherever a cursor comes by reading on and going back to marks, the
number of characters that its moves have consumed says what is left, which character is read next,
and which position it is at.  Cursors that have consumed as much are equal, and one that has
consumed more is further on; back at a mark a cursor is what it was there, and the slice from a mark
is what has been read since.  The line of a position is the stretch between the line feeds around
it, quoted without the carriage returns at its end. -/
theorem Source.trail_agrees (source : Source) : let text := source.text.toList
    (∀ moves, let cursor := (source.trail moves).cursor
      let consumed := (tally text.length moves).consumed
      let read := text.take consumed
      consumed ≤ text.length ∧ cursor.rest = text.drop consumed ∧
        cursor.peek = text[consumed]? ∧ cursor.bump.1 = text[consumed]? ∧
        cursor.position = ⟨1 + read.count '\n', columnAfter (sinceNewline read)⟩ ∧
        IsLine text cursor.position.line (sinceNewline read ++ cursor.rest.takeWhile (· ≠ '\n')) ∧
        (∀ others, let other := (source.trail others).cursor
          let further := (tally text.length others).consumed
          (further = consumed → other = cursor) ∧
          (consumed < further → cursor.position < other.position)) ∧
        ∀ since, let later := (source.trail (moves ++ .mark :: since)).cursor
          let further := (tally text.length (moves ++ .mark :: since)).consumed
          (source.trail (moves ++ .mark :: since ++
            [.rewind (source.trail moves).marks.length])).cursor = cursor ∧
          (consumed ≤ further → cursor.sliceFrom later = (text.take further).drop consumed)) ∧
    (columnAfter [] = 1 ∧ ∀ stretch c, let column := columnAfter stretch
      (c ≠ '\t' → columnAfter (stretch ++ [c]) = column + 1) ∧
      (c = '\t' → columnAfter (stretch ++ [c]) % 4 = 1 ∧
        column < columnAfter (stretch ++ [c]) ∧ columnAfter (stretch ++ [c]) ≤ column + 4)) ∧
    ∀ number, if 1 ≤ number ∧ number ≤ 1 + text.count '\n' then
      ∃ line, IsLine text number line ∧ Quoted line (source.line number)
      else source.line number = [] := by
  intro text
  refine ⟨fun moves => ?_, ⟨rfl, fun stretch c => ?_⟩, source.line_spec⟩
  · intro cursor consumed read
    have hcounts := source.trail_counts moves
    have hle : consumed ≤ text.length := hcounts.le
    -- the cursor depends on the moves by how much they have consumed only
    have hcursor : cursor = .past text consumed := hcounts.cursor
    have hbump : cursor.bump.1 = text[consumed]? := by rw [hcursor, Cursor.bump_past text hle]
    have hposition : cursor.position = ⟨1 + read.count '\n', columnAfter (sinceNewline read)⟩ := by
      rw [hcursor]
      exact Position.start_after read
    refine ⟨hle, by rw [hcursor]; rfl, by rw [hcursor]; exact List.head?_drop, hbump, hposition, ?_,
      fun others => ?_, fun since => ⟨source.trail_rewind moves since, fun hfurther => ?_⟩⟩
    · have hline := IsLine.around read (text.drop consumed)
      rw [List.take_append_drop] at hline
      rw [hposition, hcursor]
      exact hline
    · have hothers := source.trail_counts others
      refine ⟨fun heq => ?_, fun hlt => ?_⟩
      · rw [hcursor, hothers.cursor, heq]
      · rw [hcursor, hothers.cursor]
        exact Cursor.position_past_lt hlt hothers.le
    · have hlater := source.trail_counts (moves ++ .mark :: since)
      rw [hcursor, hlater.cursor]
      exact Cursor.sliceFrom_past hfurther hlater.le
  · have hpos := columnAfter_pos stretch
    refine ⟨fun hc => ?_, fun hc => ?_⟩
    · rw [columnAfter_concat, if_neg hc]
    · rw [columnAfter_concat, if_pos hc, Position.tabWidth]
      omega

/-! ## Tokens -/

/-- A token of a text is a stretch of it, and its span is from the position before the stretch to
the position after it. -/
theorem Scan.stretch_of_mem_locate (text : List Char) : ∀ (read : List Char),
    ∀ lexeme ∈ locate (Position.start.after read) (pieces text), ∃ before after,
      read ++ text = before ++ lexeme.token.spelling.toList ++ after ∧
      lexeme.token.span = .between (Position.start.after before)
        (Position.start.after (before ++ lexeme.token.spelling.toList)) := by
  have hfirst : ∀ (read : List Char) {text after : List Char} {piece : Piece},
      text = piece.text ++ after → ∃ before after',
      read ++ text = before ++ piece.spelling ++ after' ∧
        (piece.lexeme (Position.start.after read)).token.span = .between
          (Position.start.after before) (Position.start.after (before ++ piece.spelling)) := by
    rintro read _ after piece rfl
    refine ⟨read ++ piece.skipped ++ piece.unclosed, after, by simp [Piece.text], ?_⟩
    simp only [Piece.lexeme, Position.after_append]
  fun_induction pieces text with
  | case1 text gap cut piece hrest =>
    intro read lexeme hlexeme
    obtain rfl := List.mem_singleton.1 hlexeme
    have htext : text = piece.text ++ [] := by
      have hsplit : text = gap.skipped ++ gap.unclosed ++ gap.rest := by
        simpa using (separates_gap text).eq
      have hcut : cut.spelling = [] := by simp [cut, hrest, Scan.cut]
      rw [hsplit, hrest]
      simp [piece, Piece.text, hcut]
    simpa [Piece.lexeme] using hfirst read htext
  | case2 text gap cut piece hrest _ ih =>
    intro read lexeme hlexeme
    have htext : text = piece.text ++ cut.rest := by
      have hsplit : text = gap.skipped ++ gap.unclosed ++ gap.rest := by
        simpa using (separates_gap text).eq
      have hcut : gap.rest = cut.spelling ++ cut.rest := (spelled_cut hrest (gap_rest text).1).1
      rw [hsplit, hcut]
      simp [piece, Piece.text]
    rcases List.mem_cons.1 hlexeme with rfl | hlater
    · simpa [Piece.lexeme] using hfirst read htext
    · rw [← Position.after_append] at hlater
      obtain ⟨before, after, heq, hspan⟩ := ih (read ++ piece.text) lexeme hlater
      exact ⟨before, after, by rw [htext, ← List.append_assoc, heq], hspan⟩

/-- A cursor that reads the characters of a token has its span. -/
theorem Source.span_of_mem_lexemes (source : Source) {lexeme : Lexeme}
    (h : lexeme ∈ lexemes source.text) : ∃ first last, first ≤ last ∧
      last ≤ source.text.toList.length ∧ lexeme.token.span = source.spanOf first last ∧
      (source.cursor.bumps first).sliceFrom (source.cursor.bumps last) =
        lexeme.token.spelling.toList := by
  obtain ⟨before, after, htext, hspan⟩ := Scan.stretch_of_mem_locate _ [] lexeme h
  rw [List.nil_append] at htext
  have hbefore : source.text.toList.take before.length = before := by
    rw [htext, List.append_assoc, List.take_left]
  have hthrough : source.text.toList.take (before.length + lexeme.token.spelling.toList.length) =
      before ++ lexeme.token.spelling.toList := by
    rw [htext, ← List.length_append, List.take_left]
  have hlast : before.length + lexeme.token.spelling.toList.length ≤ source.text.toList.length := by
    rw [htext]
    simp
  have hbumps : ∀ {count}, count ≤ source.text.toList.length →
      source.cursor.bumps count = .past source.text.toList count := by
    intro count hcount
    have h := Cursor.bumps_past source.text.toList count 0 (by omega)
    rwa [Nat.zero_add] at h
  refine ⟨before.length, before.length + lexeme.token.spelling.toList.length, by omega,
    hlast, ?_, ?_⟩
  · rw [spanOf, hbumps (by omega), Nat.add_sub_cancel_left, Cursor.bumps_past _ _ _ hlast, hspan,
      Cursor.spanFrom, Cursor.past, Cursor.past, hbefore, hthrough]
  · rw [hbumps (by omega), hbumps hlast, Cursor.sliceFrom_past (by omega) hlast, hthrough,
      List.drop_left]

end Triangle
