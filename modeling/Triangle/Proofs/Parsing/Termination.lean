import Mathlib.Logic.Relation
import Triangle.Proofs.Parsing.Tokenization

/-!
# Reading comes to an end

A text has finitely many tokens, because each of them but the end takes up a character, and the end
is never passed.  Productions call each other, but before a production is called again a token has
been passed.  So how deeply calls nest is bounded by the number of tokens, and reading a text always
gives a tree.
-/

namespace Triangle

/-! ## Tokens -/

namespace Scan

theorem length_gap_rest (text : List Char) : (gap text).rest.length ≤ text.length := by
  have h := congrArg List.length (separates_gap text).eq
  simp only [List.length_append] at h
  omega

/-- The characters of tokens are characters of the text. -/
theorem length_locate (text : List Char) : ∀ position : Position,
    ((locate position (pieces text)).flatMap fun lexeme => lexeme.token.spelling.toList).length
      ≤ text.length := by
  fun_induction pieces text with
  | case1 text gap cut piece hrest =>
    intro position
    simp [locate, Piece.lexeme, piece, cut, hrest, Scan.cut]
  | case2 text gap cut piece hrest _ ih =>
    intro position
    have hcut : gap.rest.length = (cut.spelling ++ cut.rest).length :=
      congrArg List.length (spelled_cut hrest (gap_rest text).1).1
    have hgap : gap.rest.length ≤ text.length := length_gap_rest text
    have hspelling : (piece.lexeme position).token.spelling.toList = cut.spelling :=
      String.toList_ofList
    have hlater := ih (position.after piece.text)
    rw [locate, List.flatMap_cons, List.length_append, hspelling]
    rw [List.length_append] at hcut
    omega

end Scan

/-- Each token but the end has a character. -/
theorem Lexeme.CutOff.spelling_ne {lexeme : Lexeme} {text : List Char} (h : lexeme.CutOff text) :
    lexeme.token.spelling.toList ≠ [] := by
  rw [h.spelling, String.toList_ofList]
  exact (Scan.spelled_cut h.ne_nil h.block).2.ne_nil

namespace Reader

/-- The characters of the tokens to come. -/
def characters (reader : Reader) : List Char :=
  reader.upcoming.flatMap fun lexeme => lexeme.token.spelling.toList

/-- The end of the text comes last and only once, if it is not past. -/
def Ends (reader : Reader) : Prop :=
  reader.upcoming = [] ∨ ∃ init final, reader.upcoming = init ++ [final] ∧
    final.token.kind = .endOfText ∧ ∀ lexeme ∈ init, ∃ text, lexeme.CutOff text

theorem ends_ofSource (source : Source) (failFast : Bool) : (ofSource source failFast).Ends := by
  obtain ⟨init, final, heq, hfinal, hinit⟩ := lexemes_eq_append source.text
  exact .inr ⟨init, final, heq, congrArg Prod.fst hfinal, hinit⟩

/-- Reading takes up characters, until the end has been found; from then on nothing changes. -/
theorem Ends.next {reader : Reader} (h : reader.Ends) : reader.next.2.Ends ∧
    if reader.next.1.kind = .endOfText then
      reader.next.2.next.1.kind = .endOfText ∧ reader.next.2.next.2 = reader.next.2
    else reader.next.2.characters.length < reader.characters.length := by
  have hend : ∀ {r : Reader}, r.next = (.endAt r.place, r) →
      r.next.1.kind = .endOfText ∧ r.next.2 = r := by
    intro r hr
    rw [hr]
    exact ⟨rfl, rfl⟩
  rcases reader.next_cases with heq | ⟨lexeme, rest, -, hupcoming, heq⟩
  · obtain ⟨hkind, hreader⟩ := hend heq
    rw [if_pos hkind, hreader]
    exact ⟨h, hkind, hreader⟩
  · rcases h with hnil | ⟨init, final, hinit, hfinal, hcut⟩
    · simp [hnil] at hupcoming
    rw [hupcoming] at hinit
    cases init with
    | nil =>
      obtain ⟨rfl, rfl⟩ := List.cons.inj hinit
      rw [heq, if_pos hfinal]
      refine ⟨.inl rfl, hend ?_⟩
      simp [Reader.next]
    | cons first init =>
      obtain ⟨rfl, rfl⟩ := List.cons.inj hinit
      obtain ⟨text, hfirst⟩ := hcut lexeme List.mem_cons_self
      have hpos := List.length_pos_iff.2 hfirst.spelling_ne
      rw [heq, if_neg hfirst.proper]
      refine ⟨.inr ⟨init, final, rfl, hfinal, fun other hother =>
        hcut other (List.mem_cons_of_mem _ hother)⟩, ?_⟩
      simp only [characters, hupcoming, List.flatMap_cons, List.length_append]
      omega

theorem ends_iterate (source : Source) (failFast : Bool) (n : Nat) :
    ((fun reader => reader.next.2)^[n] (ofSource source failFast)).Ends := by
  induction n with
  | zero => exact ends_ofSource source failFast
  | succ n ih =>
    rw [Function.iterate_succ_apply']
    exact ih.next.1

end Reader

/-! ## Calls -/

namespace Parser

open Relation (TransGen)

/-- Before a production is called again a token has been passed. -/
theorem left_lt_of_calls {c d : Production × ParserState} (h : TransGen Calls c d) :
    d.2.left < c.2.left ∨ d.2.left ≤ c.2.left ∧ d.1.rank < c.1.rank := by
  have hcall : ∀ {c d : Production × ParserState}, Calls c d →
      d.2.left < c.2.left ∨ d.2.left ≤ c.2.left ∧ d.1.rank < c.1.rank :=
    fun h => h.imp_right fun h => ⟨h.1, Production.rank_lt_of_mem_first h.2⟩
  induction h with
  | single h => exact hcall h
  | tail _ h ih =>
    have := hcall h
    omega

theorem left_start (source : Source) (failFast : Bool) :
    (start source failFast).left ≤ (lexemes source.text).length :=
  Reader.significant_upcoming (Reader.ofSource source failFast)

/-- **Reading a text comes to an end.**  Its tokens take up characters, and the end is never passed.
A production calls only those in `Calls`, with one level less, and one that is cut off where calls
nest too deeply has called another one that is.  Along any calls from a production back to itself a
token is passed.  So ten levels for each token, and some more, are enough for every production, and
reading the text gives a tree. -/
theorem parse_terminates (source : Source) (failFast : Bool) :
    ((Reader.ofSource source failFast).characters.length ≤ source.text.length ∧
      ∀ n reader, reader = (fun reader => reader.next.2)^[n] (Reader.ofSource source failFast) →
        if reader.next.1.kind = .endOfText then
          reader.next.2.next.1.kind = .endOfText ∧ reader.next.2.next.2 = reader.next.2
        else reader.next.2.characters.length < reader.characters.length) ∧
    (∀ p depth s, Production.Has (Works (p, s) depth s) (depth + 1) p) ∧
    (∀ p depth s, ¬ Production.Answers p (depth + 1) s →
      ∃ q t, Calls (p, s) (q, t) ∧ ¬ Production.Answers q depth t) ∧
    (∀ p s t, TransGen Calls (p, s) (p, t) → t.left < s.left) ∧
    (∀ p depth s, 10 * s.left + 5 ≤ depth → Production.Answers p depth s) ∧
    (start source failFast).left ≤ (lexemes source.text).length ∧
    (∀ depth, 10 * (start source failFast).left + 5 ≤ depth →
      ∃ tree s, Gives (program depth) (start source failFast) tree s) ∧
    ∃ s, Gives (program (depthBound (start source failFast))) (start source failFast)
      (parse source failFast).program s ∧ (parse source failFast).log = s.reader.log := by
  refine ⟨⟨?_, ?_⟩, works, fun p depth s h => ?_, fun p s t h => ?_, fun p depth s h => ?_,
    left_start source failFast, fun depth h => ?_, parse_gives source failFast⟩
  · exact String.length_toList ▸ Scan.length_locate source.text.toList .start
  · rintro n reader rfl
    exact (Reader.ends_iterate source failFast n).next.2
  · by_contra hnone
    refine h (answers_succ fun q t hcall => ?_)
    by_contra hq
    exact hnone ⟨q, t, hcall, hq⟩
  · have := left_lt_of_calls h
    simp only [Nat.lt_irrefl, and_false, or_false] at this
    exact this
  · have := p.rank_le
    exact answers depth p s (by omega)
  · have hdepth : 10 * (start source failFast).left + 1 < depth := by omega
    obtain ⟨tree, s, hrun, -⟩ := program_gives hdepth
    exact ⟨tree, s, hrun⟩

end Parser

end Triangle
