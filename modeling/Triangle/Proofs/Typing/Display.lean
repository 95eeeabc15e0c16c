import Triangle.Proofs.Folding.Constants
import Triangle.Proofs.Parsing.FailFast
import Triangle.Proofs.Parsing.Spellings
import Triangle.Proofs.Typing.Types
import Triangle.Typing.Check.Phrases

/-!
# Types read back

A message shows a type as it is written in programs.  If the type can be written at all, then a
program that declares a name for it is read and checked without an error, and the checker files the
very type under the declaration.  So two different types are never shown alike.

The way from the type to its text and back goes through the symbols of the grammar: the text
`Writes` the symbols of a derivation, and the tree of this derivation is checked.
-/

namespace Triangle

open Triangle.Symbol (sign word name)

/-! ## Types that can be written -/

/-- Whether a word is an identifier. -/
def Scan.isIdentifier (name : String) : Bool :=
  match name.toList with
  | [] => false
  | c :: run =>
    isLetter c && run.all isWordCharacter && (Keyword.ofSpelling? name).isNone

mutual

/-- The lengths and the names of fields in a type can be written. -/
def Ty.Writable : Ty → Prop
  | .array length element => length ≤ Machine.maxint ∧ element.Writable
  | .record fields => fields.Writable
  | _ => True

/-- The lengths and the names in fields can be written. -/
def Fields.Writable : Fields → Prop
  | .nil => True
  | .cons name of rest => Scan.isIdentifier name = true ∧ of.Writable ∧ rest.Writable

end

mutual

/-- The denoter of a type. -/
def Ty.denoter : Ty → Grammar.TypeDenoter
  | .bool => .simple "Boolean"
  | .char => .simple "Char"
  | .int => .simple "Integer"
  | .any | .error => default
  | .array length element => .array (toString length) element.denoter
  | .record fields => .record fields.denoters

/-- The denoter of fields. -/
def Fields.denoters : Fields → Grammar.FieldDenoters
  | .nil => default
  | .cons name of .nil => .single name of.denoter
  | .cons name of rest => .multiple name of.denoter rest.denoters

end

/-! ## Texts of symbols -/

/-- The text is made of tokens that are these symbols. -/
def Writes (symbols : List Symbol) (text : List Char) : Prop :=
  ∃ tokens, Scan.Spells tokens text ∧
    tokens.map (fun token => Symbol.of token.1 (String.ofList token.2)) = symbols

/-- A word may stand before the text. -/
def Opens (text : List Char) : Prop := ∀ c ∈ text.head?, Scan.isWordCharacter c = false

namespace Writes

variable {symbols : List Symbol} {text : List Char}

theorem nil : Writes [] [] := ⟨[], .nil, rfl⟩

theorem blank (h : Writes symbols text) : Writes symbols (' ' :: text) := by
  obtain ⟨tokens, hspells, htokens⟩ := h
  exact ⟨tokens, .blank (by decide) hspells, htokens⟩

theorem cons {kind : Kind} {run : List Char} (hstands : Scan.Stands kind run)
    (hafter : ∀ c ∈ text.head?, kind.goesOn c = false) (h : Writes symbols text) :
    Writes (.of kind (String.ofList run) :: symbols) (run ++ text) := by
  obtain ⟨tokens, hspells, htokens⟩ := h
  exact ⟨_, .token hstands hafter hspells, congrArg (_ :: ·) htokens⟩

theorem sign {kind : Kind} {c : Char} (hstands : Scan.Stands kind [c])
    (hkind : kind.isOpen = false) (h : Writes symbols text)
    (hafter : ∀ c ∈ text.head?, kind.goesOn c = false) :
    Writes (Symbol.sign kind :: symbols) (c :: text) :=
  Symbol.of_closed _ hkind ▸ cons hstands hafter h

theorem identifier {id : String} (hid : Scan.isIdentifier id = true) (h : Writes symbols text)
    (hopens : Opens text) : Writes (Symbol.name id :: symbols) (id.toList ++ text) := by
  have hstands : Scan.Stands .identifier id.toList := by
    rw [Scan.isIdentifier] at hid
    split at hid
    · cases hid
    · rename_i c run heq
      simp only [Bool.and_eq_true, List.all_eq_true, Option.isNone_iff_eq_none] at hid
      have hkind : Scan.wordKind (c :: run) = .identifier := by
        rw [Scan.wordKind, ← heq, String.ofList_toList, hid.2]
      rw [heq, ← hkind]
      exact Scan.stands_word hid.1.1 hid.1.2
  simpa [Symbol.name] using cons hstands hopens h

theorem keyword (k : Keyword) (h : Writes symbols text) (hopens : Opens text) :
    Writes (Symbol.word k :: symbols) (k.spelling.toList ++ text) := by
  have hword : ∃ c run, k.spelling.toList = c :: run ∧ Scan.isLetter c = true ∧
      run.all Scan.isWordCharacter = true ∧ Scan.wordKind (c :: run) = .keyword k := by
    cases k <;> exact ⟨_, _, rfl, by decide, by decide, by decide⟩
  obtain ⟨c, run, hspelling, hc, hrun, hkind⟩ := hword
  have hstands : Scan.Stands (.keyword k) k.spelling.toList :=
    hspelling ▸ hkind ▸ Scan.stands_word hc (List.all_eq_true.1 hrun)
  have hsymbol : Symbol.of (.keyword k) (String.ofList k.spelling.toList) = .word k :=
    Symbol.of_closed _ rfl
  exact hsymbol ▸ cons hstands hopens h

theorem integer {n : Int} (hpos : 0 < n) (hle : n ≤ Machine.maxint) (h : Writes symbols text)
    (hopens : Opens text) :
    Writes (.of .integer (toString n) :: symbols) ((toString n).toList ++ text) := by
  obtain ⟨n, rfl⟩ := Int.eq_ofNat_of_zero_le (Int.le_of_lt hpos)
  have hdigits : (toString (n : Int)).toList = Nat.toDigits 10 n := by
    simp [toString, Int.repr, Nat.repr]
  have hstands : Scan.Stands .integer (toString (n : Int)).toList := by
    rw [hdigits]
    refine Scan.stands_integer Nat.toDigits_ne_nil
      (List.all_eq_true.1 (Text.all_isDigit_toDigits n)) ?_
    rw [Scan.integerFault?, Text.decimalValue_toDigits, if_pos hle]
  have hafter : ∀ c ∈ text.head?, Kind.integer.goesOn c = false := by
    intro c hc
    have := hopens c hc
    simp only [Scan.isWordCharacter, Bool.or_eq_false_iff] at this
    exact this.2
  simpa using cons hstands hafter h

end Writes

theorem opens_cons {c : Char} {text : List Char} (h : Scan.isWordCharacter c = false) :
    Opens (c :: text) := by
  rintro d ⟨⟩
  exact h

mutual

/-- The text of a type is made of the symbols of its denoter. -/
theorem Ty.writes_describe : (t : Ty) → t.Proper → t.Writable →
    ∀ {symbols : List Symbol} {text : List Char}, Writes symbols text → Opens text →
      Writes (t.denoter.yield ++ symbols) (t.describe.toList ++ text)
  | .bool, _, _ | .char, _, _ | .int, _, _ => fun h hopens =>
    .identifier (by decide) h hopens
  | .any, h, _ | .error, h, _ => h.elim
  | .array length element, hproper, hwritable => by
    intro h hopens
    have helement := Ty.writes_describe element hproper.2 hwritable.2 h hopens
    have := Writes.keyword .array
      (Writes.integer hproper.1 hwritable.1
        (Writes.keyword .of helement.blank (opens_cons rfl)).blank
        (opens_cons rfl)).blank (opens_cons rfl)
    simpa [Ty.describe, Ty.denoter, Grammar.TypeDenoter.yield, Keyword.spelling] using this
  | .record fields, hproper, hwritable => by
    intro h hopens
    have := Writes.keyword .record (Fields.writes_describe fields hproper.1 hproper.2 hwritable
      (Writes.keyword .end_ h hopens).blank (opens_cons rfl)).blank (opens_cons rfl)
    simpa [Ty.describe, Ty.denoter, Grammar.TypeDenoter.yield, Keyword.spelling] using this

theorem Fields.writes_describe : (fields : Fields) → fields ≠ .nil → fields.Proper →
    fields.Writable → ∀ {symbols : List Symbol} {text : List Char}, Writes symbols text →
      Opens text → Writes (fields.denoters.yield ++ symbols) (fields.describe.toList ++ text)
  | .nil, h, _, _ => absurd rfl h
  | .cons id of .nil, _, hproper, hwritable => by
    intro h hopens
    have hof := Ty.writes_describe of hproper.2.1 hwritable.2.1 h hopens
    have :=
      Writes.identifier hwritable.1 (Writes.sign Scan.stands_colon rfl hof.blank (by simp; rfl))
      (opens_cons rfl)
    simpa [Fields.describe, Fields.denoters, Grammar.FieldDenoters.yield] using this
  | .cons id of (.cons id' of' rest), _, hproper, hwritable => by
    intro h hopens
    have hrest := Fields.writes_describe (.cons id' of' rest) (by simp) hproper.2.2 hwritable.2.2 h
      hopens
    have hof := Ty.writes_describe of hproper.2.1 hwritable.2.1
      (Writes.sign (Scan.stands_sign (c := ',') rfl) rfl hrest.blank (by simp; rfl))
      (opens_cons rfl)
    have :=
      Writes.identifier hwritable.1 (Writes.sign Scan.stands_colon rfl hof.blank (by simp; rfl))
      (opens_cons rfl)
    simpa [Fields.describe, Fields.denoters, Grammar.FieldDenoters.yield] using this

end

/-! ## Checking denoters -/

/-- What the name of a primitive type means in a scope of a program. -/
theorem find?_opened {id : String} {t : Ty}
    (h : (id, t) ∈ [("Boolean", Ty.bool), ("Char", .char), ("Integer", .int)]) :
    ∃ referent, Scopes.initial.opened.find? id = some ⟨referent, .type t⟩ := by
  simp only [List.mem_cons, Prod.mk.injEq, List.not_mem_nil, or_false] at h
  rcases h with ⟨rfl, rfl⟩ | ⟨rfl, rfl⟩ | ⟨rfl, rfl⟩ <;> exact ⟨_, rfl⟩

theorem check_simple {id : String} {t : Ty}
    (h : (id, t) ∈ [("Boolean", Ty.bool), ("Char", .char), ("Integer", .int)]) (of : TypeDenoter)
    (hof : of.erased = (Grammar.TypeDenoter.simple id).tree) (s : CheckState)
    (hs : s.scopes = Scopes.initial.opened) :
    ∃ A, Yields of.check s t { s with annotations := A } := by
  cases of with
  | simple m name =>
    have hname : name.spelling = id := by
      simpa [TypeDenoter.erased, Grammar.TypeDenoter.tree, Terminal.erased,
        Grammar.terminal] using hof
    obtain ⟨referent, hfind⟩ := find?_opened h
    rw [← hs, ← hname] at hfind
    have hresolve : Yields (Check.resolve name) s (some (.type t))
        { s with annotations := s.annotations.withReferent name.mark.id referent } := by
      rw [Check.resolve, yields_bind]
      refine ⟨s, s, yields_get.2 ⟨rfl, rfl⟩, ?_⟩
      rw [hfind]
      rfl
    exact ⟨_, yields_bind.2 ⟨_, _, hresolve, rfl⟩⟩
  | _ => simp [TypeDenoter.erased, Grammar.TypeDenoter.tree] at hof

mutual

/-- The denoter of a type stands for it. -/
theorem Ty.check_denoter : (t : Ty) → t.Proper → t.Writable → ∀ of : TypeDenoter,
    of.erased = t.denoter.tree → ∀ s : CheckState, s.scopes = Scopes.initial.opened →
      ∃ A, Yields of.check s t { s with annotations := A }
  | .bool, _, _ | .char, _, _ | .int, _, _ => check_simple (by simp)
  | .any, h, _ | .error, h, _ => h.elim
  | .array length element, hproper, hwritable => by
    intro of hof s hs
    cases of with
    | array m size denoter =>
      simp only [TypeDenoter.erased, Ty.denoter, Grammar.TypeDenoter.tree, Terminal.erased,
        Grammar.terminal, TypeDenoter.array.injEq, Terminal.mk.injEq, true_and] at hof
      obtain ⟨A, hA⟩ := Ty.check_denoter element hproper.2 hwritable.2 denoter hof.2 s hs
      have hlength : Literal.integerValue? size.spelling = some length := by
        have hpos := hproper.1
        rw [hof.1]
        refine Literal.integerValue?_toString ⟨?_, hwritable.1⟩
        simp only [Machine.maxint]
        omega
      refine ⟨A.withType m.id (.array length element), ?_⟩
      rw [TypeDenoter.check, yields_bind]
      refine ⟨element, _, hA, ?_⟩
      simp only [hlength, if_pos hproper.1]
      rfl
    | _ => simp [TypeDenoter.erased, Ty.denoter, Grammar.TypeDenoter.tree] at hof
  | .record fields, hproper, hwritable => by
    intro of hof s hs
    cases of with
    | record m denoters =>
      simp only [TypeDenoter.erased, Ty.denoter, Grammar.TypeDenoter.tree,
        TypeDenoter.record.injEq, true_and] at hof
      obtain ⟨A, hA⟩ :=
        Fields.check_denoters fields hproper.1 hproper.2 hwritable denoters hof s hs
      exact ⟨_, yields_bind.2 ⟨fields, _, hA, rfl⟩⟩
    | _ => simp [TypeDenoter.erased, Ty.denoter, Grammar.TypeDenoter.tree] at hof

theorem Fields.check_denoters : (fields : Fields) → fields ≠ .nil → fields.Proper →
    fields.Writable → ∀ of : FieldDenoters, of.erased = fields.denoters.tree →
      ∀ s : CheckState, s.scopes = Scopes.initial.opened →
        ∃ A, Yields of.check s fields { s with annotations := A }
  | .nil, h, _, _ => absurd rfl h
  | .cons id t .nil, _, hproper, hwritable => by
    intro of hof s hs
    cases of with
    | single m name denoter =>
      simp only [FieldDenoters.erased, Fields.denoters, Grammar.FieldDenoters.tree,
        Terminal.erased, Grammar.terminal, FieldDenoters.single.injEq, Terminal.mk.injEq,
        true_and] at hof
      obtain ⟨A, hA⟩ := Ty.check_denoter t hproper.2.1 hwritable.2.1 denoter hof.2 s hs
      refine ⟨A, ?_⟩
      rw [FieldDenoters.check, yields_bind]
      exact ⟨t, _, hA, by simp [Check.prependField, Fields.declares, hof.1]⟩
    | multiple => simp [FieldDenoters.erased, Fields.denoters, Grammar.FieldDenoters.tree] at hof
  | .cons id t (.cons id' t' rest), _, hproper, hwritable => by
    intro of hof s hs
    cases of with
    | multiple m name denoter others =>
      simp only [FieldDenoters.erased, Fields.denoters, Grammar.FieldDenoters.tree,
        Terminal.erased, Grammar.terminal, FieldDenoters.multiple.injEq, Terminal.mk.injEq,
        true_and] at hof
      obtain ⟨A, hA⟩ := Ty.check_denoter t hproper.2.1 hwritable.2.1 denoter hof.2.1 s hs
      obtain ⟨B, hB⟩ := Fields.check_denoters (.cons id' t' rest) (by simp) hproper.2.2
        hwritable.2.2 others hof.2.2 { s with annotations := A } hs
      refine ⟨B, ?_⟩
      rw [FieldDenoters.check, yields_bind]
      refine ⟨t, _, hA, yields_bind.2 ⟨_, _, hB, ?_⟩⟩
      simp [Check.prependField, hof.1, hproper.1]
    | single => simp [FieldDenoters.erased, Fields.denoters, Grammar.FieldDenoters.tree] at hof

end

/-! ## Declarations of types -/

theorem Writes.symbols_eq {symbols : List Symbol} {source : Source}
    (h : Writes symbols source.text.toList) :
    source.symbols = symbols ++ [Symbol.sign .endOfText] ∧
      ∀ failFast, (Reader.ofSource source failFast).tokens.2.log.errors = 0 := by
  obtain ⟨tokens, hspells, rfl⟩ := h
  refine ⟨?_, fun failFast => (Reader.tokens_of_spells hspells failFast).1⟩
  have hcontents := congrArg (List.map fun content : Kind × String => Symbol.of content.1 content.2)
    (Reader.tokens_of_spells hspells false).2
  rw [List.map_map] at hcontents
  exact hcontents.trans (by simp [Function.comp_def, Symbol.sign])

/-- A program that declares a name for a type and does nothing. -/
def Source.declaring (name : String) (t : Ty) : Source :=
  ⟨name, "let type T ~ " ++ t.describe ++ " in"⟩

/-- The derivation of such a program. -/
def Ty.declaration (t : Ty) : Grammar.Program :=
  ⟨.single (.letIn (.single (.type "T" t.denoter)) .empty)⟩

theorem Ty.writes_declaring {t : Ty} (hproper : t.Proper) (hwritable : t.Writable) (name : String) :
    Writes t.declaration.command.yield (Source.declaring name t).text.toList := by
  have hin := Writes.keyword .in_ .nil (by simp [Opens])
  have ht := t.writes_describe hproper hwritable hin.blank (opens_cons rfl)
  have hname := Writes.identifier (show Scan.isIdentifier "T" = true by decide)
    (Writes.sign (Scan.stands_sign (c := '~') rfl) rfl ht.blank (by simp; rfl)).blank
    (opens_cons rfl)
  have h := Writes.keyword .let_ (Writes.keyword .type hname.blank (opens_cons rfl)).blank
    (opens_cons rfl)
  simpa [Ty.declaration, Source.declaring, Grammar.Command.yield, Grammar.SingleCommand.yield,
    Grammar.Declaration.yield, Grammar.SingleDeclaration.yield, Keyword.spelling] using h

/-- The program is read without an error, as a declaration of the type. -/
theorem Ty.parse_declaring {t : Ty} (hproper : t.Proper) (hwritable : t.Writable) (name : String)
    (failFast : Bool) : (parse (.declaring name t) failFast).log.errors = 0 ∧
      ∃ m d id of b, (parse (.declaring name t) failFast).program.command =
        .letIn m (.type d id of) (.empty b) ∧ id.spelling = "T" ∧ of.erased = t.denoter.tree := by
  obtain ⟨hsymbols, hscan⟩ := (writes_declaring hproper hwritable name).symbols_eq
  obtain ⟨hclean, htree⟩ := parse_of_derives (hscan false) (D := t.declaration)
    ⟨trivial, by simp [Grammar.SingleCommand.Admissible]⟩ hsymbols.symm
  obtain ⟨htruncated, hprogram⟩ := parse_truncated (.declaring name t)
  have hboth : (parse (.declaring name t) failFast).log.errors = 0 ∧
      (parse (.declaring name t) failFast).program = (parse (.declaring name t) false).program := by
    cases failFast with
    | false => exact ⟨hclean, rfl⟩
    | true => exact ⟨by rw [htruncated, Log.errors_truncated, hclean]; rfl, hprogram hclean⟩
  refine ⟨hboth.1, ?_⟩
  rw [hboth.2]
  simp only [Ty.declaration, Grammar.Command.tree, Grammar.SingleCommand.tree,
    Grammar.Declaration.tree, Grammar.SingleDeclaration.tree] at htree
  cases hcommand : (parse (.declaring name t) false).program.command with
  | letIn m declaration body =>
    rw [hcommand, Command.erased, Command.letIn.injEq] at htree
    obtain ⟨-, hdeclaration, hbody⟩ := htree
    cases declaration with
    | type d id of =>
      rw [Declaration.erased, Declaration.type.injEq] at hdeclaration
      cases body with
      | empty b =>
        exact ⟨m, d, id, of, b, rfl, congrArg Terminal.spelling hdeclaration.2.1, hdeclaration.2.2⟩
      | _ => simp [Command.erased] at hbody
    | _ => simp [Declaration.erased] at hdeclaration
  | _ => simp [hcommand, Command.erased] at htree

/-- A declaration of the type is checked without an error, and the type is filed under it. -/
theorem Ty.check_declaring {t : Ty} (hproper : t.Proper) (hwritable : t.Writable)
    {program : Program}
    {m d b : Mark} {id : Terminal} {of : TypeDenoter}
    (hprogram : program.command = .letIn m (.type d id of) (.empty b))
    (hof : of.erased = t.denoter.tree) (log : Log Problem) :
    ∃ A, program.check log = .ok (A, log) ∧ A.typeOf? d.id = some t := by
  obtain ⟨A, hA⟩ :=
    t.check_denoter hproper hwritable of hof ⟨Scopes.initial.opened, .empty, log⟩ rfl
  refine ⟨A.withType d.id t, ?_, ?_⟩
  · have hdeclare : Yields (Check.declare id d.id (.type t))
        ⟨Scopes.initial.opened, A.withType d.id t, log⟩ ()
        ⟨⟨Scopes.standardScope, [[(id.spelling, ⟨.node d.id, .type t⟩)]]⟩,
          A.withType d.id t, log⟩ :=
      rfl
    have hrun : Yields program.command.check ⟨.initial, .empty, log⟩ ()
        ⟨.initial, A.withType d.id t, log⟩ := by
      rw [hprogram, Command.check, Declaration.check, Command.check]
      exact yields_bind.2 ⟨(), _, rfl, yields_bind.2 ⟨(), _, yields_bind.2 ⟨t, _, hA,
        yields_bind.2 ⟨t, _, rfl, hdeclare⟩⟩, yields_bind.2 ⟨(), _, rfl, rfl⟩⟩⟩
    rw [Program.check, bind_eq_ok_iff]
    exact ⟨_, hrun, rfl⟩
  · exact (NodeMap.get?_insert _ _ _ _).trans (if_pos rfl)

/-- **A type is read back from the text that shows it**, so that no two types are shown alike: in
the program that declares a name for it there is no lexical, syntactic or contextual error, and the
type of the declaration is the type itself. -/
theorem Ty.describe_reads_back (t : Ty) (hproper : t.Proper) (hwritable : t.Writable) :
    (∀ (name : String) (failFast : Bool),
      (Reader.ofSource (.declaring name t) failFast).tokens.2.log.errors = 0 ∧
      (parse (.declaring name t) failFast).log.errors = 0 ∧
      ∃ m d id of b A log, (parse (.declaring name t) failFast).program.command =
          .letIn m (.type d id of) (.empty b) ∧
        (parse (.declaring name t) failFast).program.check
          (parse (.declaring name t) failFast).log =
          .ok (A, log) ∧ log.errors = 0 ∧ A.typeOf? d.id = some t) ∧
    ∀ u : Ty, u.Proper → u.Writable → u.describe = t.describe → u = t := by
  refine ⟨fun name failFast => ?_, fun u huproper huwritable heq => ?_⟩
  · obtain ⟨hclean, m, d, id, of, b, hcommand, -, hof⟩ :=
      parse_declaring hproper hwritable name failFast
    obtain ⟨A, hcheck, htype⟩ := check_declaring hproper hwritable hcommand hof _
    exact ⟨(writes_declaring hproper hwritable name).symbols_eq.2 failFast, hclean, m, d, id, of, b,
      A, _, hcommand, hcheck, hclean, htype⟩
  · have hsource : Source.declaring "" u = .declaring "" t := by
      rw [Source.declaring, Source.declaring, heq]
    obtain ⟨-, m, d, id, of, b, hcommand, -, hof⟩ := parse_declaring hproper hwritable "" false
    obtain ⟨-, m', d', id', of', b', hcommand', -, hof'⟩ :=
      parse_declaring huproper huwritable "" false
    rw [hsource, hcommand] at hcommand'
    cases hcommand'
    obtain ⟨A, hcheck, htype⟩ := check_declaring hproper hwritable hcommand hof (.empty false)
    obtain ⟨A', hcheck', htype'⟩ := check_declaring huproper huwritable hcommand hof' (.empty false)
    cases hcheck.symm.trans hcheck'
    exact Option.some.inj (htype'.symm.trans htype)

/-- An array of records with a record in them. -/
def Ty.table : Ty :=
  .array 32767 (.record (.cons "key" .int (.cons "row" (.record (.cons "key" .char .nil)) .nil)))

theorem Ty.table_reads_back :
    Ty.table.describe = "array 32767 of record key: Integer, row: record key: Char end end" ∧
      (parse (.declaring "" .table) false).log.errors = 0 := by
  have hproper : Ty.table.Proper := by
    simp [Ty.table, Ty.Proper, Fields.Proper, Fields.declares]
  have hwritable : Ty.table.Writable := by
    refine ⟨by decide, by decide, trivial, by decide, ⟨by decide, trivial, trivial⟩, trivial⟩
  refine ⟨by decide +kernel, ((Ty.describe_reads_back .table hproper hwritable).1 "" false).2.1⟩

end Triangle
