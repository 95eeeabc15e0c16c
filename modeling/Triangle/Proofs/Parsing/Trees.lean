import Triangle.Proofs.Parsing.Productions
import Triangle.Proofs.Syntax.Complete
import Triangle.Proofs.Syntax.Identities
import Triangle.Proofs.Syntax.Outlines

/-!
# The trees that are read

Three facts about reading a text.  The nodes of the tree have the identities from zero on, each of
them once and each greater than those below it, whether or not there were mistakes in the text.  If
no error was reported, the tree is complete: nothing had to be made up.  And then the symbols that
were passed are those of an admissible derivation, and the tree is that of this derivation.

They are facts about every production.  A `Ledger` tells what has been read and is not part of a
greater phrase yet, and `Builds` says of a parser what it makes of a ledger.  There is a lemma for
each way to start a parser, so that the proof for a production follows its text.  Productions call
each other at a smaller depth, so they are collected in a structure for each depth, and the
induction is on the depth.
-/

namespace Triangle.Parser

open Grammar (nextKind)
open Triangle.Symbol (sign word name)

/-! ## What has been read -/

/-- What has been read and is not part of a greater phrase yet. -/
structure Ledger where
  /-- The identities handed out for it. -/
  ids : List NodeId
  /-- Its outline at some depth. -/
  outline : Nat → List Entry
  /-- The symbols passed for it, if there was no error. -/
  symbols : List Symbol
  /-- What is known of it, if there was no error. -/
  whole : Prop

namespace Ledger

/-- Nothing has been read. -/
abbrev empty : Ledger := ⟨[], fun _ => [], [], True⟩

/-- Something else has been read. -/
abbrev add (ledger more : Ledger) : Ledger :=
  ⟨ledger.ids ++ more.ids, fun depth => ledger.outline depth ++ more.outline depth,
    ledger.symbols ++ more.symbols, ledger.whole ∧ more.whole⟩

/-- A terminal has been read, of which something is known. -/
abbrev terminal (label : String) (symbols : List Symbol) (known : Prop) (t : Terminal) : Ledger :=
  ⟨[t.mark.id], fun depth => t.outline depth label, symbols, known⟩

/-- A phrase has been read, with a derivation of the symbols. -/
abbrev of {α δ : Type} (ids : α → List NodeId) (outline : Nat → α → List Entry)
    (yield : δ → List Symbol) (known : α → δ → Kind → Prop) (a : α) (D : δ) (k : Kind) : Ledger :=
  ⟨ids a, fun depth => outline depth a, yield D, known a D k⟩

/-- A symbol has been passed. -/
abbrev pass (ledger : Ledger) (kind : Kind) : Ledger :=
  { ledger with symbols := ledger.symbols ++ [sign kind] }

/-- What has been read becomes a phrase. -/
abbrev node (ledger : Ledger) (label : String) (kind : EntryKind) (name : Option String)
    (m : Mark) : Ledger :=
  { ledger with
    ids := ledger.ids ++ [m.id]
    outline := fun depth => ⟨depth, m, label, kind, name⟩ :: ledger.outline (depth + 1) }

/-- What has been read, whether or not there was an error. -/
abbrev shape (ledger : Ledger) : List NodeId × (Nat → List Entry) := (ledger.ids, ledger.outline)

/-- There was an error. -/
abbrev broken (ledger : Ledger) : Ledger := { ledger with whole := False }

end Ledger

/-- What was read between two states. -/
structure Step (s₀ : ParserState) (ledger : Ledger) (s : ParserState) : Prop where
  issued : (List.range s₀.issued ++ ledger.ids).Perm (List.range s.issued)
  ranked : ∀ depth, Ranked depth (ledger.outline depth)
  below : ∀ depth, ∀ entry ∈ ledger.outline depth, entry.id < s.issued
  clean : Clean s → Clean s₀
  whole : Clean s → ledger.whole
  stands : Clean s → ∀ w, StandsBefore s₀ w → ∃ r, w = ledger.symbols ++ r ∧ StandsBefore s r
  valued : Valued s

variable {label : String} {start : Span}

namespace Step

variable {s₀ s s' : ParserState} {ledger more : Ledger}

theorem refl (h : Valued s) : Step s .empty s :=
  ⟨by simp, fun _ => .nil, by simp, id, fun _ => trivial, fun _ w h => ⟨w, rfl, h⟩, h⟩

/-- Steps compose, and what was read adds up. -/
theorem trans (h₁ : Step s₀ ledger s) (h₂ : Step s more s') : Step s₀ (ledger.add more) s' where
  issued := by
    rw [Ledger.add, ← List.append_assoc]
    exact (h₁.issued.append_right _).trans h₂.issued
  ranked depth := (h₁.ranked depth).append (h₂.ranked depth)
  below depth entry hentry := by
    rcases List.mem_append.1 hentry with h | h
    · have hle : s.issued ≤ s'.issued := by
        have hlength := h₂.issued.length_eq
        simp only [List.length_append, List.length_range] at hlength
        omega
      exact Nat.lt_of_lt_of_le (h₁.below depth entry h) hle
    · exact h₂.below depth entry h
  clean h := h₁.clean (h₂.clean h)
  whole h := ⟨h₁.whole (h₂.clean h), h₂.whole h⟩
  stands h w hw := by
    obtain ⟨u, rfl, hu⟩ := h₁.stands (h₂.clean h) w hw
    obtain ⟨r, rfl, hr⟩ := h₂.stands h u hu
    exact ⟨r, by simp, hr⟩
  valued := h₂.valued

/-- What is read later may come first in the phrase, if no symbol was passed for it. -/
theorem trans_comm (h₁ : Step s₀ ledger s) (h₂ : Step s more s') (hmore : more.symbols = []) :
    Step s₀ (more.add ledger) s' :=
  have h := h₁.trans h₂
  ⟨(List.perm_append_comm.append_left _).trans h.issued,
    fun depth => (h₂.ranked depth).append (h₁.ranked depth),
    fun depth entry hentry => h.below depth entry
      (List.mem_append.2 (List.mem_append.1 hentry).symm),
    h.clean, fun hclean => (h.whole hclean).symm, by simpa [hmore] using h.stands, h.valued⟩

/-- Nothing becomes part of the tree. -/
theorem move (h : Step s₀ ledger s) (hmoves : Moves s 0 s') (hshape : more.shape = ledger.shape)
    (hwhole : Clean s' → ledger.whole → more.whole)
    (hstands : Clean s' → ∀ w, StandsBefore s w →
      ∃ r, ledger.symbols ++ w = more.symbols ++ r ∧ StandsBefore s' r) : Step s₀ more s' := by
  obtain ⟨hids, houtline⟩ := Prod.mk.inj hshape
  refine ⟨?_, houtline ▸ h.ranked, ?_, h.clean ∘ hmoves.clean,
    fun hclean => hwhole hclean (h.whole (hmoves.clean hclean)), fun hclean w hw => ?_,
    hmoves.valued h.valued⟩
  · rw [hmoves.issued, hids]
    exact h.issued
  · rw [hmoves.issued, houtline]
    exact h.below
  · obtain ⟨u, rfl, hu⟩ := h.stands (hmoves.clean hclean) w hw
    exact hstands hclean u hu

theorem regard (h : Step s₀ ledger s) (hshape : more.shape = ledger.shape)
    (hknown : ledger.whole → more.symbols = ledger.symbols ∧ more.whole) : Step s₀ more s :=
  h.move ⟨rfl, Nat.le_refl _, id, id⟩ hshape (fun _ hwhole => (hknown hwhole).2)
    fun hclean w hw => ⟨w, by rw [(hknown (h.whole hclean)).1], hw⟩

/-- A node comes after everything that was read before. -/
theorem node {m : Mark} {kind : EntryKind} {name : Option String} (h : Step s₀ ledger s)
    (hgives : Gives (node start) s m s') (hkind : decide (kind = .terminal) = false) :
    Step s₀ (ledger.node label kind name m) s' := by
  obtain ⟨hm, hmoves⟩ := moves_node hgives
  refine ⟨?_, fun depth => ?_, fun depth entry hentry => ?_, fun hclean =>
    h.clean (hmoves.clean hclean),
    fun hclean => h.whole (hmoves.clean hclean), fun hclean w hw => ?_, hmoves.valued h.valued⟩
  · rw [Ledger.node, ← List.append_assoc, hmoves.issued, List.range_succ, hm]
    exact h.issued.append_right _
  · exact .node rfl (fun h => absurd h (of_decide_eq_false hkind))
      (fun other hother => Nat.lt_of_lt_of_eq (h.below _ other hother) hm.symm) (h.ranked _)
  · rw [hmoves.issued]
    rcases List.mem_cons.1 hentry with rfl | hentry
    · exact Nat.lt_succ_of_le (Nat.le_of_eq hm)
    · exact Nat.lt_succ_of_lt (h.below _ entry hentry)
  · obtain ⟨r, rfl, hr⟩ := h.stands (hmoves.clean hclean) w hw
    exact ⟨r, rfl, (hr.fresh (gives_node hgives)).1⟩

theorem terminal {t : Terminal} {symbols : List Symbol} {known : Prop} (hs : Valued s)
    (ht : t.mark.id = s.issued) (hmoves : Moves s 1 s') (hknown : Clean s' → known)
    (hline : '\n' ∉ t.spelling.toList)
    (hstands : Clean s' → ∀ w, StandsBefore s w → ∃ r, w = symbols ++ r ∧ StandsBefore s' r) :
    Step s (.terminal label symbols known t) s' where
  issued := by rw [hmoves.issued, List.range_succ, Ledger.terminal, ht]
  ranked depth := .node rfl (fun _ => hline) nofun .nil
  below depth entry hentry := by
    rw [List.mem_singleton.1 hentry, Entry.id, hmoves.issued]
    exact Nat.lt_succ_of_le (Nat.le_of_eq ht)
  clean := hmoves.clean
  whole := hknown
  stands := hstands
  valued := hmoves.valued hs

end Step

/-! ## Parsers that build -/

variable {α β γ δ : Type} {s : ParserState} {L M : Ledger} {K : α → δ → Kind → Ledger}
  {J : β → γ → Kind → Ledger} {k : Kind}

/-- From a state the parser makes of one ledger another, with some derivation of what it reads. -/
def BuildsAt (s : ParserState) (L : Ledger) (x : Parser α) (K : α → δ → Kind → Ledger) : Prop :=
  ∀ s₀ a s', Step s₀ L s → Gives x s a s' → ∃ D, Step s₀ (K a D s'.current.kind) s'

/-- The parser builds from all states. -/
def Builds (L : Ledger) (x : Parser α) (K : α → δ → Kind → Ledger) : Prop :=
  ∀ s, BuildsAt s L x K

theorem builds_pure {a : α} (D : δ) (hshape : (K a D s.current.kind).shape = L.shape)
    (hknown : L.whole → (K a D s.current.kind).symbols = L.symbols ∧ (K a D s.current.kind).whole) :
    BuildsAt s L (pure a) K := by
  intro s₀ b s' hstep hrun
  obtain ⟨rfl, rfl⟩ := gives_pure.1 hrun
  exact ⟨D, hstep.regard hshape hknown⟩

theorem BuildsAt.regard {x : Parser α} (h : BuildsAt s M x K) (hshape : M.shape = L.shape)
    (hknown : L.whole → M.symbols = L.symbols ∧ M.whole) : BuildsAt s L x K :=
  fun s₀ a s' hstep => h s₀ a s' (hstep.regard hshape hknown)

/-- The second parser goes on with the ledger that the first one leaves. -/
theorem builds_seq {x : Parser β} {f : β → Parser α} (hx : BuildsAt s L x J)
    (hf : ∀ b E t, BuildsAt t (J b E t.current.kind) (f b) K) : BuildsAt s L (x >>= f) K := by
  intro s₀ a s' hstep hrun
  obtain ⟨b, t, hb, ha⟩ := gives_bind.1 hrun
  obtain ⟨E, ht⟩ := hx s₀ b t hstep hb
  exact hf b E t s₀ a s' ht ha

/-- Something that is no phrase is read. -/
theorem builds_then {x : Parser β} {f : β → Parser α} {M : β → Ledger}
    (hx : ∀ s₀ b t, Step s₀ L s → Gives x s b t → Step s₀ (M b) t)
    (hf : ∀ b, Builds (M b) (f b) K) : BuildsAt s L (x >>= f) K :=
  builds_seq (J := fun b (_ : Unit) _ => M b) (fun s₀ b t hs hb => ⟨(), hx s₀ b t hs hb⟩)
    fun b _ => hf b

/-- A phrase is read after others. -/
theorem Builds.bind {x : Parser β} {f : β → Parser α} (hx : Builds .empty x J)
    (hf : ∀ b E t, BuildsAt t (L.add (J b E t.current.kind)) (f b) K) :
    BuildsAt s L (x >>= f) K := by
  refine builds_seq (J := fun b E k => L.add (J b E k)) (fun s₀ b t hstep hb => ?_) hf
  obtain ⟨E, ht⟩ := hx s s b t (.refl hstep.valued) hb
  exact ⟨E, hstep.trans ht⟩

/-- A phrase grows out of what was read so far. -/
theorem BuildsAt.grow {x : Parser α} {J : α → γ → Kind → Ledger} (hx : BuildsAt s L x J) (D : γ → δ)
    (hshape : ∀ a E k, (K a (D E) k).shape = (J a E k).shape)
    (hknown : ∀ a E k, (J a E k).whole → (K a (D E) k).symbols = (J a E k).symbols ∧
      (K a (D E) k).whole) :
    BuildsAt s L x K := by
  intro s₀ a s' hstep ha
  obtain ⟨E, h⟩ := hx s₀ a s' hstep ha
  exact ⟨D E, h.regard (hshape a E _) (hknown a E _)⟩

theorem builds_here {f : Span → Parser α} (hf : ∀ span, BuildsAt s L (f span) K) :
    BuildsAt s L (here >>= f) K := by
  intro s₀ a s' hstep hrun
  obtain ⟨span, t, hspan, ha⟩ := gives_bind.1 hrun
  obtain ⟨-, rfl⟩ := gives_here.1 hspan
  exact hf span s₀ a s' hstep ha

theorem builds_get {f : ParserState → Parser α} (hf : ∀ state, BuildsAt s L (f state) K) :
    BuildsAt s L (get >>= f) K := by
  intro s₀ a s' hstep hrun
  obtain ⟨state, t, hstate, ha⟩ := gives_bind.1 hrun
  obtain ⟨-, rfl⟩ := gives_get.1 hstate
  exact hf state s₀ a s' hstep ha

theorem builds_kind {f : Kind → Parser α}
    (hf : ∀ k, s.current.kind = k → BuildsAt s L (f k) K) : BuildsAt s L (kind >>= f) K := by
  intro s₀ a s' hstep hrun
  obtain ⟨k, t, hk, ha⟩ := gives_bind.1 hrun
  obtain ⟨hkind, rfl⟩ := gives_kind.1 hk
  exact hf k hkind s₀ a s' hstep ha

theorem builds_looksAt {f : Bool → Parser α}
    (hyes : s.current.kind = k → BuildsAt s L (f true) K) (hno : BuildsAt s L (f false) K) :
    BuildsAt s L (looksAt k >>= f) K := by
  rw [looksAt, bind_assoc]
  refine builds_kind fun k' hk' => ?_
  rw [pure_bind]
  by_cases h : k' = k
  · rw [decide_eq_true h]
    exact hyes (hk'.trans h)
  · rw [decide_eq_false h]
    exact hno

/-- A symbol is passed whose kind says it all. -/
theorem builds_advance {f : Token → Parser α} (hk : s.current.kind = k)
    (hclosed : (k.isOpen || k = .endOfText) = false) (hf : ∀ token, Builds (L.pass k) (f token) K) :
    BuildsAt s L (advance >>= f) K := by
  refine builds_then (fun s₀ token t hstep h => ?_) hf
  obtain ⟨-, hmoves⟩ := moves_advance h
  simp only [Bool.or_eq_false_iff, decide_eq_false_iff_not] at hclosed
  refine hstep.move hmoves rfl (fun _ h => h) fun hclean w hw => ?_
  obtain ⟨r, rfl⟩ := hw.eq_cons (hk ▸ hclosed.2)
  refine ⟨r, ?_, (hw.advance (hmoves.clean hclean) h).1⟩
  rw [Token.symbol, hk, Symbol.of_closed _ hclosed.1, List.append_assoc]
  rfl

/-- After an error nothing is known. -/
theorem builds_broken {x : Parser Unit} {f : Unit → Parser α}
    (hx : ∀ {t}, Gives x s () t → Moves s 0 t ∧ ¬ Clean t) (hf : Builds L.broken (f ()) K) :
    BuildsAt s L (x >>= f) K := by
  refine builds_then (M := fun _ => L.broken) (fun s₀ _ t hstep h => ?_) fun _ => hf
  obtain ⟨hmoves, hdirty⟩ := hx h
  exact hstep.move hmoves rfl (fun h => absurd h hdirty) fun h => absurd h hdirty

theorem builds_complain {expected : Expectation} {f : Unit → Parser α}
    (hf : Builds L.broken (f ()) K) : BuildsAt s L (complain expected >>= f) K :=
  builds_broken moves_complain hf

theorem builds_recover {expected : Expectation} {f : Unit → Parser α}
    (hf : Builds L.broken (f ()) K) : BuildsAt s L (recover expected >>= f) K :=
  builds_broken moves_recover hf

/-- What was read so far becomes a phrase, under the next identity. -/
theorem builds_node {f : Mark → Parser α} (label : String) (kind : EntryKind) (name : Option String)
    (hkind : decide (kind = .terminal) = false)
    (hf : ∀ m, Builds (L.node label kind name m) (f m) K) : BuildsAt s L (node start >>= f) K :=
  builds_then (fun _ _ _ hstep h => hstep.node h hkind) hf

/-- The node of a phrase that is finished. -/
theorem builds_finish {f : Mark → α} {kind : EntryKind} {name : Option String} (D : δ)
    (hshape : ∀ m k, (K (f m) D k).shape = (L.node label kind name m).shape)
    (hkind : decide (kind = .terminal) = false)
    (hknown : L.whole → ∀ m, (K (f m) D s.current.kind).symbols = L.symbols ∧
      (K (f m) D s.current.kind).whole) :
    BuildsAt s L (node start >>= fun m => pure (f m)) K := by
  intro s₀ a s' hstep hrun
  obtain ⟨m, t, hm, ha⟩ := gives_bind.1 hrun
  obtain ⟨rfl, rfl⟩ := gives_pure.1 ha
  refine ⟨D, (hstep.node hm hkind).regard (hshape m _) fun h => ?_⟩
  obtain ⟨-, rfl⟩ := gives_modifyGet.1 (gives_node hm)
  exact hknown h m

/-- A node with nothing in it is made. -/
theorem builds_leaf {f : Mark → Parser α} (label : String) (kind : EntryKind) (name : Option String)
    (hkind : decide (kind = .terminal) = false)
    (hf : ∀ m, Builds (L.add (Ledger.empty.node label kind name m)) (f m) K) :
    BuildsAt s L (node start >>= f) K :=
  builds_then (fun _ _ _ hstep h => hstep.trans (.node (.refl hstep.valued) h hkind)) hf

/-- A token is passed as a terminal, and it is known what its kind demands. -/
theorem builds_known {f : Terminal → Parser α} (label : String)
    (known : String → Prop) (hk : s.current.kind = k)
    (hend : decide (k = .endOfText) = false)
    (hknown : Valued s → Clean s → known s.current.spelling)
    (hf : ∀ t, Builds (L.add (.terminal label [.of k t.spelling] (known t.spelling) t)) (f t) K) :
    BuildsAt s L (terminal >>= f) K := by
  refine builds_then (fun s₀ t u hstep ht => hstep.trans ?_) hf
  obtain ⟨hid, hspelling, hmoves, -⟩ := moves_terminal ht
  refine .terminal hstep.valued hid hmoves
    (fun hclean => hspelling ▸ hknown hstep.valued (hmoves.clean hclean))
    (hspelling ▸ hstep.valued.line) fun hclean w hw => ?_
  simp only [Parser.terminal, gives_bind, gives_pure] at ht
  obtain ⟨token, u, h₁, id, v, h₂, rfl, rfl⟩ := ht
  obtain ⟨rfl, -⟩ := moves_advance h₁
  obtain ⟨r, rfl⟩ := hw.eq_cons fun h => of_decide_eq_false hend (hk.symm.trans h)
  refine ⟨r, by rw [Token.symbol, hk]; rfl, ?_⟩
  exact ((hw.advance (hmoves.clean hclean) h₁).1.fresh h₂).1

theorem builds_terminal {f : Terminal → Parser α} (label : String) (hk : s.current.kind = k)
    (hend : decide (k = .endOfText) = false)
    (hf : ∀ t, Builds (L.add (.terminal label [.of k t.spelling] True t)) (f t) K) :
    BuildsAt s L (terminal >>= f) K :=
  builds_known label (fun _ => True) hk hend (fun _ _ => trivial) hf

/-- A terminal is made up. -/
theorem builds_missing {f : Terminal → Parser α} (label : String)
    (hf : ∀ t, Builds (L.add (.terminal label [] True t)) (f t) K) :
    BuildsAt s L (missing >>= f) K := by
  refine builds_then (fun s₀ t u hstep ht => hstep.trans ?_) hf
  obtain ⟨hspelling, ht⟩ := gives_missing ht
  obtain ⟨hid, hmoves⟩ := moves_fresh ht
  exact .terminal hstep.valued hid hmoves (fun _ => trivial) (hspelling ▸ by simp)
    fun _ w hw => ⟨w, rfl, (hw.fresh ht).1⟩

/-- The token is passed; where it is missing, nothing is known from then on. -/
theorem builds_expect {f : Unit → Parser α} (hclosed : (k.isOpen || k = .endOfText) = false)
    (hf : Builds (L.pass k) (f ()) K) : BuildsAt s L (expect k >>= f) K := by
  rw [expect, bind_assoc]
  refine builds_looksAt (fun hk => ?_) (builds_complain fun s => (hf s).regard rfl False.elim)
  simp only [if_true, bind_assoc, pure_bind]
  exact builds_advance hk hclosed fun _ => hf

/-- A phrase is read up to a symbol that is known. -/
theorem Builds.upto {ids : β → List NodeId} {outline : Nat → β → List Entry}
    {yield : γ → List Symbol} {known : β → γ → Kind → Prop} {x : Parser β} {f : β → Parser α}
    (hx : Builds .empty x (.of ids outline yield known))
    (hclosed : (k.isOpen || k = .endOfText) = false)
    (hf : ∀ b E, Builds ((L.add (.of ids outline yield known b E k)).pass k) (f b) K) :
    BuildsAt s L (x >>= fun b => expect k >>= fun _ => f b) K := by
  refine hx.bind fun b E t => ?_
  rw [expect, bind_assoc]
  refine builds_looksAt (fun hk => ?_) (builds_complain fun s => (hf b E s).regard rfl False.elim)
  rw [hk]
  simp only [if_true, bind_assoc, pure_bind]
  exact builds_advance hk hclosed fun _ => hf b E

theorem builds_terminalOf {f : Terminal → Parser α} (label : String) (known : String → Prop)
    (hknown : s.current.kind = k → Valued s → Clean s → known s.current.spelling)
    (hend : decide (k = .endOfText) = false)
    (hf : ∀ t, Builds (L.add (.terminal label [.of k t.spelling] (known t.spelling) t)) (f t) K) :
    BuildsAt s L (terminalOf k >>= f) K := by
  rw [terminalOf, bind_assoc]
  refine builds_looksAt (fun hk => ?_) ?_
  · exact builds_known label known hk hend (hknown hk) hf
  · rw [if_neg Bool.false_ne_true, bind_assoc]
    exact builds_complain fun s => builds_missing label fun t s =>
      (hf t s).regard rfl fun h => h.1.elim

theorem builds_identifier {f : Terminal → Parser α}
    (hf : ∀ t, Builds (L.add (.terminal "Identifier" [name t.spelling] True t)) (f t) K) :
    BuildsAt s L (identifier >>= f) K :=
  builds_terminalOf "Identifier" (fun _ => True) (fun _ _ _ => trivial) rfl hf

theorem builds_erroneousType {f : TypeDenoter → Parser α}
    (hf : ∀ m, Builds (L.add (Ledger.empty.node "ErrorTypeDenoter" .phrase none m))
      (f (.error m)) K) :
    BuildsAt s L (erroneousType >>= f) K := by
  simp only [erroneousType, bind_assoc, pure_bind]
  exact builds_here fun _ => builds_leaf _ _ _ rfl hf

/-- A command that is not there is read after others. -/
theorem builds_emptyCommand {f : Command → Parser α}
    (hf : ∀ m, Builds (L.add (Ledger.empty.node "EmptyCommand" .phrase none m)) (f (.empty m)) K) :
    BuildsAt s L (emptyCommand >>= f) K := by
  simp only [emptyCommand, bind_assoc, pure_bind]
  exact builds_here fun _ => builds_leaf _ _ _ rfl hf

/-- A command that is not there is read after others and comes before them. -/
theorem builds_emptyCommand_comm {f : Command → Parser α}
    (hf : ∀ m, Builds ((Ledger.empty.node "EmptyCommand" .phrase none m).add L) (f (.empty m)) K) :
    BuildsAt s L (emptyCommand >>= f) K := by
  simp only [emptyCommand, bind_assoc, pure_bind]
  exact builds_here fun _ => builds_then (fun _ _ _ hstep h =>
    hstep.trans_comm (.node (.refl hstep.valued) h rfl) rfl) hf

end Triangle.Parser

/-! ## Productions -/

namespace Triangle.Grammar

open Triangle.Parser (Ledger)

/-- A type denoter that was read. -/
abbrev TypeDenoter.ledger : Triangle.TypeDenoter → TypeDenoter → Kind → Ledger :=
  .of Triangle.TypeDenoter.ids Triangle.TypeDenoter.outline TypeDenoter.yield
    fun tree D _ => tree.Complete ∧ tree.erased = D.tree

/-- Fields that were read. -/
abbrev FieldDenoters.ledger : Triangle.FieldDenoters → FieldDenoters → Kind → Ledger :=
  .of Triangle.FieldDenoters.ids Triangle.FieldDenoters.outline FieldDenoters.yield
    fun tree D _ => tree.Complete ∧ tree.erased = D.tree

/-- A formal parameter that was read. -/
abbrev Parameter.ledger : Triangle.Parameter → Parameter → Kind → Ledger :=
  .of Triangle.Parameter.ids Triangle.Parameter.outline Parameter.yield
    fun tree D _ => tree.Complete ∧ tree.erased = D.tree

/-- Formal parameters that were read. -/
abbrev Parameters.ledger : Triangle.Parameters → Parameters → Kind → Ledger :=
  .of Triangle.Parameters.ids Triangle.Parameters.outline Parameters.yield
    fun tree D _ => tree.Complete ∧ tree.erased = D.tree

/-- One or more formal parameters that were read. -/
abbrev ProperParameters.ledger : Triangle.Parameters → ProperParameters → Kind → Ledger :=
  .of Triangle.Parameters.ids Triangle.Parameters.outline ProperParameters.yield
    fun tree D _ => tree.Complete ∧ tree.erased = D.tree

/-- A command that was read. -/
abbrev Command.ledger : Triangle.Command → Command → Kind → Ledger :=
  .of Triangle.Command.ids Triangle.Command.outline Command.yield
    fun tree D k => tree.Complete ∧ tree.erased = D.tree ∧ D.Admissible k

/-- A single command that was read. -/
abbrev SingleCommand.ledger : Triangle.Command → SingleCommand → Kind → Ledger :=
  .of Triangle.Command.ids Triangle.Command.outline SingleCommand.yield
    fun tree D k => tree.Complete ∧ tree.erased = D.tree ∧ D.Admissible k

/-- An expression that was read. -/
abbrev Expression.ledger : Triangle.Expression → Expression → Kind → Ledger :=
  .of Triangle.Expression.ids Triangle.Expression.outline Expression.yield
    fun tree D _ => tree.Complete ∧ tree.erased = D.tree ∧ D.Admissible

/-- A primary expression that was read. -/
abbrev Primary.ledger : Triangle.Expression → Primary → Kind → Ledger :=
  .of Triangle.Expression.ids Triangle.Expression.outline Primary.yield
    fun tree D _ => tree.Complete ∧ tree.erased = D.tree ∧ D.Admissible

/-- Fields with values that were read. -/
abbrev RecordAggregate.ledger : Triangle.RecordAggregate → RecordAggregate → Kind → Ledger :=
  .of Triangle.RecordAggregate.ids Triangle.RecordAggregate.outline RecordAggregate.yield
    fun tree D _ => tree.Complete ∧ tree.erased = D.tree ∧ D.Admissible

/-- Elements that were read. -/
abbrev ArrayAggregate.ledger : Triangle.ArrayAggregate → ArrayAggregate → Kind → Ledger :=
  .of Triangle.ArrayAggregate.ids Triangle.ArrayAggregate.outline ArrayAggregate.yield
    fun tree D _ => tree.Complete ∧ tree.erased = D.tree ∧ D.Admissible

/-- A V-name that was read. -/
abbrev Vname.ledger : Triangle.Vname → Vname → Kind → Ledger :=
  .of Triangle.Vname.ids Triangle.Vname.outline Vname.yield
    fun tree D _ => tree.Complete ∧ tree.erased = D.tree ∧ D.Admissible

/-- Actual parameters that were read. -/
abbrev Arguments.ledger : Triangle.Arguments → Arguments → Kind → Ledger :=
  .of Triangle.Arguments.ids Triangle.Arguments.outline Arguments.yield
    fun tree D _ => tree.Complete ∧ tree.erased = D.tree ∧ D.Admissible

/-- One or more actual parameters that were read. -/
abbrev ProperArguments.ledger : Triangle.Arguments → ProperArguments → Kind → Ledger :=
  .of Triangle.Arguments.ids Triangle.Arguments.outline ProperArguments.yield
    fun tree D _ => tree.Complete ∧ tree.erased = D.tree ∧ D.Admissible

/-- An actual parameter that was read. -/
abbrev Argument.ledger : Triangle.Argument → Argument → Kind → Ledger :=
  .of Triangle.Argument.ids Triangle.Argument.outline Argument.yield
    fun tree D _ => tree.Complete ∧ tree.erased = D.tree ∧ D.Admissible

/-- A declaration that was read. -/
abbrev Declaration.ledger : Triangle.Declaration → Declaration → Kind → Ledger :=
  .of Triangle.Declaration.ids Triangle.Declaration.outline Declaration.yield
    fun tree D k => tree.Complete ∧ tree.erased = D.tree ∧ D.Admissible k

/-- A single declaration that was read. -/
abbrev SingleDeclaration.ledger : Triangle.Declaration → SingleDeclaration → Kind → Ledger :=
  .of Triangle.Declaration.ids Triangle.Declaration.outline SingleDeclaration.yield
    fun tree D k => tree.Complete ∧ tree.erased = D.tree ∧ D.Admissible k

/-- Operations that were read after an expression. -/
abbrev Operations.ledger (L : Ledger) (left : Triangle.Expression) :
    Triangle.Expression → Operations → Kind → Ledger :=
  .of Triangle.Expression.ids Triangle.Expression.outline (fun D => L.symbols ++ D.yield)
    fun tree D _ => L.whole ∧ tree.Complete ∧ tree.erased = D.tree left.erased ∧ D.Admissible

/-- Selectors that were read after a V-name. -/
abbrev Selectors.ledger (L : Ledger) (whole : Triangle.Vname) :
    Triangle.Vname → Selectors → Kind → Ledger :=
  .of Triangle.Vname.ids Triangle.Vname.outline (fun D => L.symbols ++ D.yield)
    fun tree D _ => L.whole ∧ tree.Complete ∧ tree.erased = D.tree whole.erased ∧ D.Admissible

/-- A program that was read. -/
abbrev Program.ledger (program : Triangle.Program) (D : Program) (k : Kind) : Ledger :=
  { Command.ledger program.command D.command k with
    whole := program.command.Complete ∧ program.command.erased = D.command.tree ∧ D.Admissible ∧
      k = Kind.endOfText }.node "Program" .phrase none program.mark

end Triangle.Grammar

namespace Triangle.Parser

open Triangle.Symbol (sign word name)

/-- What each production builds. -/
structure Productive (depth : Nat) : Prop where
  typeDenoter : Builds .empty (typeDenoter depth) Grammar.TypeDenoter.ledger
  fieldDenoters : Builds .empty (fieldDenoters depth) Grammar.FieldDenoters.ledger
  parameters : Builds .empty (parameters depth) Grammar.Parameters.ledger
  properParameters : Builds .empty (properParameters depth) Grammar.ProperParameters.ledger
  parameter : Builds .empty (parameter depth) Grammar.Parameter.ledger
  command : Builds .empty (command depth) Grammar.Command.ledger
  singleCommand : Builds .empty (singleCommand depth) Grammar.SingleCommand.ledger
  expression : Builds .empty (expression depth) Grammar.Expression.ledger
  operations : ∀ start left L, L.shape = (left.ids, (left.outline ·)) → (L.whole → left.Complete) →
    Builds L (operations depth start left) (Grammar.Operations.ledger L left)
  primaryExpression : Builds .empty (primaryExpression depth) Grammar.Primary.ledger
  recordAggregate : Builds .empty (recordAggregate depth) Grammar.RecordAggregate.ledger
  arrayAggregate : Builds .empty (arrayAggregate depth) Grammar.ArrayAggregate.ledger
  vname : Builds .empty (vname depth) Grammar.Vname.ledger
  vnameFrom : ∀ name L, L.shape = ([name.mark.id], (name.identifier ·)) →
    Builds L (vnameFrom depth name) (Grammar.Selectors.ledger L (.simple default name))
  selectors : ∀ start whole L, L.shape = (whole.ids, (whole.outline ·)) →
    (L.whole → whole.Complete) →
    Builds L (selectors depth start whole) (Grammar.Selectors.ledger L whole)
  arguments : Builds .empty (arguments depth) Grammar.Arguments.ledger
  properArguments : Builds .empty (properArguments depth) Grammar.ProperArguments.ledger
  argument : Builds .empty (argument depth) Grammar.Argument.ledger
  declaration : Builds .empty (declaration depth) Grammar.Declaration.ledger
  singleDeclaration : Builds .empty (singleDeclaration depth) Grammar.SingleDeclaration.ledger

namespace Productive

variable {depth : Nat} (ih : Productive depth)

include ih

attribute [local simp] word name

theorem typeDenoter_succ :
    Builds .empty (Parser.typeDenoter (depth + 1)) Grammar.TypeDenoter.ledger := by
  refine fun s => builds_here fun start => builds_kind fun k hk => ?_
  split
  · refine builds_terminal "Identifier" hk rfl fun name _ => ?_
    exact builds_finish (.simple name.spelling) (fun _ _ => rfl) rfl fun h _ => by simp_all
  · refine builds_advance hk rfl fun _ _ => ?_
    refine builds_terminalOf "IntegerLiteral" (fun word => (Literal.integerValue? word).isSome)
      (fun hk hvalued hclean => hvalued.integer hclean hk) rfl fun size _ => ?_
    refine builds_expect rfl fun _ => ih.typeDenoter.bind fun element D _ => ?_
    exact builds_finish (.array size.spelling D) (fun _ _ => rfl) rfl fun h _ => by simp_all
  · refine builds_advance hk rfl fun _ _ => ih.fieldDenoters.upto rfl fun fields D _ => ?_
    exact builds_finish (.record D) (fun _ _ => rfl) rfl fun h _ => by simp_all
  · exact builds_recover fun _ => builds_here fun _ =>
      builds_finish default (fun _ _ => rfl) rfl False.elim

theorem fieldDenoters_succ :
    Builds .empty (Parser.fieldDenoters (depth + 1)) Grammar.FieldDenoters.ledger := by
  refine fun s => builds_here fun start => builds_identifier fun name _ => ?_
  refine builds_expect rfl fun _ => ih.typeDenoter.bind fun of D _ => ?_
  refine builds_looksAt (fun hk => builds_advance hk rfl fun _ _ => ?_) ?_
  · refine ih.fieldDenoters.bind fun rest E _ => ?_
    exact builds_finish (.multiple name.spelling D E) (fun _ _ => rfl) rfl fun h _ => by simp_all
  · exact builds_finish (.single name.spelling D) (fun _ _ => rfl) rfl fun h _ => by simp_all

theorem parameters_succ :
    Builds .empty (Parser.parameters (depth + 1)) Grammar.Parameters.ledger := by
  refine fun s => builds_expect rfl fun s => builds_here fun start =>
    builds_looksAt (fun _ => ?_) ?_
  · refine builds_node "EmptyFormalParameterSequence" .phrase none rfl fun m s => ?_
    rw [pure_bind]
    exact builds_expect rfl fun _ => builds_pure .none rfl fun h => by simp_all
  · refine ih.properParameters.upto rfl fun proper D _ => ?_
    exact builds_pure (.some D) rfl fun h => by simp_all

theorem properParameters_succ :
    Builds .empty (Parser.properParameters (depth + 1)) Grammar.ProperParameters.ledger := by
  refine fun s => builds_here fun start => ih.parameter.bind fun first D _ => ?_
  refine builds_looksAt (fun hk => builds_advance hk rfl fun _ _ => ?_) ?_
  · refine ih.properParameters.bind fun rest E _ => ?_
    exact builds_finish (.multiple D E) (fun _ _ => rfl) rfl fun h _ => by simp_all
  · exact builds_finish (.single D) (fun _ _ => rfl) rfl fun h _ => by simp_all

theorem parameter_succ :
    Builds .empty (Parser.parameter (depth + 1)) Grammar.Parameter.ledger := by
  refine fun s => builds_here fun start => builds_kind fun k hk => ?_
  split
  · refine builds_terminal "Identifier" hk rfl fun name _ => builds_expect rfl fun _ => ?_
    refine ih.typeDenoter.bind fun of D _ => ?_
    exact builds_finish (.const name.spelling D) (fun _ _ => rfl) rfl fun h _ => by simp_all
  · refine builds_advance hk rfl fun _ _ => builds_identifier fun name _ => ?_
    refine builds_expect rfl fun _ => ih.typeDenoter.bind fun of D _ => ?_
    exact builds_finish (.var name.spelling D) (fun _ _ => rfl) rfl fun h _ => by simp_all
  · refine builds_advance hk rfl fun _ _ => builds_identifier fun name _ => ?_
    refine ih.parameters.bind fun parameters D _ => ?_
    exact builds_finish (.proc name.spelling D) (fun _ _ => rfl) rfl fun h _ => by simp_all
  · refine builds_advance hk rfl fun _ _ => builds_identifier fun name _ => ?_
    refine ih.parameters.upto rfl fun parameters D _ => ih.typeDenoter.bind fun result E _ => ?_
    exact builds_finish (.func name.spelling D E) (fun _ _ => rfl) rfl fun h _ => by simp_all
  · exact builds_recover fun _ => builds_missing "Identifier" fun _ _ =>
      builds_erroneousType fun _ _ => builds_finish default (fun _ _ => rfl) rfl fun h => h.1.1.elim

theorem command_succ :
    Builds .empty (Parser.command (depth + 1)) Grammar.Command.ledger := by
  refine fun s => builds_here fun start => ih.singleCommand.bind fun first D t => ?_
  refine builds_looksAt (fun hk => ?_) ?_
  · rw [hk]
    refine builds_advance hk rfl fun _ _ => ih.command.bind fun second E _ => ?_
    exact builds_finish (.sequential D E) (fun _ _ => rfl) rfl fun h _ => by simp_all
  · exact builds_pure (.single D) rfl fun h => by simp_all

theorem singleCommand_succ :
    Builds .empty (Parser.singleCommand (depth + 1)) Grammar.SingleCommand.ledger := by
  refine fun s => builds_here fun start => builds_kind fun k hk => ?_
  split
  -- a name starts a call, a simultaneous assignment or an assignment
  · refine builds_terminal "Identifier" hk rfl fun name _ => builds_looksAt (fun _ => ?_) ?_
    · refine ih.arguments.bind fun arguments D _ => ?_
      exact builds_finish (.call name.spelling D) (fun _ _ => rfl) rfl fun h _ => by simp_all
    · refine builds_seq (ih.vnameFrom name _ rfl _) fun target D _ => ?_
      refine builds_looksAt (fun hk => builds_advance hk rfl fun _ _ => ?_) ?_
      · refine ih.vname.upto rfl fun second E _ => ih.expression.upto rfl fun firstValue F _ => ?_
        refine ih.expression.bind fun secondValue G _ => ?_
        exact builds_finish (.doubleAssign (.mk name.spelling D) E F G) (fun _ _ => rfl) rfl
          fun h _ => by simp_all
      · refine builds_expect rfl fun _ => ih.expression.bind fun value E _ => ?_
        exact builds_finish (.assign (.mk name.spelling D) E) (fun _ _ => rfl) rfl
          fun h _ => by simp_all
  · refine builds_advance hk rfl fun _ _ => ih.command.upto rfl fun body D _ => ?_
    exact builds_pure (.block D) rfl fun h => by simp_all
  · refine builds_advance hk rfl fun _ _ => ih.declaration.upto rfl fun declaration D _ => ?_
    refine ih.singleCommand.bind fun body E _ => ?_
    exact builds_finish (.letIn D E) (fun _ _ => rfl) rfl fun h _ => by simp_all
  · refine builds_advance hk rfl fun _ _ => ih.expression.upto rfl fun condition D _ => ?_
    refine ih.singleCommand.upto rfl fun first E _ => ih.singleCommand.bind fun second F _ => ?_
    exact builds_finish (.ifElse D E F) (fun _ _ => rfl) rfl fun h _ => by simp_all
  · refine builds_advance hk rfl fun _ _ => ih.expression.bind fun condition D _ => ?_
    refine builds_kind fun k hk => ?_
    split
    · refine builds_advance hk rfl fun _ _ => ih.singleCommand.bind fun body E _ => ?_
      exact builds_finish (.whileDo D E) (fun _ _ => rfl) rfl fun h _ => by simp_all
    · refine builds_advance hk rfl fun _ _ => builds_emptyCommand_comm fun _ _ => ?_
      refine ih.command.upto rfl fun body E _ => ?_
      exact builds_finish (.whileBraces D E) (fun _ _ => rfl) rfl fun h _ => by simp_all
    · exact builds_complain fun _ => builds_emptyCommand fun _ _ =>
        builds_finish default (fun _ _ => rfl) rfl fun h => h.1.elim
  · refine builds_advance hk rfl fun _ _ => ih.singleCommand.upto rfl fun prelude D _ => ?_
    refine ih.expression.upto rfl fun condition E _ => ih.singleCommand.bind fun body F _ => ?_
    exact builds_finish (.loop D E F) (fun _ _ => rfl) rfl fun h _ => by simp_all
  case h_13 =>
    exact builds_recover fun _ => builds_here fun _ =>
      builds_finish default (fun _ _ => rfl) rfl False.elim
  all_goals
    exact builds_here fun _ => builds_finish .empty (fun _ _ => rfl) rfl fun h _ => by simp_all

theorem expression_succ :
    Builds .empty (Parser.expression (depth + 1)) Grammar.Expression.ledger := by
  refine fun s => builds_here fun start => builds_kind fun k hk => ?_
  split
  · refine builds_advance hk rfl fun _ _ => ih.declaration.upto rfl fun declaration D _ => ?_
    refine ih.expression.bind fun body E _ => ?_
    exact builds_finish (.letIn D E) (fun _ _ => rfl) rfl fun h _ => by simp_all
  · refine builds_advance hk rfl fun _ _ => ih.expression.upto rfl fun condition D _ => ?_
    refine ih.expression.upto rfl fun first E _ => ih.expression.bind fun second F _ => ?_
    exact builds_finish (.ifElse D E F) (fun _ _ => rfl) rfl fun h _ => by simp_all
  · refine ih.primaryExpression.bind fun first D s => ?_
    exact (ih.operations start _ _ rfl (by simp_all) s).grow (.secondary D ·) (fun _ _ _ => rfl)
      fun tree E _ h => by simp_all

theorem operations_succ (start : Span) (left : Expression) (L : Ledger)
    (hL : L.shape = (left.ids, (left.outline ·))) (hleft : L.whole → left.Complete) :
    Builds L (Parser.operations (depth + 1) start left) (Grammar.Operations.ledger L left) := by
  obtain ⟨_, _, symbols, whole⟩ := L
  cases hL
  refine fun s => builds_looksAt (fun hk => ?_) (builds_pure .none rfl fun h => by simp_all)
  refine builds_terminal "Operator" hk rfl fun operator _ => ?_
  refine ih.primaryExpression.bind fun right D _ => ?_
  refine builds_node "BinaryExpression" .typed none rfl fun mark s => ?_
  exact (ih.operations start _ _ rfl (by simp_all) s).grow (.some operator.spelling D ·)
    (fun _ _ _ => rfl) fun tree E _ h => by simp_all

theorem primaryExpression_succ :
    Builds .empty (Parser.primaryExpression (depth + 1)) Grammar.Primary.ledger := by
  refine fun s => builds_here fun start => builds_kind fun k hk => ?_
  split
  · refine builds_terminal "IntegerLiteral" hk rfl fun literal _ => ?_
    exact builds_finish (.integer literal.spelling) (fun _ _ => rfl) rfl fun h _ => by simp_all
  · refine builds_terminal "CharacterLiteral" hk rfl fun literal _ => ?_
    exact builds_finish (.character literal.spelling) (fun _ _ => rfl) rfl fun h _ => by simp_all
  · refine builds_terminal "Identifier" hk rfl fun name _ => builds_looksAt (fun _ => ?_) ?_
    · refine ih.arguments.bind fun arguments D _ => ?_
      exact builds_finish (.call name.spelling D) (fun _ _ => rfl) rfl fun h _ => by simp_all
    · refine builds_seq (ih.vnameFrom name _ rfl _) fun vname D _ => ?_
      exact builds_finish (.vname (.mk name.spelling D)) (fun _ _ => rfl) rfl fun h _ => by simp_all
  · refine builds_terminal "Operator" hk rfl fun operator _ => ?_
    refine ih.primaryExpression.bind fun operand D _ => ?_
    exact builds_finish (.unary operator.spelling D) (fun _ _ => rfl) rfl fun h _ => by simp_all
  · refine builds_advance hk rfl fun _ _ => ih.expression.upto rfl fun body D _ => ?_
    exact builds_pure (.parens D) rfl fun h => by simp_all
  · refine builds_advance hk rfl fun _ _ => ih.recordAggregate.upto rfl fun fields D _ => ?_
    exact builds_finish (.record D) (fun _ _ => rfl) rfl fun h _ => by simp_all
  · refine builds_advance hk rfl fun _ _ => ih.arrayAggregate.upto rfl fun elements D _ => ?_
    exact builds_finish (.array D) (fun _ _ => rfl) rfl fun h _ => by simp_all
  · exact builds_recover fun _ => builds_finish default (fun _ _ => rfl) rfl False.elim

theorem recordAggregate_succ :
    Builds .empty (Parser.recordAggregate (depth + 1)) Grammar.RecordAggregate.ledger := by
  refine fun s => builds_here fun start => builds_identifier fun field _ => ?_
  refine builds_expect rfl fun _ => ih.expression.bind fun value D _ => ?_
  refine builds_looksAt (fun hk => builds_advance hk rfl fun _ _ => ?_) ?_
  · refine ih.recordAggregate.bind fun rest E _ => ?_
    exact builds_finish (.multiple field.spelling D E) (fun _ _ => rfl) rfl fun h _ => by simp_all
  · exact builds_finish (.single field.spelling D) (fun _ _ => rfl) rfl fun h _ => by simp_all

theorem arrayAggregate_succ :
    Builds .empty (Parser.arrayAggregate (depth + 1)) Grammar.ArrayAggregate.ledger := by
  refine fun s => builds_here fun start => ih.expression.bind fun first D _ => ?_
  refine builds_looksAt (fun hk => builds_advance hk rfl fun _ _ => ?_) ?_
  · refine ih.arrayAggregate.bind fun rest E _ => ?_
    exact builds_finish (.multiple D E) (fun _ _ => rfl) rfl fun h _ => by simp_all
  · exact builds_finish (.single D) (fun _ _ => rfl) rfl fun h _ => by simp_all

theorem vname_succ : Builds .empty (Parser.vname (depth + 1)) Grammar.Vname.ledger := by
  refine fun s => builds_identifier fun name s => ?_
  exact (ih.vnameFrom name _ rfl s).grow (.mk name.spelling) (fun _ _ _ => rfl)
    fun tree D _ h => by simp_all

theorem vnameFrom_succ (name : Terminal) (L : Ledger)
    (hL : L.shape = ([name.mark.id], (name.identifier ·))) :
    Builds L (Parser.vnameFrom (depth + 1) name)
      (Grammar.Selectors.ledger L (.simple default name)) := by
  obtain ⟨_, _, symbols, whole⟩ := L
  cases hL
  refine fun _ => builds_node "SimpleVname" .typed (some name.spelling) rfl fun m s => ?_
  exact (ih.selectors _ _ _ rfl (by simp) s).grow id (fun _ _ _ => rfl)
    fun tree D _ h => by simp_all

theorem selectors_succ (start : Span) (whole : Vname) (L : Ledger)
    (hL : L.shape = (whole.ids, (whole.outline ·))) (hwhole : L.whole → whole.Complete) :
    Builds L (Parser.selectors (depth + 1) start whole) (Grammar.Selectors.ledger L whole) := by
  obtain ⟨_, _, symbols, known⟩ := L
  cases hL
  refine fun s => builds_kind fun k hk => ?_
  split
  · refine builds_advance hk rfl fun _ _ => builds_identifier fun field _ => ?_
    refine builds_node "DotVname" .typed (some whole.root.spelling) rfl fun mark s => ?_
    exact (ih.selectors start _ _ rfl (by simp_all) s).grow (.dot field.spelling ·)
      (fun _ _ _ => rfl) fun tree D _ h => by simp_all
  · refine builds_advance hk rfl fun _ _ => ih.expression.upto rfl fun index D _ => ?_
    refine builds_node "SubscriptVname" .typed (some whole.root.spelling) rfl fun mark s => ?_
    exact (ih.selectors start _ _ rfl (by simp_all) s).grow (.subscript D ·)
      (fun _ _ _ => rfl) fun tree E _ h => by simp_all
  · exact builds_pure .none rfl fun h => by simp_all

theorem arguments_succ :
    Builds .empty (Parser.arguments (depth + 1)) Grammar.Arguments.ledger := by
  refine fun s => builds_expect rfl fun s => builds_here fun start =>
    builds_looksAt (fun _ => ?_) ?_
  · refine builds_node "EmptyActualParameterSequence" .phrase none rfl fun m s => ?_
    rw [pure_bind]
    exact builds_expect rfl fun _ => builds_pure .none rfl fun h => by simp_all
  · refine ih.properArguments.upto rfl fun proper D _ => ?_
    exact builds_pure (.some D) rfl fun h => by simp_all

theorem properArguments_succ :
    Builds .empty (Parser.properArguments (depth + 1)) Grammar.ProperArguments.ledger := by
  refine fun s => builds_here fun start => ih.argument.bind fun first D _ => ?_
  refine builds_looksAt (fun hk => builds_advance hk rfl fun _ _ => ?_) ?_
  · refine ih.properArguments.bind fun rest E _ => ?_
    exact builds_finish (.multiple D E) (fun _ _ => rfl) rfl fun h _ => by simp_all
  · exact builds_finish (.single D) (fun _ _ => rfl) rfl fun h _ => by simp_all

theorem argument_succ :
    Builds .empty (Parser.argument (depth + 1)) Grammar.Argument.ledger := by
  refine fun s => builds_here fun start => builds_kind fun k hk => ?_
  split
  · refine builds_advance hk rfl fun _ _ => ih.vname.bind fun vname D _ => ?_
    exact builds_finish (.var D) (fun _ _ => rfl) rfl fun h _ => by simp_all
  · refine builds_advance hk rfl fun _ _ => builds_identifier fun name _ => ?_
    exact builds_finish (.proc name.spelling) (fun _ _ => rfl) rfl fun h _ => by simp_all
  · refine builds_advance hk rfl fun _ _ => builds_identifier fun name _ => ?_
    exact builds_finish (.func name.spelling) (fun _ _ => rfl) rfl fun h _ => by simp_all
  · refine ih.expression.bind fun value D _ => ?_
    exact builds_finish (.const D) (fun _ _ => rfl) rfl fun h _ => by simp_all

theorem declaration_succ :
    Builds .empty (Parser.declaration (depth + 1)) Grammar.Declaration.ledger := by
  refine fun s => builds_here fun start => ih.singleDeclaration.bind fun first D t => ?_
  refine builds_looksAt (fun hk => ?_) ?_
  · rw [hk]
    refine builds_advance hk rfl fun _ _ => ih.declaration.bind fun second E _ => ?_
    exact builds_finish (.sequential D E) (fun _ _ => rfl) rfl fun h _ => by simp_all
  · exact builds_pure (.single D) rfl fun h => by simp_all

theorem singleDeclaration_succ :
    Builds .empty (Parser.singleDeclaration (depth + 1)) Grammar.SingleDeclaration.ledger := by
  refine fun s => builds_here fun start => builds_kind fun k hk => ?_
  split
  · refine builds_advance hk rfl fun _ _ => builds_identifier fun name _ => ?_
    refine builds_expect rfl fun _ => ih.expression.bind fun value D _ => ?_
    exact builds_finish (.const name.spelling D) (fun _ _ => rfl) rfl fun h _ => by simp_all
  · refine builds_advance hk rfl fun _ _ => builds_identifier fun name _ => ?_
    refine builds_expect rfl fun _ => ih.typeDenoter.bind fun of D _ => ?_
    exact builds_finish (.var name.spelling D) (fun _ _ => rfl) rfl fun h _ => by simp_all
  · refine builds_advance hk rfl fun _ _ => builds_identifier fun name _ => ?_
    refine ih.parameters.upto rfl fun parameters D _ => ih.singleCommand.bind fun body E _ => ?_
    exact builds_finish (.proc name.spelling D E) (fun _ _ => rfl) rfl fun h _ => by simp_all
  · refine builds_advance hk rfl fun _ _ => builds_identifier fun name _ => ?_
    refine ih.parameters.upto rfl fun parameters D _ => ih.typeDenoter.upto rfl fun result E _ => ?_
    refine ih.expression.bind fun body F _ => ?_
    exact builds_finish (.func name.spelling D E F) (fun _ _ => rfl) rfl fun h _ => by simp_all
  · refine builds_advance hk rfl fun _ _ => builds_identifier fun name _ => ?_
    refine builds_expect rfl fun _ => ih.typeDenoter.bind fun of D _ => ?_
    exact builds_finish (.type name.spelling D) (fun _ _ => rfl) rfl fun h _ => by simp_all
  · exact builds_recover fun _ => builds_missing "Identifier" fun _ _ =>
      builds_erroneousType fun _ _ => builds_finish default (fun _ _ => rfl) rfl fun h => h.1.1.elim

end Productive

/-- All productions build, at every depth; at depth zero they have no result. -/
theorem productive (depth : Nat) : Productive depth := by
  induction depth with
  | zero =>
    have hzero : ∀ {α δ : Type} {L : Ledger} {K : α → δ → Kind → Ledger}, Builds L failure K :=
      fun _ _ _ _ _ h => absurd h gives_failure
    constructor <;> intros <;> exact hzero
  | succ depth ih =>
    exact ⟨ih.typeDenoter_succ, ih.fieldDenoters_succ, ih.parameters_succ, ih.properParameters_succ,
      ih.parameter_succ, ih.command_succ, ih.singleCommand_succ, ih.expression_succ,
      ih.operations_succ, ih.primaryExpression_succ, ih.recordAggregate_succ,
      ih.arrayAggregate_succ, ih.vname_succ, ih.vnameFrom_succ, ih.selectors_succ,
      ih.arguments_succ, ih.properArguments_succ, ih.argument_succ, ih.declaration_succ,
      ih.singleDeclaration_succ⟩

/-- A program is read up to the end of the text. -/
theorem builds_program (depth : Nat) : Builds .empty (program depth) Grammar.Program.ledger := by
  rw [program]
  refine fun s => builds_here fun start => (productive depth).command.bind fun c D t => ?_
  refine builds_looksAt (fun hk => ?_) (builds_complain fun t => ?_)
  · intro s₀ p s' hstep hrun
    simp only [if_true, gives_bind, gives_get, gives_pure] at hrun
    obtain ⟨m, _, hm, _, _, ⟨-, rfl⟩, rfl, rfl⟩ := hrun
    refine ⟨⟨D⟩, (hstep.node hm rfl).regard rfl fun h => ?_⟩
    obtain ⟨-, rfl⟩ := gives_modifyGet.1 (gives_node hm)
    simp_all [Grammar.Program.Admissible]
  · exact builds_node "Program" .phrase none rfl fun m t => builds_get fun state =>
      builds_pure default rfl False.elim

/-- Reading starts at a depth that suffices for all tokens left. -/
theorem depthBound_enough (s : ParserState) : 10 * s.left + 1 < depthBound s := by
  simp only [ParserState.left, depthBound]
  split <;> omega

/-- Where calls may nest deeply enough, reading gives a program. -/
theorem program_gives {depth : Nat} {s : ParserState} (hdepth : 10 * s.left + 1 < depth) :
    ∃ p s', Gives (program depth) s p s' ∧ p.issued = s'.issued := by
  obtain ⟨c, t, hc⟩ := answers depth .command s hdepth
  -- nothing that comes after the command can fail
  obtain ⟨p, s', hp, hissued⟩ : ∃ p s', Gives (do
      unless ← looksAt .endOfText do
        complain (.token .endOfText)
      let mark ← node s.current.span
      return (⟨mark, c, (← get).issued⟩ : Program)) t p s' ∧ p.issued = s'.issued := by
    by_cases hend : t.current.kind = .endOfText
    · exact ⟨_, _, gives_bind.2 ⟨true, t, gives_looksAt.2 ⟨by simp [hend], rfl⟩, rfl⟩, rfl⟩
    · exact ⟨_, _, gives_bind.2 ⟨false, t, gives_looksAt.2 ⟨by simp [hend], rfl⟩, rfl⟩, rfl⟩
  exact ⟨p, s', gives_bind.2 ⟨_, s, gives_here.2 ⟨rfl, rfl⟩, gives_bind.2 ⟨c, t, hc, hp⟩⟩, hissued⟩

theorem valued_start (source : Source) (failFast : Bool) : Valued (start source failFast) :=
  have h := Reader.valued_ofSource source failFast
  ⟨h.significant, h.significant_integer, h.significant_line⟩

end Triangle.Parser

namespace Triangle

open Triangle.Parser

/-- Reading a source is a run of the parser from the first token on. -/
theorem parse_step (source : Source) (failFast : Bool) :
    ∃ s', Gives (program (depthBound (start source failFast))) (start source failFast)
      (parse source failFast).program s' ∧ (parse source failFast).log = s'.reader.log ∧
      (parse source failFast).program.issued = s'.issued ∧
      ∃ D, Step (start source failFast)
        (Grammar.Program.ledger (parse source failFast).program D s'.current.kind) s' := by
  obtain ⟨p, s', h, hissued⟩ := program_gives (depthBound_enough _)
  have hstep := builds_program _ _ _ p s' (.refl (valued_start source failFast)) h
  have hparse : parse source failFast = ⟨p, s'.reader.log⟩ := by
    rw [Gives, StateT.run] at h
    rw [parse, h]
  rw [hparse]
  exact ⟨s', h, rfl, hissued, hstep⟩

theorem parse_gives (source : Source) (failFast : Bool) :
    ∃ s', Gives (program (depthBound (start source failFast))) (start source failFast)
      (parse source failFast).program s' ∧ (parse source failFast).log = s'.reader.log := by
  obtain ⟨s', h, hlog, -⟩ := parse_step source failFast
  exact ⟨s', h, hlog⟩

/-- The nodes of a tree that was read have the identities from zero on. -/
theorem parse_ids (source : Source) (failFast : Bool) :
    (parse source failFast).program.ids.Perm
      (List.range (parse source failFast).program.issued) := by
  obtain ⟨s', -, -, hissued, D, hstep⟩ := parse_step source failFast
  have hperm := hstep.issued
  rwa [← hissued] at hperm

/-- The nodes of a tree that was read have greater identities than those below them. -/
theorem parse_ranked (source : Source) (failFast : Bool) :
    Ranked 0 (parse source failFast).program.outline := by
  obtain ⟨s', -, -, -, D, hstep⟩ := parse_step source failFast
  exact hstep.ranked 0

/-- Nothing is missing in a tree that was read without an error. -/
theorem parse_complete {source : Source} {failFast : Bool}
    (h : (parse source failFast).log.errors = 0) :
    (parse source failFast).program.command.Complete := by
  obtain ⟨s', -, hlog, -, D, hstep⟩ := parse_step source failFast
  exact (hstep.whole (show s'.reader.log.errors = 0 by rw [← hlog]; exact h)).1

end Triangle
