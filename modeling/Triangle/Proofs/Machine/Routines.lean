import Triangle.Proofs.Machine.Situation

/-!
# Standard routines

The code of a standard operator, function or procedure does what the routine does, for operands and
arguments on the stack.
-/

namespace Triangle

open Machine

variable {device : Device} {step : Step} {σ ρ τ : Ty} {a b v : Value} {code : List Instruction}
  {frame : Frame}

/-! ## Values of simple types -/

theorem Value.OfType.bool (h : a.OfType .bool) (hdefined : a.defined = true) :
    ∃ x, a = .bool x := by
  cases a <;> simp_all [Value.OfType, Value.defined]

theorem Value.OfType.int (h : a.OfType .int) (hdefined : a.defined = true) :
    ∃ x, a = .int x ∧ Bounded x := by
  cases a <;> simp_all [Value.OfType, Value.defined]

theorem Value.OfType.char (h : a.OfType .char) (hdefined : a.defined = true) :
    ∃ x, a = .char x ∧ Bounded x := by
  cases a <;> simp_all [Value.OfType, Value.defined]

@[simp] theorem Value.words_bool (x : Bool) : (Value.bool x).words = [truth x] := rfl

@[simp] theorem Value.words_int (x : Int) : (Value.int x).words = [x] := rfl

@[simp] theorem Value.words_char (x : Int) : (Value.char x).words = [x] := rfl

variable {n x words : Int} {routine : Primitive}

theorem Value.integer?_eq_some (h : Value.integer? n = some v) : v = .int n ∧ Bounded n := by
  rw [Value.integer?] at h
  split at h
  · rename_i hn
    cases h
    refine ⟨rfl, ?_⟩
    simp only [Bounded, Machine.maxint, Word.greatest] at *
    omega
  · cases h

theorem Machine.Bounded.word? (h : Bounded n) : Machine.word? n = some n :=
  word?_of_le h.1 h.2

/-- What is no larger than a word is a word. -/
theorem Machine.Bounded.of_natAbs_le (h : Bounded x) (hle : n.natAbs ≤ x.natAbs) : Bounded n := by
  simp only [Bounded, Word.greatest] at *
  omega

theorem Value.ofType_char (c : Char) : (Value.char c.toNat).OfType .char := by
  refine ⟨rfl, ?_⟩
  have hvalid : c.toNat < 0xd800 ∨ 0xdfff < c.toNat ∧ c.toNat < 0x110000 := c.valid
  simp only [Bounded, Word.greatest]
  omega

/-! ## Operators -/

/-- A result that a routine of the machine leaves for two words. -/
theorem performs_result (hm : Conforms device step) (m : Memory) {y z : Int} (hid : routine ≠ .id)
    (h : routine.result? x y = some z) :
    Performs step (primitiveCode routine) (m.push [x, y]) (m.push [z]) := by
  rw [primitiveCode, if_neg hid]
  exact (hm.call _ _ routine (.result m h)).performs

/-- The primitive of a unary operator computes what the operator means. -/
theorem Standard.performs_unary (hm : Conforms device step) (m : Memory) {s : Standard}
    (hmeaning : s.meaning = .unary σ τ) (ha : a.OfType σ) (ha' : a.defined = true)
    (hv : s.unary? a = some v) (hcode : (Entity.ofStandard s).Called frame words code) :
    Performs step code (m.push a.words) (m.push v.words) ∧ v.OfType τ ∧ v.defined = true := by
  cases s <;> cases hmeaning
  obtain ⟨x, rfl⟩ := ha.bool ha'
  cases hv
  obtain rfl : code = primitiveCode .not := hcode
  exact ⟨(hm.call _ _ .not (.not m x)).performs, rfl, rfl⟩

/-- Comparing two values of one type, whose size lies above them. -/
theorem performs_compare (hm : Conforms device step) (m : Memory) {result : Bool}
    (hid : routine ≠ .id) (ha : a.OfType σ) (hb : b.OfType σ) (hn : n = σ.words + σ.words)
    (hacts : a.words.length = b.words.length → routine.Acts device
      (((m.push a.words).push b.words).push [(b.words.length : Int)]) (m.push [truth result])) :
    Performs step (literalCode (n.tdiv 2) ++ primitiveCode routine)
      (m.push (a.words ++ b.words)) (m.push [truth result]) := by
  have h₁ := ha.length_words
  have h₂ := hb.length_words
  have hhalf : n.tdiv 2 = b.words.length := by
    rw [hn, h₂, Int.tdiv_eq_ediv_of_nonneg (by omega)]
    omega
  rw [hhalf, primitiveCode, if_neg hid, ← Memory.push_push]
  exact (hm.loadl _ _).performs.append (hm.call _ _ routine (hacts (by omega))).performs

/-- A truth value that a routine of the machine leaves. -/
theorem performs_truth (hm : Conforms device step) {m m' : Memory} {x : Bool} (hid : routine ≠ .id)
    (h : routine.Acts device m (m'.push [truth x])) :
    Performs step (primitiveCode routine) m (m'.push (Value.bool x).words) ∧
      (Value.bool x).OfType .bool ∧ (Value.bool x).defined = true := by
  rw [primitiveCode, if_neg hid]
  exact ⟨(hm.call _ _ routine h).performs, rfl, rfl⟩

/-- An integer that a routine of the machine leaves. -/
theorem performs_integer (hm : Conforms device step) (m : Memory) {y : Int} (hid : routine ≠ .id)
    (h : routine.result? x y = word? n) (hn : Bounded n) :
    Performs step (primitiveCode routine) (m.push [x, y]) (m.push (Value.int n).words) ∧
      (Value.int n).OfType .int ∧ (Value.int n).defined = true :=
  ⟨performs_result hm m hid (h.trans hn.word?), ⟨rfl, hn⟩, rfl⟩

/-- The code of a binary operator computes what the operator means. -/
theorem Standard.performs_binary (hm : Conforms device step) (m : Memory) {s : Standard}
    (hmeaning : s.Operates σ ρ τ) (ha : a.OfType σ) (ha' : a.defined = true) (hb : b.OfType ρ)
    (hb' : b.defined = true) (hv : s.binary? a b = some v) (hwords : words = σ.words + ρ.words)
    (hcode : (Entity.ofStandard s).Called frame words code) :
    Performs step code (m.push (a.words ++ b.words)) (m.push v.words) ∧ v.OfType τ ∧
      v.defined = true := by
  -- equality takes any two values of one type
  have hequality : s = .eq ∨ s = .ne → τ = .bool ∧ ρ = σ := by
    rintro (rfl | rfl) <;> rcases hmeaning with hmeaning | ⟨hmeaning, rfl⟩ <;> cases hmeaning
    all_goals exact ⟨rfl, rfl⟩
  cases s with
  | eq =>
    obtain ⟨rfl, rfl⟩ := hequality (.inl rfl)
    obtain ⟨same, hsame, rfl⟩ := Option.map_eq_some_iff.1 hv
    obtain rfl := ha.equal?_eq hb ha' hb' hsame
    obtain rfl : code = literalCode (words.tdiv 2) ++ primitiveCode .eq := hcode
    exact ⟨performs_compare hm m (by decide) ha hb hwords (.eq m), rfl, rfl⟩
  | ne =>
    obtain ⟨rfl, rfl⟩ := hequality (.inr rfl)
    obtain ⟨same, hsame, rfl⟩ := Option.map_eq_some_iff.1 hv
    obtain rfl := ha.equal?_eq hb ha' hb' hsame
    obtain rfl : code = literalCode (words.tdiv 2) ++ primitiveCode .ne := hcode
    exact ⟨performs_compare hm m (by decide) ha hb hwords (.ne m), rfl, rfl⟩
  | and_ | or_ =>
    rcases hmeaning with hmeaning | ⟨hmeaning, -⟩ <;> cases hmeaning
    obtain ⟨x, rfl⟩ := ha.bool ha'
    obtain ⟨y, rfl⟩ := hb.bool hb'
    cases hv
    obtain rfl := hcode
    first
      | exact performs_truth hm (by decide) (.and m x y)
      | exact performs_truth hm (by decide) (.or m x y)
  | add | sub | mult =>
    rcases hmeaning with hmeaning | ⟨hmeaning, -⟩ <;> cases hmeaning
    obtain ⟨x, rfl, hx⟩ := ha.int ha'
    obtain ⟨y, rfl, hy⟩ := hb.int hb'
    obtain ⟨rfl, hn⟩ := Value.integer?_eq_some hv
    obtain rfl := hcode
    exact performs_integer hm m (by decide) rfl hn
  | div | mod =>
    rcases hmeaning with hmeaning | ⟨hmeaning, -⟩ <;> cases hmeaning
    obtain ⟨x, rfl, hx⟩ := ha.int ha'
    obtain ⟨y, rfl, hy⟩ := hb.int hb'
    obtain rfl := hcode
    rw [Standard.binary?] at hv
    split at hv
    · cases hv
    · rename_i hne
      cases hv
      refine performs_integer hm m (by decide) (if_neg hne) (hx.of_natAbs_le ?_)
      first
        | exact Int.natAbs_tdiv_le_natAbs x y
        | (rw [Int.natAbs_tmod]; exact Nat.mod_le _ _)
  | lt | le | gt | ge =>
    rcases hmeaning with hmeaning | ⟨hmeaning, -⟩ <;> cases hmeaning
    obtain ⟨x, rfl, hx⟩ := ha.int ha'
    obtain ⟨y, rfl, hy⟩ := hb.int hb'
    cases hv
    obtain rfl := hcode
    exact performs_truth hm (by decide) (.result m rfl)
  | _ => rcases hmeaning with hmeaning | ⟨hmeaning, -⟩ <;> cases hmeaning

/-! ## Functions and procedures -/

/-- What was passed for formal parameters that are constants and variables, and its words. -/
inductive Formals.Passed (layout : Layout) : Formals → List Denotee → List Int → Prop
  | nil : Passed layout .nil [] []
  | const {v : Value} {τ : Ty} {others : Formals} {passed : List Denotee} {words : List Int}
    (type : v.OfType τ) (defined : v.defined = true) (rest : Passed layout others passed words) :
    Passed layout (.cons (.const τ) others) (.value v :: passed) (v.words ++ words)
  | var {place : Place} {τ : Ty} {address : Int} {others : Formals} {passed : List Denotee}
    {words : List Int} (lies : place.Lies layout τ address)
    (rest : Passed layout others passed words) :
    Passed layout (.cons (.var τ) others) (.variable place :: passed) (address :: words)

/-- A formal parameter that is a constant or a variable. -/
def Formal.Data : Formal → Prop
  | .const _ | .var _ => True
  | .proc _ | .func _ _ => False

/-- Formal parameters all of which are constants and variables. -/
def Formals.Data : Formals → Prop
  | .nil => True
  | .cons formal others => formal.Data ∧ others.Data

theorem Standard.data_of_meaning {s : Standard} {formals : Formals}
    (h : s.meaning = .proc formals ∨ ∃ τ, s.meaning = .func formals τ) : formals.Data := by
  obtain h | ⟨τ, h⟩ := h
  all_goals cases s <;> cases h <;> simp [Formals.ofList, Formals.Data, Formal.Data]

theorem Formals.Passed.cons {layout : Layout} {formal : Formal} {others : Formals}
    {denotee : Denotee} {passed : List Denotee} {first rest : List Int}
    (h : (Formals.cons formal .nil).Passed layout [denotee] first)
    (h' : others.Passed layout passed rest) :
    (Formals.cons formal others).Passed layout (denotee :: passed) (first ++ rest) := by
  cases h with
  | const type defined rest =>
    cases rest
    rw [List.append_nil]
    exact .const type defined h'
  | var lies rest =>
    cases rest
    exact .var lies h'

theorem Formals.Passed.length {layout : Layout} {formals : Formals} {passed : List Denotee}
    {words : List Int} (h : formals.Passed layout passed words) :
    (words.length : Int) = formals.words := by
  induction h with
  | nil => rfl
  | const type defined rest ih =>
    rw [List.length_append, Int.natCast_add, type.length_words, ih, Formals.words, Formal.words]
  | var lies rest ih =>
    rw [List.length_cons, Int.natCast_succ, ih, Formals.words, Int.add_comm]
    rfl

section

variable {Γ : Context} {env : Environment} {entities : NodeMap Entity} {layout : Layout}
  {s s' : State} {m : Memory} {formals : Formals} {passed : List Denotee} {pushed : List Int}

theorem Standard.performs_apply (hm : Conforms device step) {routine : Standard} {temps : List Int}
    (hs : Situation Γ env entities frame layout temps s m)
    (hmeaning : routine.meaning = .func formals τ) (hpassed : formals.Passed layout passed pushed)
    (hv : routine.apply device passed s = some v) {frame' : Frame}
    (hcode : (Entity.ofStandard routine).Called frame' words code) :
    Performs step code (m.push pushed) (m.push v.words) ∧ v.OfType τ ∧ v.defined = true := by
  cases routine with
  | chr =>
    cases hmeaning
    cases hpassed with
    | const type defined rest =>
    cases rest
    obtain ⟨x, rfl, hx⟩ := type.int defined
    cases hv
    obtain rfl : code = [] := hcode
    exact ⟨.nil _, ⟨rfl, hx⟩, rfl⟩
  | ord =>
    cases hmeaning
    cases hpassed with
    | const type defined rest =>
    cases rest
    obtain ⟨x, rfl, hx⟩ := type.char defined
    cases hv
    obtain rfl : code = [] := hcode
    exact ⟨.nil _, ⟨rfl, hx⟩, rfl⟩
  | eof | eol =>
    cases hmeaning
    cases hpassed
    cases hv
    obtain rfl := hcode
    rw [Memory.push_nil, ← hs.input]
    first
      | exact performs_truth hm (by decide) (.eof m)
      | exact performs_truth hm (by decide) (.eol m)
  | _ => cases hmeaning

/-- Other input and output. -/
theorem Situation.transmit (hs : Situation Γ env entities frame layout [] s m) {m' : Memory}
    (hstore : s'.store = s.store) (hstack : m'.stack = m.stack) (hinput : m'.input = s'.input)
    (houtput : m'.output = s'.output) : Situation Γ env entities frame layout [] s' m' :=
  ⟨hs.proper, hs.names, hstore ▸ hs.covers, hs.frame_eq, hs.fits, hstore ▸ hstack ▸ hs.stack,
    hinput, houtput⟩

/-- What is read goes into a variable. -/
theorem Situation.read (hs : Situation Γ env entities frame layout [] s m) {place : Place}
    {address : Int} {rest : List Char} (hlies : place.Lies layout τ address) (htype : v.OfType τ)
    (hdefined : v.defined = true) (hwords : v.words = [n])
    (hassign : State.assign { s with input := rest } place v = some s') :
    ∃ before old behind, m.stack = before ++ [old] ++ behind ∧ (before.length : Int) = address ∧
      Situation Γ env entities frame layout [] s'
        { m with stack := before ++ [n] ++ behind, input := rest } := by
  have hs₁ : Situation Γ env entities frame layout [] { s with input := rest }
      { m with input := rest } := hs.transmit rfl rfl rfl hs.output
  obtain ⟨before, old, behind, hstack, hold, haddress, hs'⟩ :=
    hs₁.assign hlies htype hdefined hassign
  rw [hwords] at hold hs'
  obtain ⟨word, rfl⟩ := List.length_eq_one_iff.1 hold
  exact ⟨before, word, behind, hstack, haddress, hs'⟩

theorem Standard.performs_execute (hm : Conforms device step) {routine : Standard}
    (hs : Situation Γ env entities frame layout [] s m) (hmeaning : routine.meaning = .proc formals)
    (hpassed : formals.Passed layout passed pushed)
    (hs' : routine.execute device passed s = some s') {frame' : Frame}
    (hcode : (Entity.ofStandard routine).Called frame' words code) :
    ∃ m', Performs step code (m.push pushed) m' ∧
      Situation Γ env entities frame layout [] s' m' := by
  -- what is read goes to the one word whose address was pushed
  cases routine with
  | get =>
    cases hmeaning
    cases hpassed with
    | var lies rest =>
    cases rest
    obtain ⟨⟨c, rest⟩, hget, hassign⟩ := Option.bind_eq_some_iff.1 hs'
    have hc := Value.ofType_char c
    obtain ⟨before, old, behind, hstack, rfl, hs''⟩ := hs.read lies hc rfl rfl hassign
    obtain rfl : code = primitiveCode .get := hcode
    exact ⟨_, (hm.call _ _ .get (.get hstack (by rw [hs.input]; exact hget))).performs, hs''⟩
  | getint =>
    cases hmeaning
    cases hpassed with
    | var lies rest =>
    cases rest
    obtain ⟨⟨n, rest⟩, hget, hs'⟩ := Option.bind_eq_some_iff.1 hs'
    obtain ⟨v, hv, hassign⟩ := Option.bind_eq_some_iff.1 hs'
    obtain ⟨rfl, hn⟩ := Value.integer?_eq_some hv
    have hn : (Value.int n).OfType .int := ⟨rfl, hn⟩
    obtain ⟨before, old, behind, hstack, rfl, hs''⟩ := hs.read lies hn rfl rfl hassign
    obtain rfl : code = primitiveCode .getint := hcode
    exact ⟨_, (hm.call _ _ .getint (.getint hstack (by rw [hs.input]; exact hget))).performs, hs''⟩
  | geteol =>
    cases hmeaning
    cases hpassed
    obtain ⟨rest, hget, hs'⟩ := Option.bind_eq_some_iff.1 hs'
    cases hs'
    obtain rfl : code = primitiveCode .geteol := hcode
    rw [Memory.push_nil]
    rw [← hs.input] at hget
    exact ⟨_, (hm.call _ _ .geteol (.geteol hget)).performs, hs.transmit rfl rfl rfl hs.output⟩
  | put =>
    cases hmeaning
    cases hpassed with
    | const type defined rest =>
    cases rest
    obtain ⟨x, rfl, hx⟩ := type.char defined
    cases hs'
    obtain rfl : code = primitiveCode .put := hcode
    exact ⟨_, (hm.call _ _ .put (.put m x)).performs,
      hs.transmit rfl rfl hs.input (congrArg (· ++ device.put x) hs.output)⟩
  | putint =>
    cases hmeaning
    cases hpassed with
    | const type defined rest =>
    cases rest
    obtain ⟨x, rfl, hx⟩ := type.int defined
    cases hs'
    obtain rfl : code = primitiveCode .putint := hcode
    exact ⟨_, (hm.call _ _ .putint (.putint m x)).performs,
      hs.transmit rfl rfl hs.input (congrArg (· ++ device.putint x) hs.output)⟩
  | puteol =>
    cases hmeaning
    cases hpassed
    cases hs'
    obtain rfl : code = primitiveCode .puteol := hcode
    rw [Memory.push_nil]
    exact ⟨_, (hm.call _ _ .puteol (.puteol m)).performs,
      hs.transmit rfl rfl hs.input (congrArg (· ++ device.puteol) hs.output)⟩
  | _ => cases hmeaning

end

end Triangle
