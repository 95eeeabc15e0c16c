import Triangle.Proofs.Encoding.Translation
import Triangle.Proofs.Machine.Interpreter
import Triangle.Proofs.Machine.Values

/-!
# Code generation preserves meaning

The steps of the simulation for declarations and commands, and what follows for whole programs:
where a program without routines of its own terminates, so does its code, with an empty stack, and
both have read and written the same.
-/

namespace Triangle

open Machine

variable {value condition : Expression} {s : State} {first second : Command}

variable {device : Device} {A : Annotations} {step : Step} {code : List Instruction} {fuel : Nat}

/-! ## Declarations -/

/-- A literal has the value that stands for it in code. -/
theorem Expression.evaluate_literal {Γ : Context} {τ : Ty} {known : Int} {env : Environment}
    {v : Value} (ht : value.Typed A Γ τ) (hknown : value.literal? = some known)
    (hv : value.evaluate device A fuel env s = some v) :
    v.OfType τ ∧ v.defined = true ∧ v.words = [known] := by
  cases fuel with
  | zero => cases hv
  | succ fuel =>
    cases value with
    | integer m literal =>
      obtain ⟨-, rfl⟩ := ht
      obtain ⟨n, hn, hv⟩ := Option.bind_eq_some_iff.1 hv
      obtain ⟨rfl, hbounded⟩ := Value.integer?_eq_some hv
      obtain rfl : n = known := Option.some.inj (hn.symm.trans hknown)
      exact ⟨⟨rfl, hbounded⟩, rfl, rfl⟩
    | character m literal =>
      obtain ⟨-, rfl⟩ := ht
      obtain ⟨c, hc, heq⟩ := Option.bind_eq_some_iff.1 hv
      cases heq
      have hcode : literal.characterCode? = some known := hknown
      rw [Terminal.characterCode?, hc] at hcode
      cases hcode
      exact ⟨Value.ofType_char c, rfl, rfl⟩
    | _ => cases hknown

theorem Frame.expand_zero {frame above : Frame} (h : frame.expand 0 = .ok above) :
    above = frame := by
  obtain ⟨rfl, -⟩ := Frame.expand_eq h
  rw [Int.add_zero]

theorem Simulation.declaration_succ (hm : Conforms device step)
    (ih : Simulation device A step code fuel) :
    Declaration.Simulated device A step code (fuel + 1) := by
  intro declaration Γ Δ F frame above p q size env inner layout s s' m hfree ht he habove hcode hs
    hv
  cases declaration with
  | binaryOperator mark operator left right result => exact ht.elim
  | unaryOperator mark operator operand result => exact ht.elim
  | func mark name parameters result body => cases hfree
  | proc mark name parameters body => cases hfree
  | const mark name value =>
    obtain ⟨τ, hvalue, -, hfresh, rfl⟩ := ht
    obtain ⟨r, hr, rfl⟩ := he
    have hτ := hvalue.proper hs.proper
    obtain ⟨v, hv₁, heq⟩ := Option.bind_eq_some_iff.1 hv
    cases heq
    split at hr
    · rename_i known hknown
      -- a constant with a literal has no room: its uses load the literal
      obtain ⟨rfl, rfl⟩ := hr
      obtain rfl := Frame.expand_zero habove
      obtain ⟨htype, hdefined, hwords⟩ := Expression.evaluate_literal hvalue hknown hv₁
      refine ⟨[], [], ?_, rfl, ?_⟩
      · rw [Memory.push_nil]
        exact .refl
      · rw [Memory.push_nil, List.append_nil]
        exact hs.bind hτ (.literal htype (hvalue.simple hknown) hdefined hwords)
    · obtain ⟨r', hr', rfl⟩ := hr
      obtain ⟨hreaches, htype, hdefined⟩ := ih.expression hfree hvalue hr' hcode hs hv₁
      have hwords := htype.length_words.trans (hr'.size_eq hvalue).symm
      have hs₁ := ((hs.grows (hr'.grows hvalue)).push hwords habove).fix
      rw [List.nil_append] at hs₁
      -- any other one is kept where its value was pushed
      have hlies : (Denotee.value v).Lies (layout ++ [.fixed v.words]) (.const τ)
          (.unknownValue frame.top) := by
        rw [hs.top]
        exact .value htype hdefined rfl
      exact ⟨v.words, [.fixed v.words], hreaches, hwords, hs₁.bind hτ hlies⟩
  | sequential mark first second =>
    obtain ⟨Θ, hfirst, hsecond⟩ := ht
    obtain ⟨firstSize, above', secondSize, r₁, r₂, hr₁, habove', hr₂, hsum, rfl⟩ := he
    obtain ⟨hfree₁, hfree₂⟩ := Bool.and_eq_true_iff.1 hfree
    obtain ⟨⟨env', s₁⟩, hv₁, hv⟩ := Option.bind_eq_some_iff.1 hv
    obtain ⟨words, new, hreaches, hwords, hs₁⟩ := ih.declaration hfree₁ hfirst hr₁ habove'
      ((hr₂.grows hsecond).code.trans hcode) hs hv₁
    obtain ⟨-, rfl⟩ := Word.add_eq_ok_iff.1 hsum
    have habove'' : above'.expand secondSize = .ok above := by
      obtain ⟨rfl, -⟩ := Frame.expand_eq habove'
      rw [← habove]
      simp only [Frame.expand, Word.add, Int.add_assoc]
    obtain ⟨words', new', hreaches', hwords', hs'⟩ :=
      ih.declaration hfree₂ hsecond hr₂ habove'' hcode hs₁ hv
    rw [Memory.push_push] at hreaches' hs'
    refine ⟨words ++ words', new ++ new', hreaches.trans hreaches', ?_, ?_⟩
    · rw [List.length_append, Int.natCast_add, hwords, hwords']
    · rw [← List.append_assoc]
      exact hs'
  | type mark name of =>
    obtain ⟨τ, hτ, -, hfresh, rfl⟩ := ht
    obtain ⟨rfl, rfl⟩ := he
    obtain rfl := Frame.expand_zero habove
    cases hv
    refine ⟨[], [], ?_, rfl, ?_⟩
    · rw [Memory.push_nil]
      exact .refl
    · rw [Memory.push_nil, List.append_nil]
      exact hs.bindType (hτ.proper hs.proper.types)
  | var mark name of =>
    obtain ⟨τ, hτ, htype, hfresh, rfl⟩ := ht
    obtain ⟨hsize, rfl⟩ := he
    have hproper := hτ.proper hs.proper.types
    obtain rfl := Annotations.words_of_sizeOf htype hsize
    rw [Declaration.elaborate, htype] at hv
    cases hv
    obtain ⟨n, hn⟩ := Int.eq_ofNat_of_zero_le (Int.le_of_lt hproper.words_pos)
    rw [hn] at hcode habove ⊢
    have hinstruction : (p.emit [⟨.push, .cb, 0, (n : Int)⟩]).code <+: code := hcode
    obtain ⟨words, hwords, hstep⟩ := hm.push m n code p.address
      (Draft.getElem?_of_emit hinstruction)
    subst hwords
    have hs₁ := hs.allocate hproper hn.symm habove
    have hlies : (Denotee.variable ⟨.location s.store.length, []⟩).Lies
        (layout ++ [.variable s.store.length τ]) (.var τ) (.knownAddress frame.top) := by
      rw [hs.top]
      exact .variable rfl
    refine ⟨words, [.variable s.store.length τ], ?_, rfl, hs₁.bind hproper hlies⟩
    rw [Draft.address_visit, Draft.address_represent, Draft.address_emit]
    exact .single hstep

/-! ## Commands -/

theorem Denotee.execute_standard {routine : Standard} {passed : List Denotee} {s' : State}
    (h : Denotee.execute device A fuel (.standard routine) passed s = some s') :
    routine.execute device passed s = some s' := by
  cases fuel with
  | zero => cases h
  | succ fuel => exact h

variable {mark : Mark} {body : Command}

theorem Simulation.command_assign (hm : Conforms device step)
    (ih : Simulation device A step code fuel) {target : Vname} :
    Command.SimulatedAt device A step code (fuel + 1) (.assign mark target value) := by
  intro Γ F frame p q env layout s s' m hfree ht he hcode hs hv
  obtain ⟨τ, htarget, hvalue⟩ := ht
  obtain ⟨size, above, access, r₁, r₂, block, hr₁, habove, hr₂, hblock, rfl⟩ := he
  obtain ⟨hfree₁, hfree₂⟩ := Bool.and_eq_true_iff.1 hfree
  obtain ⟨v, hv₁, hv⟩ := Option.bind_eq_some_iff.1 hv
  obtain ⟨place, hv₂, hassign⟩ := Option.bind_eq_some_iff.1 hv
  have hcode₂ : r₂.code <+: code := (List.prefix_append _ _).trans hcode
  obtain ⟨hreaches, htype, hdefined⟩ :=
    ih.expression hfree₂ hvalue hr₁ ((hr₂.grows htarget).code.trans hcode₂) hs hv₁
  obtain rfl := hr₁.size_eq hvalue
  have hs₁ := (hs.grows (hr₁.grows hvalue)).push htype.length_words habove
  obtain ⟨index, hreaches', -, hselects⟩ := ih.vname hfree₁ htarget hr₂ hcode₂ hs₁ hv₂
  obtain ⟨m', hperforms, hs'⟩ := hselects.store hm hs htype hdefined hassign
    (htarget.proper hs.proper).words_pos hblock
  refine ⟨m', (hreaches.trans hreaches').trans ?_, hs'⟩
  simpa using hperforms.reaches hcode

/-- Both values and both addresses are on the stack before the stores. -/
theorem Simulation.command_doubleAssign (hm : Conforms device step)
    (ih : Simulation device A step code fuel) {first second : Vname}
    {firstValue secondValue : Expression} :
    Command.SimulatedAt device A step code (fuel + 1)
      (.doubleAssign mark first second firstValue secondValue) := by
  intro Γ F frame p q env layout s s' m hfree ht he hcode hs hv
  obtain ⟨τ, σ, hfirst, hfirstValue, hsecond, hsecondValue⟩ := ht
  obtain ⟨size, above, access, r₁, r₂, block, above', size', above'', access', r₃, r₄, block', hr₁,
    habove, hr₂, hblock, habove', hr₃, habove'', hr₄, hblock', -, -, rfl⟩ := he
  obtain ⟨hfree', hfree₄⟩ := Bool.and_eq_true_iff.1 hfree
  obtain ⟨hfree', hfree₃⟩ := Bool.and_eq_true_iff.1 hfree'
  obtain ⟨hfree₁, hfree₂⟩ := Bool.and_eq_true_iff.1 hfree'
  obtain ⟨v, hv₁, hv⟩ := Option.bind_eq_some_iff.1 hv
  obtain ⟨place, hv₂, hv⟩ := Option.bind_eq_some_iff.1 hv
  obtain ⟨v', hv₃, hv⟩ := Option.bind_eq_some_iff.1 hv
  obtain ⟨place', hv₄, hv⟩ := Option.bind_eq_some_iff.1 hv
  obtain ⟨s₁, hassign', hassign⟩ := Option.bind_eq_some_iff.1 hv
  have hcode₄ : r₄.code <+: code := (List.prefix_append _ _).trans hcode
  have hcode₃ := (hr₄.grows hsecond).code.trans hcode₄
  have hcode₂' := (hr₃.grows hsecondValue).code.trans hcode₃
  have hcode₂ : r₂.code <+: code := (List.prefix_append _ _).trans hcode₂'
  -- the first value and its address
  obtain ⟨hreaches₁, htype, hdefined⟩ :=
    ih.expression hfree₃ hfirstValue hr₁ ((hr₂.grows hfirst).code.trans hcode₂) hs hv₁
  have hwords := htype.length_words.trans (hr₁.size_eq hfirstValue).symm
  have hs₁ := (hs.grows (hr₁.grows hfirstValue)).push hwords habove
  obtain ⟨index, hreaches₂, -, hselects⟩ := ih.vname hfree₁ hfirst hr₂ hcode₂ hs₁ hv₂
  obtain ⟨address, hlies, hperforms⟩ :=
    hselects.address hm hs₁ (hfirst.proper hs.proper).words_pos hblock
  have hreaches₃ := hperforms.reaches hcode₂'
  have haddressSize : (([address] : List Int).length : Int) = addressSize := rfl
  have hs₂ := (hs₁.grows (hr₂.grows hfirst)).push haddressSize habove'
  -- the second value and its address
  obtain ⟨hreaches₄, htype', hdefined'⟩ :=
    ih.expression hfree₄ hsecondValue hr₃ hcode₃ hs₂ hv₃
  have hwords' := htype'.length_words.trans (hr₃.size_eq hsecondValue).symm
  have hs₃ := (hs₂.congr (hr₃.grows hsecondValue).entities).push hwords' habove''
  obtain ⟨index', hreaches₅, -, hselects'⟩ := ih.vname hfree₂ hsecond hr₄ hcode₄ hs₃ hv₄
  obtain ⟨address', hlies', hperforms'⟩ :=
    hselects'.address hm hs₃ (hsecond.proper hs.proper).words_pos hblock'
  -- the stores
  obtain ⟨before', old', behind', hstack', hold', haddress', hs₄⟩ :=
    hs₂.assign hlies' htype' hdefined' hassign'
  obtain ⟨m₁, hm₁, hs₅⟩ := hs₄.pop
  obtain ⟨m₂, rfl, hs₆⟩ := hs₅.pop
  obtain ⟨before, old, behind, hstack, hold, haddress, hs₇⟩ :=
    hs₆.assign hlies htype hdefined hassign
  have hstore' := (hm.storei _ before' old' behind' v'.words hstack' hold').performs
  rw [haddress', hwords', hm₁] at hstore'
  have hstore := (hm.storei _ before old behind v.words hstack hold).performs
  rw [haddress, hwords] at hstore
  have hstores := (hperforms'.append (hstore'.append hstore)).reaches hcode
  refine ⟨{ m₂ with stack := before ++ v.words ++ behind }, hreaches₁.trans (hreaches₂.trans
    (Relation.ReflTransGen.trans ?_ (hreaches₄.trans (hreaches₅.trans ?_)))), ?_⟩
  · simpa using hreaches₃
  · simpa using hstores
  · rw [← hs.frame_eq] at hs₇
    exact hs₇.shrinks ((hr₁.grows hfirstValue).trans (hr₂.grows hfirst))

theorem Simulation.command_call (hm : Conforms device step)
    (ih : Simulation device A step code fuel) {name : Terminal} {arguments : Arguments} :
    Command.SimulatedAt device A step code (fuel + 1) (.call mark name arguments) := by
  intro Γ F frame p q env layout s s' m hfree ht he hcode hs hv
  obtain ⟨formals, hmeans, harguments⟩ := ht
  obtain ⟨_, above, r, block, hr, -, hblock, rfl⟩ := he
  obtain ⟨routine, hmeaning, hdenotee, hentity⟩ := hs.standard hmeans (.inl rfl)
  obtain ⟨passed, hv₁, hv⟩ := Option.bind_eq_some_iff.1 hv
  rw [hdenotee] at hv
  rw [hentity] at hblock
  obtain ⟨words, hreaches, hpassed⟩ := ih.arguments hfree harguments
    (Standard.data_of_meaning (.inl hmeaning)) hr ((List.prefix_append _ _).trans hcode) hs hv₁
  obtain ⟨m', hperforms, hs'⟩ := Standard.performs_execute hm hs hmeaning hpassed
    (Denotee.execute_standard hv) hblock
  refine ⟨m', hreaches.trans ?_, hs'⟩
  simpa using hperforms.reaches hcode

theorem Simulation.command_ifElse (hm : Conforms device step)
    (ih : Simulation device A step code fuel) :
    Command.SimulatedAt device A step code (fuel + 1) (.ifElse mark condition first second) := by
  intro Γ F frame p q env layout s s' m hfree ht he hcode hs hv
  obtain ⟨hcondition, hfirst, hsecond⟩ := ht
  obtain ⟨_, r₁, r₂, r₃, hr₁, hr₂, hr₃, rfl⟩ := he
  obtain ⟨hfree', hfree₃⟩ := Bool.and_eq_true_iff.1 hfree
  obtain ⟨hfree₁, hfree₂⟩ := Bool.and_eq_true_iff.1 hfree'
  obtain ⟨test, hv₁, hv⟩ := Option.bind_eq_some_iff.1 hv
  have hcode₂ := (hr₃.grows hsecond).code.trans hcode
  have hcode₁ := (hr₂.grows hfirst).code.trans ((List.prefix_append _ _).trans hcode₂)
  obtain ⟨hreaches, htest, htest'⟩ :=
    ih.expression hfree₁ hcondition hr₁ ((List.prefix_append _ _).trans hcode₁) hs hv₁
  have hgrows := (hr₁.grows hcondition).emit [⟨.jumpif, .cb, 0, (r₂.address + 1 : Nat)⟩]
  have hgrows' := (hgrows.trans (hr₂.grows hfirst)).emit [⟨.jump, .cb, 0, r₃.address⟩]
  obtain ⟨x, rfl⟩ := htest.bool htest'
  have hjump := hreaches.trans (reaches_jumpif hm hcode₁)
  cases x with
  | true =>
    obtain ⟨m', hreaches', hs'⟩ :=
      ih.command hfree₂ hfirst hr₂ ((List.prefix_append _ _).trans hcode₂) (hs.grows hgrows) hv
    refine ⟨m', hjump.trans (Relation.ReflTransGen.trans ?_ (reaches_jump hm hcode₂)),
      hs'.shrinks hgrows⟩
    simpa [truth] using hreaches'
  | false =>
    obtain ⟨m', hreaches', hs'⟩ :=
      ih.command hfree₃ hsecond hr₃ hcode (hs.grows hgrows') hv
    refine ⟨m', hjump.trans ?_, hs'.shrinks hgrows'⟩
    simpa [truth] using hreaches'

theorem Simulation.command_letIn (hm : Conforms device step)
    (ih : Simulation device A step code fuel) {declaration : Declaration} :
    Command.SimulatedAt device A step code (fuel + 1) (.letIn mark declaration body) := by
  intro Γ F frame p q env layout s s' m hfree ht he hcode hs hv
  obtain ⟨Δ, hdeclaration, hbody⟩ := ht
  obtain ⟨extra, above, r₁, r₂, hr₁, habove, hr₂, rfl⟩ := he
  obtain ⟨hfree₁, hfree₂⟩ := Bool.and_eq_true_iff.1 hfree
  obtain ⟨⟨inner, s₁⟩, hv₁, hv⟩ := Option.bind_eq_some_iff.1 hv
  obtain ⟨s₂, hv₂, heq⟩ := Option.bind_eq_some_iff.1 hv
  cases heq
  have hcode₂ : r₂.code <+: code := (List.prefix_append _ _).trans hcode
  obtain ⟨words, new, hreaches, hwords, hs₁⟩ := ih.declaration hfree₁ hdeclaration hr₁ habove
    ((hr₂.grows hbody).code.trans hcode₂) hs hv₁
  obtain ⟨m₂, hreaches', hs₂⟩ := ih.command hfree₂ hbody hr₂ hcode₂ hs₁ hv₂
  obtain ⟨m', words', rfl, hwords', hs'⟩ := hs.release hs₂
  -- the blocks are as large as the code for the declarations says
  have hextra : (words'.length : Int) = extra := by
    obtain ⟨habove', -⟩ := Frame.expand_eq habove
    have hframe := hs₁.frame_eq
    rw [habove', hs.frame_eq] at hframe
    have hsizes := congrArg Frame.size hframe
    simp at hsizes
    omega
  have hpop : Performs step (if extra > 0 then [⟨.pop, .cb, 0, extra⟩] else [])
      ((m'.push words').push []) (m'.push []) := performs_pop hm m' hextra rfl
  refine ⟨m', (hreaches.trans hreaches').trans ?_, hs'⟩
  simpa using hpop.reaches hcode

theorem Simulation.command_sequential (ih : Simulation device A step code fuel) :
    Command.SimulatedAt device A step code (fuel + 1) (.sequential mark first second) := by
  intro Γ F frame p q env layout s s' m hfree ht he hcode hs hv
  obtain ⟨hfirst, hsecond⟩ := ht
  obtain ⟨r₁, r₂, hr₁, hr₂, rfl⟩ := he
  obtain ⟨hfree₁, hfree₂⟩ := Bool.and_eq_true_iff.1 hfree
  obtain ⟨s₁, hv₁, hv₂⟩ := Option.bind_eq_some_iff.1 hv
  obtain ⟨m₁, hreaches, hs₁⟩ :=
    ih.command hfree₁ hfirst hr₁ ((hr₂.grows hsecond).code.trans hcode) hs hv₁
  have hgrows := hr₁.grows hfirst
  obtain ⟨m', hreaches', hs'⟩ := ih.command hfree₂ hsecond hr₂ hcode (hs₁.grows hgrows) hv₂
  exact ⟨m', hreaches.trans hreaches', hs'.shrinks hgrows⟩

theorem Simulation.command_whileDo (hm : Conforms device step)
    (ih : Simulation device A step code fuel) :
    Command.SimulatedAt device A step code (fuel + 1) (.whileDo mark condition body) := by
  intro Γ F frame p q env layout s s' m hfree ht he hcode hs hv
  have hcode' := hcode
  have ht' := ht
  have he' := he
  obtain ⟨hcondition, hbody⟩ := ht
  obtain ⟨_, r₁, r₂, hr₁, hr₂, rfl⟩ := he
  obtain ⟨hfree₁, hfree₂⟩ := Bool.and_eq_true_iff.1 hfree
  obtain ⟨test, hv₁, hv⟩ := Option.bind_eq_some_iff.1 hv
  have hcode₂ : r₂.code <+: code := (List.prefix_append _ _).trans hcode
  have hcode₁ := (hr₂.grows hcondition).code.trans hcode₂
  have hcode₀ := (hr₁.grows hbody).code.trans hcode₁
  have hgrows : p.Grows Γ r₁ := ((Draft.Grows.refl Γ p).emit _).trans (hr₁.grows hbody)
  obtain ⟨hreaches, htest, htest'⟩ :=
    ih.expression hfree₁ hcondition hr₂ hcode₂ (hs.grows hgrows) hv₁
  obtain ⟨x, rfl⟩ := htest.bool htest'
  have hjump := (reaches_jump hm hcode₀).trans (hreaches.trans (reaches_jumpif hm hcode))
  cases x with
  | true =>
    obtain ⟨s₁, hv₂, hv₃⟩ := Option.bind_eq_some_iff.1 hv
    obtain ⟨m₁, hreaches', hs₁⟩ := ih.command hfree₂ hbody hr₁ hcode₁ hs hv₂
    obtain ⟨m', hreaches'', hs'⟩ := ih.command hfree ht' he' hcode' hs₁ hv₃
    -- the code of the loop begins with a jump to the condition
    have hle := (hgrows.trans (hr₂.grows hcondition)).code.length_le
    have hrest := hreaches''.of_step (fun heq => by
        have haddress := congrArg Configuration.address heq
        simp only [Draft.address_visit, Draft.address_emit, List.length_singleton] at haddress
        simp only [Draft.address] at haddress
        omega)
      (hm.jump m₁ _ _ _ (Draft.getElem?_of_emit hcode₀))
    refine ⟨m', hjump.trans (Relation.ReflTransGen.trans ?_ hrest), hs'⟩
    simpa [truth] using hreaches'
  | false =>
    cases hv
    refine ⟨m, ?_, hs⟩
    simpa [truth] using hjump

theorem Simulation.command_loopWhile (hm : Conforms device step)
    (ih : Simulation device A step code fuel) {prelude : Command} :
    Command.SimulatedAt device A step code (fuel + 1) (.loopWhile mark prelude condition body) := by
  intro Γ F frame p q env layout s s' m hfree ht he hcode hs hv
  have hcode' := hcode
  have ht' := ht
  have he' := he
  obtain ⟨hprelude, hcondition, hbody⟩ := ht
  obtain ⟨_, r₁, r₂, r₃, hr₁, hr₂, hr₃, rfl⟩ := he
  obtain ⟨hfree', hfree₃⟩ := Bool.and_eq_true_iff.1 hfree
  obtain ⟨hfree₁, hfree₂⟩ := Bool.and_eq_true_iff.1 hfree'
  obtain ⟨s₁, hv₁, hv⟩ := Option.bind_eq_some_iff.1 hv
  obtain ⟨test, hv₂, hv⟩ := Option.bind_eq_some_iff.1 hv
  have hcode₃ : r₃.code <+: code := (List.prefix_append _ _).trans hcode
  have hcode₂ := (hr₃.grows hbody).code.trans hcode₃
  have hcode₂' : r₂.code <+: code := (List.prefix_append _ _).trans hcode₂
  have hgrows := hr₁.grows hprelude
  have hgrows' := hgrows.trans ((hr₂.grows hcondition).emit
    [⟨.jumpif, .cb, 0, (r₃.address + 1 : Nat)⟩])
  obtain ⟨m₁, hreaches, hs₁⟩ :=
    ih.command hfree₁ hprelude hr₁ ((hr₂.grows hcondition).code.trans hcode₂') hs hv₁
  obtain ⟨hreaches', htest, htest'⟩ :=
    ih.expression hfree₂ hcondition hr₂ hcode₂' (hs₁.grows hgrows) hv₂
  obtain ⟨x, rfl⟩ := htest.bool htest'
  have hjump := hreaches.trans (hreaches'.trans (reaches_jumpif hm hcode₂))
  cases x with
  | true =>
    obtain ⟨s₂, hv₃, hv₄⟩ := Option.bind_eq_some_iff.1 hv
    obtain ⟨m₂, hreaches₃, hs₂⟩ := ih.command hfree₃ hbody hr₃ hcode₃ (hs₁.grows hgrows') hv₃
    obtain ⟨m', hreaches₄, hs'⟩ := ih.command hfree ht' he' hcode' (hs₂.shrinks hgrows') hv₄
    refine ⟨m', hjump.trans (Relation.ReflTransGen.trans ?_
      ((reaches_jump hm hcode).trans hreaches₄)), hs'⟩
    simpa [truth] using hreaches₃
  | false =>
    cases hv
    refine ⟨m₁, ?_, hs₁⟩
    simpa [truth] using hjump

theorem Simulation.command_succ (hm : Conforms device step)
    (ih : Simulation device A step code fuel) :
    Command.Simulated device A step code (fuel + 1) := by
  intro command
  cases command with
  | assign mark target value => exact ih.command_assign hm
  | doubleAssign mark first second firstValue secondValue => exact ih.command_doubleAssign hm
  | call mark name arguments => exact ih.command_call hm
  | empty mark =>
    intro Γ F frame p q env layout s s' m hfree ht he hcode hs hv
    obtain rfl := he
    cases hv
    exact ⟨m, .refl, hs⟩
  | ifElse mark condition first second => exact ih.command_ifElse hm
  | letIn mark declaration body => exact ih.command_letIn hm
  | sequential mark first second => exact ih.command_sequential
  | whileDo mark condition body => exact ih.command_whileDo hm
  | loopWhile mark prelude condition body => exact ih.command_loopWhile hm

/-! ## Programs -/

/-- Phrases are simulated by their code, whatever the fuel. -/
theorem simulation (hm : Conforms device step) (fuel : Nat) :
    Simulation device A step code fuel := by
  induction fuel with
  | zero =>
    constructor <;> simp [Expression.Simulated, Expression.SimulatedAt, Expression.evaluate,
      ArrayAggregate.Simulated, ArrayAggregate.evaluate, RecordAggregate.Simulated,
      RecordAggregate.evaluate, Vname.Simulated, Vname.identify, Argument.Simulated,
      Argument.pass, Arguments.Simulated, Arguments.pass, Declaration.Simulated,
      Declaration.elaborate, Command.Simulated, Command.SimulatedAt, Command.execute]
  | succ fuel ih =>
    exact ⟨ih.expression_succ hm, ih.elements_succ, ih.fields_succ, ih.vname_succ hm,
      ih.argument_succ hm, ih.arguments_succ, ih.declaration_succ hm, ih.command_succ hm⟩

/-- The situation before a program runs. -/
theorem Situation.start (input : List Char) (entities : NodeMap Entity) :
    Situation .empty .empty entities .global [] [] (.start input) ⟨[], input, []⟩ where
  proper := fun _ _ h => by cases h
  names := fun _ _ h => by cases h
  covers := ⟨fun _ _ h => (List.not_mem_nil h).elim, List.nodup_nil⟩
  frame_eq := rfl
  fits := by decide
  stack := ⟨[], rfl, .nil⟩
  input := rfl
  output := rfl

/-- Where a program without routines of its own terminates, its code, run from the start with an
empty stack, comes to the end with an empty stack, and has read and written the same. -/
theorem Translates.halts {source : Source} {failFast folding : Bool} {program : Program}
    {A : Annotations} {object : ObjectCode}
    (h : Translates source failFast folding program A object)
    (hfree : program.command.routineFree = true) {device : Device} {step : Step}
    (hm : Conforms device step) {input : List Char} {final : State}
    (hfinal : program.Terminates device A input final) :
    Halts step object.instructions input ⟨[], final.input, final.output⟩ := by
  obtain ⟨trace, q, hq, hcode, -⟩ := h.emits
  obtain ⟨fuel, hfinal⟩ := hfinal
  have hplace : q.code <+: object.instructions := by
    rw [hcode]
    exact List.prefix_append _ _
  obtain ⟨m', hreaches, hs⟩ := (simulation hm fuel).command hfree h.typed hq hplace
    (Situation.start input _) hfinal
  obtain ⟨base, hstack, hholds⟩ := hs.stack
  obtain rfl : base = [] := List.eq_nil_of_length_eq_zero hholds.length
  have hm' : m' = ⟨[], final.input, final.output⟩ := by
    rw [← hs.input, ← hs.output]
    cases m'
    simp_all
  refine ⟨q.address, hm' ▸ hreaches, ?_⟩
  rw [hcode]
  simp [Draft.address]

/-- A source that fills an array in a loop and writes a sum of its elements. -/
def Source.squares : Source :=
  ⟨"squares.tri", "let const n ~ 3; var a: array 3 of Integer; var i: Integer in begin i := 0; " ++
    "while i < n do begin a[i] := i * i; i := i + 1 end; " ++
    "putint(a[1] + (let const k ~ i - 1 in a[k])) end"⟩

set_option maxRecDepth 100000 in
theorem Translates.squares_halts :
    ∃ program A object, Translates .squares false false program A object ∧
      Halts (next .plain) object.instructions [] ⟨[], [], ['5']⟩ := by
  have hrun : (Source.squares.translation? false false).any (fun translation =>
      translation.1.command.routineFree &&
        (translation.1.command.execute .plain translation.2.1 20 .empty (.start [])).map
          (fun final => (final.input, final.output)) == some ([], ['5'])) = true := by
    decide +kernel
  obtain ⟨⟨program, A, object⟩, htranslation, hrun⟩ := (Option.any_eq_true _ _).1 hrun
  obtain ⟨hfree, hrun⟩ := Bool.and_eq_true_iff.1 hrun
  obtain ⟨final, hfinal, heq⟩ := Option.map_eq_some_iff.1 (eq_of_beq hrun)
  obtain ⟨hinput, houtput⟩ := Prod.ext_iff.1 heq
  have h : Translates .squares false false program A object := .of_translation? htranslation
  have hhalts := h.halts hfree (conforms_next .plain) ⟨20, hfinal⟩
  rw [show final.input = [] from hinput, show final.output = ['5'] from houtput] at hhalts
  exact ⟨program, A, object, h, hhalts⟩

end Triangle
