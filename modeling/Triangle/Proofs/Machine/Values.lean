import Triangle.Proofs.Machine.Simulation

/-!
# The code of values

The steps of the simulation for V-names, aggregates, arguments and expressions.
-/

namespace Triangle

open Machine

variable {device : Device} {A : Annotations} {step : Step} {code : List Instruction} {fuel : Nat}

/-! ## Words of aggregates -/

theorem Value.words_cons (selector : Selector) (value : Value) (rest : Parts) :
    (Value.composite (.cons selector value rest)).words =
      value.words ++ (Value.composite rest).words := by
  simp [Value.words, Value.cells, Parts.cells]

theorem Value.words_ofElements (values : List Value) (start : Int) :
    (Value.composite (.ofElements start values)).words = values.flatMap Value.words := by
  induction values generalizing start with
  | nil => rfl
  | cons value rest ih => rw [Parts.ofElements, Value.words_cons, ih, List.flatMap_cons]

theorem Parts.defined_ofElements (values : List Value) (start : Int)
    (h : ∀ value ∈ values, value.defined = true) :
    (Parts.ofElements start values).defined = true := by
  induction values generalizing start with
  | nil => rfl
  | cons value rest ih =>
    rw [Parts.ofElements, Parts.defined, h value List.mem_cons_self,
      ih (start + 1) fun other hother => h other (List.mem_cons_of_mem value hother)]
    rfl

/-! ## Aggregates -/

theorem Simulation.elements_succ (ih : Simulation device A step code fuel) :
    ArrayAggregate.Simulated device A step code (fuel + 1) := by
  intro elements Γ τ length F frame p q size env layout temps s m values hfree ht he hcode hs hv
  cases elements with
  | single mark element =>
    obtain ⟨ht, rfl⟩ := ht
    obtain ⟨r, hr, rfl⟩ := he
    obtain ⟨v, hv₁, heq⟩ := Option.bind_eq_some_iff.1 hv
    cases heq
    obtain ⟨hreaches, htype, hdefined⟩ := ih.expression hfree ht hr hcode hs hv₁
    refine ⟨?_, ?_, rfl⟩
    · simpa using hreaches
    · simpa using ⟨htype, hdefined⟩
  | multiple mark first rest =>
    obtain ⟨others, hfirst, hrest, rfl⟩ := ht
    obtain ⟨firstSize, above, restSize, r₁, r₂, hr₁, habove, hr₂, -, rfl⟩ := he
    obtain ⟨hfree₁, hfree₂⟩ := Bool.and_eq_true_iff.1 hfree
    obtain ⟨v, hv₁, hvs⟩ := Option.bind_eq_some_iff.1 hv
    obtain ⟨vs, hv₂, heq⟩ := Option.bind_eq_some_iff.1 hvs
    cases heq
    obtain ⟨hreaches, htype, hdefined⟩ :=
      ih.expression hfree₁ hfirst hr₁ ((hr₂.grows hrest).code.trans hcode) hs hv₁
    have hwords : (v.words.length : Int) = firstSize := by
      rw [htype.length_words, hr₁.size_eq hfirst]
    have hs₁ := (hs.grows (hr₁.grows hfirst)).push hwords habove
    obtain ⟨hreaches', hvalues, hlength⟩ := ih.elements hfree₂ hrest hr₂ hcode hs₁ hv₂
    refine ⟨?_, ?_, ?_⟩
    · rw [Memory.push_push] at hreaches'
      exact hreaches.trans hreaches'
    · rintro value (_ | ⟨_, hmem⟩)
      · exact ⟨htype, hdefined⟩
      · exact hvalues value hmem
    · rw [List.length_cons, Int.natCast_succ, hlength]

theorem Simulation.fields_succ (ih : Simulation device A step code fuel) :
    RecordAggregate.Simulated device A step code (fuel + 1) := by
  intro fields Γ fs F frame p q size env layout temps s m parts hfree ht he hcode hs hv
  cases fields with
  | single mark field value =>
    obtain ⟨τ, ht, rfl⟩ := ht
    obtain ⟨r, hr, rfl⟩ := he
    obtain ⟨v, hv₁, heq⟩ := Option.bind_eq_some_iff.1 hv
    cases heq
    obtain ⟨hreaches, htype, hdefined⟩ := ih.expression hfree ht hr hcode hs hv₁
    refine ⟨?_, ⟨_, _, _, rfl, rfl, htype, rfl⟩, ?_⟩
    · rw [Value.words_cons]
      exact (List.append_nil v.words).symm ▸ hreaches
    · rw [Parts.defined, hdefined]
      rfl
  | multiple mark field value rest =>
    obtain ⟨τ, others, hvalue, hrest, -, rfl⟩ := ht
    obtain ⟨firstSize, above, restSize, r₁, r₂, hr₁, habove, hr₂, -, rfl⟩ := he
    obtain ⟨hfree₁, hfree₂⟩ := Bool.and_eq_true_iff.1 hfree
    obtain ⟨v, hv₁, hvs⟩ := Option.bind_eq_some_iff.1 hv
    obtain ⟨vs, hv₂, heq⟩ := Option.bind_eq_some_iff.1 hvs
    cases heq
    obtain ⟨hreaches, htype, hdefined⟩ :=
      ih.expression hfree₁ hvalue hr₁ ((hr₂.grows hrest).code.trans hcode) hs hv₁
    have hwords : (v.words.length : Int) = firstSize := by
      rw [htype.length_words, hr₁.size_eq hvalue]
    have hs₁ := (hs.grows (hr₁.grows hvalue)).push hwords habove
    obtain ⟨hreaches', hparts, hdefined'⟩ := ih.fields hfree₂ hrest hr₂ hcode hs₁ hv₂
    refine ⟨?_, ⟨_, _, _, rfl, rfl, htype, hparts⟩, ?_⟩
    · rw [Memory.push_push, ← Value.words_cons] at hreaches'
      exact hreaches.trans hreaches'
    · rw [Parts.defined, hdefined, hdefined']
      rfl

/-! ## V-names -/

variable {s : State} {m : Memory} {operator : Terminal} {mark : Mark}

/-- An integer literal has the value that the code has for it. -/
theorem Expression.evaluate_integerLiteral {index : Expression} {n i : Int} {env : Environment}
    (hn : index.integerLiteral? = some n)
    (hi : index.evaluate device A fuel env s = some (.int i)) :
    i = n := by
  cases index with
  | integer m literal =>
    cases fuel with
    | zero => cases hi
    | succ fuel =>
      obtain ⟨x, hx, hi⟩ := Option.bind_eq_some_iff.1 hi
      obtain ⟨heq, -⟩ := Value.integer?_eq_some hi
      cases heq
      exact Option.some.inj (hx.symm.trans hn)
  | _ => cases hn

theorem Simulation.vname_succ (hm : Conforms device step)
    (ih : Simulation device A step code fuel) :
    Vname.Simulated device A step code (fuel + 1) := by
  intro vname Γ τ assignable F frame p q access env layout temps s m place hfree ht he hcode hs hv
  cases vname with
  | simple mark name =>
    have hτ := ht.proper hs.proper
    obtain ⟨-, hmeans⟩ := ht
    obtain ⟨rfl, rfl⟩ := he
    have hmeaning : ∃ σ, (if assignable then Meaning.var τ else .const τ) = .const σ ∨
        (if assignable then Meaning.var τ else .const τ) = .var σ := by
      cases assignable
      · exact ⟨τ, .inl rfl⟩
      · exact ⟨τ, .inr rfl⟩
    obtain ⟨denotee, hdenotee, hlies⟩ := hs.name hmeans hmeaning
    obtain ⟨place', hplace, hselects⟩ :=
      Access.Selects.ofName hs hτ rfl hlies
    rw [Vname.identify, hdenotee] at hv
    obtain rfl : place' = place := by
      obtain rfl | ⟨value, rfl, rfl⟩ := hplace <;> exact Option.some.inj hv
    exact ⟨0, .refl, fun _ => rfl, hselects⟩
  | dot mark record field =>
    obtain ⟨-, fs, offset, hrecord, hfield⟩ := ht
    obtain ⟨whole, offset', sum, r, hr, hoffset, hsum, rfl, rfl⟩ := he
    obtain ⟨place', hplace', hselect⟩ := Option.bind_eq_some_iff.1 hv
    have hfree' : record.routineFree = true := hfree
    have hcode' : r.code <+: code := hcode
    obtain ⟨index, hreaches, hdirect, hselects⟩ := ih.vname hfree' hrecord hr hcode' hs hplace'
    have hsame : offset' = offset := by
      rw [Annotations.fieldOffset, hrecord.typeOf] at hoffset
      simp only [hfield] at hoffset
      cases hoffset
      rfl
    subst hsame
    exact ⟨index, hreaches, hdirect, hselects.field hfield hselect hsum⟩
  | subscript mark array index =>
    obtain ⟨htype, length, harray, hindex⟩ := ht
    obtain ⟨whole, element, r, r', hr, helement, hcase, rfl⟩ := he
    obtain ⟨hfree₁, hfree₂⟩ := Bool.and_eq_true_iff.1 hfree
    obtain rfl := Annotations.words_of_sizeOf htype helement
    obtain ⟨place', hplace', hv⟩ := Option.bind_eq_some_iff.1 hv
    obtain ⟨value, hvalue, hselect⟩ := Option.bind_eq_some_iff.1 hv
    obtain ⟨i, rfl⟩ : ∃ i, value = .int i := by
      cases value with
      | int i => exact ⟨i, rfl⟩
      | _ => cases hselect
    have hselect : s.select place' (.index i) = some place := hselect
    split at hcase
    · -- the subscript is part of the offset
      rename_i n hn
      obtain ⟨rfl, words, sum, hwords, hsum, rfl⟩ := hcase
      obtain rfl := Expression.evaluate_integerLiteral hn hvalue
      obtain ⟨-, rfl⟩ := Word.mul_eq_ok_iff.1 hwords
      obtain ⟨-, rfl⟩ := Word.add_eq_ok_iff.1 hsum
      obtain ⟨k, hreaches, hdirect, hselects⟩ := ih.vname hfree₁ harray hr hcode hs hplace'
      obtain ⟨h₁, -, h₂, h₃, -, -, -, hle, hlt⟩ := hselects.bounds_index hs hselect
      refine ⟨k, hreaches, hdirect, hselects.element hselect hle hlt rfl ?_ hdirect ?_ h₂⟩
      · simp only
        omega
      · simp only
        omega
    · -- the subscript is computed, and scaled and added to the index before it
      obtain ⟨above, size, r'', habove, hr'', rfl, rfl⟩ := hcase
      have hgrows := hr''.grows hindex
      have hcode' : r''.code <+: code := (List.prefix_append _ _).trans hcode
      obtain ⟨k, hreaches, hdirect, hselects⟩ :=
        ih.vname hfree₁ harray hr (hgrows.code.trans hcode') hs hplace'
      have hs₁ : ∃ temps', Situation Γ env r.entities above layout temps' s (whole.after k m) := by
        have hs' := hs.grows (hr.grows harray)
        cases hindexed : whole.indexed with
        | false =>
          rw [hindexed] at habove
          cases habove
          rw [Access.after, hindexed]
          exact ⟨temps, hs'⟩
        | true =>
          have hwords : (([k] : List Int).length : Int) = primitiveSize := rfl
          rw [hindexed] at habove
          rw [Access.after, hindexed]
          exact ⟨_, hs'.push hwords habove⟩
      obtain ⟨temps', hs₁⟩ := hs₁
      obtain ⟨hreaches', -, -⟩ := ih.expression hfree₂ hindex hr'' hcode' hs₁ hvalue
      obtain ⟨h₁, h₂, h₃, h₄, h₅, -, -, hle, hlt⟩ := hselects.bounds_index hs hselect
      have hscale := (performs_scale hm m hdirect h₁ h₂ h₃ h₅).reaches hcode
      refine ⟨k + i * τ.words, (hreaches.trans hreaches').trans ?_, by simp,
        hselects.element hselect hle hlt rfl ?_ (by simp) h₄ (by omega)⟩
      · simpa [Access.after] using hscale
      · simp only
        omega

/-! ## Arguments -/

theorem Simulation.argument_succ (hm : Conforms device step)
    (ih : Simulation device A step code fuel) :
    Argument.Simulated device A step code (fuel + 1) := by
  intro argument Γ formal F frame p q size env layout temps s m passed hfree ht hdata he hcode hs hv
  cases argument with
  | const mark value =>
    obtain ⟨τ, ht, rfl⟩ := ht
    obtain ⟨r, hr, rfl⟩ := he
    obtain ⟨v, hv₁, heq⟩ := Option.bind_eq_some_iff.1 hv
    cases heq
    obtain ⟨hreaches, htype, hdefined⟩ := ih.expression hfree ht hr hcode hs hv₁
    exact ⟨v.words ++ [], by rwa [List.append_nil], .const htype hdefined .nil⟩
  | func mark name =>
    obtain ⟨_, _, -, rfl⟩ := ht
    exact hdata.elim
  | proc mark name =>
    obtain ⟨_, -, rfl⟩ := ht
    exact hdata.elim
  | var mark vname =>
    obtain ⟨τ, ht, rfl⟩ := ht
    obtain ⟨access, r, block, hr, hblock, -, rfl⟩ := he
    obtain ⟨place, hv₁, heq⟩ := Option.bind_eq_some_iff.1 hv
    cases heq
    obtain ⟨index, hreaches, hdirect, hselects⟩ :=
      ih.vname hfree ht hr ((List.prefix_append _ _).trans hcode) hs hv₁
    obtain ⟨address, hlies, hperforms⟩ :=
      hselects.address hm hs (ht.proper hs.proper).words_pos hblock
    refine ⟨[address], hreaches.trans ?_, .var hlies .nil⟩
    simpa using hperforms.reaches hcode

theorem Simulation.arguments_succ (ih : Simulation device A step code fuel) :
    Arguments.Simulated device A step code (fuel + 1) := by
  intro arguments Γ formals F frame p q size env layout temps s m passed hfree ht hdata he hcode hs
    hv
  cases arguments with
  | empty mark =>
    obtain rfl := ht
    obtain ⟨-, rfl⟩ := he
    cases hv
    exact ⟨[], by rw [Memory.push_nil]; exact .refl, .nil⟩
  | single mark argument =>
    obtain ⟨formal, ht, rfl⟩ := ht
    obtain ⟨r, hr, rfl⟩ := he
    obtain ⟨v, hv₁, heq⟩ := Option.bind_eq_some_iff.1 hv
    cases heq
    obtain ⟨words, hreaches, hpassed⟩ := ih.argument hfree ht hdata.1 hr hcode hs hv₁
    exact ⟨words, hreaches, hpassed⟩
  | multiple mark first rest =>
    obtain ⟨formal, others, hfirst, hrest, rfl⟩ := ht
    obtain ⟨firstSize, above, restSize, r₁, r₂, hr₁, habove, hr₂, -, rfl⟩ := he
    obtain ⟨hfree₁, hfree₂⟩ := Bool.and_eq_true_iff.1 hfree
    obtain ⟨v, hv₁, hvs⟩ := Option.bind_eq_some_iff.1 hv
    obtain ⟨vs, hv₂, heq⟩ := Option.bind_eq_some_iff.1 hvs
    cases heq
    obtain ⟨words, hreaches, hpassed⟩ :=
      ih.argument hfree₁ hfirst hdata.1 hr₁ ((hr₂.grows hrest).code.trans hcode) hs hv₁
    have hwords : (words.length : Int) = firstSize := by
      rw [hpassed.length, hr₁.size_eq hfirst, Formals.words, Formals.words, Int.add_zero]
    have hs₁ := (hs.grows (hr₁.grows hfirst)).push hwords habove
    obtain ⟨words', hreaches', hpassed'⟩ := ih.arguments hfree₂ hrest hdata.2 hr₂ hcode hs₁ hv₂
    rw [Memory.push_push] at hreaches'
    exact ⟨words ++ words', hreaches.trans hreaches', hpassed.cons hpassed'⟩

/-! ## Expressions

The words of an expression end up above all that was on the stack, and below them the situation is
as it was.  The cases differ in what joins the words of the parts. -/

/-- The names of routines are those of the standard environment. -/
theorem Situation.standard {Γ : Context} {env : Environment} {entities : NodeMap Entity}
    {frame : Frame} {layout : Layout} {temps : List Int}
    (hs : Situation Γ env entities frame layout temps s m) {name : Terminal} {meaning : Meaning}
    {formals : Formals} (hmeans : A.Means Γ name meaning)
    (hroutine : meaning = .proc formals ∨ ∃ τ, meaning = .func formals τ) :
    ∃ routine : Standard, routine.meaning = meaning ∧
      A.denotee? env name = some (.standard routine) ∧
      ∀ entities, A.entityOf entities name = .ofStandard routine := by
  obtain ⟨referent, hreferent, hmeaning⟩ := hmeans
  cases referent with
  | node id =>
    obtain ⟨τ, rfl⟩ | ⟨denotee, -, hlies⟩ := hs.names hmeaning
    · obtain h | ⟨_, h⟩ := hroutine <;> cases h
    · generalize entities.entity id = entity at hlies
      cases hlies <;> obtain h | ⟨_, h⟩ := hroutine <;> cases h
  | standard routine =>
    have hmeaning : routine.meaning = meaning := Option.some.inj hmeaning
    refine ⟨routine, hmeaning, ?_, fun _ => Annotations.entityOf_standard hreferent⟩
    rw [Annotations.denotee?, hreferent]
    obtain rfl | ⟨_, rfl⟩ := hroutine <;> cases routine <;> cases hmeaning <;> rfl

theorem Denotee.apply_standard {routine : Standard} {passed : List Denotee} {v : Value}
    (h : Denotee.apply device A fuel (.standard routine) passed s = some v) :
    routine.apply device passed s = some v := by
  cases fuel with
  | zero => cases h
  | succ fuel => exact h

theorem Annotations.operator?_eq {s : Standard}
    (h : A.referentOf? operator.mark.id = some (.standard s)) : A.operator? operator = some s := by
  rw [Annotations.operator?, h]

/-- The words of a block are dropped below those that are kept. -/
theorem performs_pop (hm : Conforms device step) (m : Memory) {words kept : List Int}
    {extra size : Int} (hwords : (words.length : Int) = extra)
    (hkept : (kept.length : Int) = size) :
    Performs step (if extra > 0 then [⟨.pop, .cb, size, extra⟩] else [])
      ((m.push words).push kept) (m.push kept) := by
  subst hwords hkept
  split
  · exact (hm.pop m words kept).performs
  · obtain rfl : words = [] := List.eq_nil_of_length_eq_zero (by omega)
    rw [Memory.push_nil]
    exact .nil _

theorem reaches_jump (hm : Conforms device step) {r : Draft} {target : Nat}
    (hcode : (r.emit [⟨.jump, .cb, 0, target⟩]).code <+: code) :
    Reaches step code ⟨r.address, m⟩ ⟨target, m⟩ :=
  .single (hm.jump _ _ _ _ (Draft.getElem?_of_emit hcode))

theorem reaches_jumpif (hm : Conforms device step) {r : Draft} {word n : Int} {target : Nat}
    (hcode : (r.emit [⟨.jumpif, .cb, n, target⟩]).code <+: code) :
    Reaches step code ⟨r.address, m.push [word]⟩
      ⟨if word = n then target else r.address + 1, m⟩ :=
  .single (hm.jumpif _ _ _ _ _ _ (Draft.getElem?_of_emit hcode))

theorem Simulation.expression_array (ih : Simulation device A step code fuel)
    {elements : ArrayAggregate} :
    Expression.SimulatedAt device A step code (fuel + 1) (.array mark elements) := by
  intro Γ τ F frame p q size env layout temps s m v hfree ht he hcode hs hv
  obtain ⟨-, σ, length, ht, rfl⟩ := ht
  obtain ⟨r, hr, rfl⟩ := he
  obtain ⟨values, hv₁, heq⟩ := Option.bind_eq_some_iff.1 hv
  cases heq
  obtain ⟨hreaches, hvalues, hlength⟩ := ih.elements hfree ht hr hcode hs hv₁
  rw [Value.words_ofElements]
  have helements : (Parts.ofElements 0 values).Elements σ 0 (0 + values.length) :=
    Parts.elements_ofElements fun v hv => (hvalues v hv).1
  rw [Int.zero_add, hlength] at helements
  exact ⟨hreaches, .inl ⟨length, σ, rfl, helements⟩,
    Parts.defined_ofElements values 0 fun v hv => (hvalues v hv).2⟩

theorem Simulation.expression_binary (hm : Conforms device step)
    (ih : Simulation device A step code fuel) {left right : Expression} :
    Expression.SimulatedAt device A step code (fuel + 1) (.binary mark left operator right) := by
  intro Γ τ F frame p q size env layout temps s m v hfree ht he hcode hs hv
  obtain ⟨-, σ, ρ, o, hleft, hright, hreferent, hoperates⟩ := ht
  obtain ⟨_, above, _, _, _, r₁, r₂, block, hr₁, habove, hr₂, hsum, -, hblock, -, rfl⟩ := he
  obtain ⟨hfree₁, hfree₂⟩ := Bool.and_eq_true_iff.1 hfree
  obtain ⟨a, hv₁, hv⟩ := Option.bind_eq_some_iff.1 hv
  obtain ⟨b, hv₂, hv⟩ := Option.bind_eq_some_iff.1 hv
  rw [Annotations.operator?_eq hreferent] at hv
  rw [Annotations.entityOf_standard hreferent] at hblock
  have hcode₂ : r₂.code <+: code := (List.prefix_append _ _).trans hcode
  obtain ⟨hreaches, ha, ha'⟩ :=
    ih.expression hfree₁ hleft hr₁ ((hr₂.grows hright).code.trans hcode₂) hs hv₁
  have hwords := ha.length_words.trans (hr₁.size_eq hleft).symm
  have hs₁ := (hs.grows (hr₁.grows hleft)).push hwords habove
  obtain ⟨hreaches', hb, hb'⟩ := ih.expression hfree₂ hright hr₂ hcode₂ hs₁ hv₂
  obtain ⟨-, rfl⟩ := Word.add_eq_ok_iff.1 hsum
  obtain ⟨hperforms, htype, hdefined⟩ := Standard.performs_binary hm m hoperates ha ha' hb hb' hv
    (by rw [hr₁.size_eq hleft, hr₂.size_eq hright]) hblock
  rw [Memory.push_push] at hreaches'
  refine ⟨(hreaches.trans hreaches').trans ?_, htype, hdefined⟩
  simpa using hperforms.reaches hcode

theorem Simulation.expression_call (hm : Conforms device step)
    (ih : Simulation device A step code fuel) {name : Terminal} {arguments : Arguments} :
    Expression.SimulatedAt device A step code (fuel + 1) (.call mark name arguments) := by
  intro Γ τ F frame p q size env layout temps s m v hfree ht he hcode hs hv
  obtain ⟨-, formals, hmeans, harguments⟩ := ht
  obtain ⟨_, above, r, block, hr, -, hblock, -, rfl⟩ := he
  obtain ⟨routine, hmeaning, hdenotee, hentity⟩ := hs.standard hmeans (.inr ⟨τ, rfl⟩)
  obtain ⟨passed, hv₁, hv⟩ := Option.bind_eq_some_iff.1 hv
  rw [hdenotee] at hv
  rw [hentity] at hblock
  obtain ⟨words, hreaches, hpassed⟩ := ih.arguments hfree harguments
    (Standard.data_of_meaning (.inr ⟨τ, hmeaning⟩)) hr ((List.prefix_append _ _).trans hcode) hs
    hv₁
  obtain ⟨hperforms, htype, hdefined⟩ := Standard.performs_apply hm hs hmeaning hpassed
    (Denotee.apply_standard hv) hblock
  refine ⟨hreaches.trans ?_, htype, hdefined⟩
  simpa using hperforms.reaches hcode

theorem simulatedAt_character (hm : Conforms device step) {literal : Terminal} :
    Expression.SimulatedAt device A step code (fuel + 1) (.character mark literal) := by
  intro Γ τ F frame p q size env layout temps s m v hfree ht he hcode hs hv
  obtain ⟨-, rfl⟩ := ht
  obtain ⟨-, rfl⟩ := he
  obtain ⟨c, hc, heq⟩ := Option.bind_eq_some_iff.1 hv
  cases heq
  have hvalue : literal.characterCode?.getD 0 = c.toNat := by
    rw [Terminal.characterCode?, hc]
    rfl
  rw [hvalue] at hcode ⊢
  refine ⟨?_, Value.ofType_char c, rfl⟩
  simpa [literalCode] using (hm.loadl m c.toNat).performs.reaches hcode

/-- The jumps around the alternatives go to their ends. -/
theorem Simulation.expression_ifElse (hm : Conforms device step)
    (ih : Simulation device A step code fuel) {condition first second : Expression} :
    Expression.SimulatedAt device A step code (fuel + 1) (.ifElse mark condition first second) := by
  intro Γ τ F frame p q size env layout temps s m v hfree ht he hcode hs hv
  obtain ⟨-, hcondition, hfirst, hsecond⟩ := ht
  obtain ⟨_, _, r₁, r₂, r₃, hr₁, hr₂, hr₃, rfl⟩ := he
  obtain ⟨hfree', hfree₃⟩ := Bool.and_eq_true_iff.1 hfree
  obtain ⟨hfree₁, hfree₂⟩ := Bool.and_eq_true_iff.1 hfree'
  obtain ⟨test, hv₁, hv⟩ := Option.bind_eq_some_iff.1 hv
  have hcode₂ := (hr₃.grows hsecond).code.trans hcode
  have hcode₁ := (hr₂.grows hfirst).code.trans ((List.prefix_append _ _).trans hcode₂)
  obtain ⟨hreaches, htest, htest'⟩ :=
    ih.expression hfree₁ hcondition hr₁ ((List.prefix_append _ _).trans hcode₁) hs hv₁
  have hs₁ := hs.grows (hr₁.grows hcondition)
  have hs₂ := hs₁.grows ((Draft.Grows.refl Γ r₁).emit _ |>.trans (hr₂.grows hfirst))
  obtain ⟨x, rfl⟩ := htest.bool htest'
  have hjump := hreaches.trans (reaches_jumpif hm hcode₁)
  cases x with
  | true =>
    obtain ⟨hreaches', htype, hdefined⟩ :=
      ih.expression hfree₂ hfirst hr₂ ((List.prefix_append _ _).trans hcode₂) hs₁ hv
    refine ⟨hjump.trans (Relation.ReflTransGen.trans ?_ (reaches_jump hm hcode₂)), htype,
      hdefined⟩
    simpa [truth] using hreaches'
  | false =>
    obtain ⟨hreaches', htype, hdefined⟩ := ih.expression hfree₃ hsecond hr₃ hcode hs₂ hv
    refine ⟨hjump.trans ?_, htype, hdefined⟩
    simpa [truth] using hreaches'

theorem simulatedAt_integer (hm : Conforms device step) {literal : Terminal} :
    Expression.SimulatedAt device A step code (fuel + 1) (.integer mark literal) := by
  intro Γ τ F frame p q size env layout temps s m v hfree ht he hcode hs hv
  obtain ⟨-, rfl⟩ := ht
  obtain ⟨-, rfl⟩ := he
  obtain ⟨n, hn, hv⟩ := Option.bind_eq_some_iff.1 hv
  obtain ⟨rfl, hbounded⟩ := Value.integer?_eq_some hv
  have hvalue : literal.number?.getD 0 = n := by
    rw [Terminal.number?, hn]
    rfl
  rw [hvalue] at hcode ⊢
  refine ⟨?_, ⟨rfl, hbounded⟩, rfl⟩
  simpa [literalCode] using (hm.loadl m n).performs.reaches hcode

/-- The temporaries below a block are a block of their own while its declarations are in force. -/
theorem Simulation.expression_letIn (hm : Conforms device step)
    (ih : Simulation device A step code fuel) {declaration : Declaration} {body : Expression} :
    Expression.SimulatedAt device A step code (fuel + 1) (.letIn mark declaration body) := by
  intro Γ τ F frame p q size env layout temps s m v hfree ht he hcode hs hv
  have hsize := he.size_eq ht
  obtain ⟨-, Δ, hdeclaration, hbody⟩ := ht
  obtain ⟨extra, above, r₁, r₂, hr₁, habove, hr₂, -, rfl⟩ := he
  obtain ⟨hfree₁, hfree₂⟩ := Bool.and_eq_true_iff.1 hfree
  obtain ⟨⟨inner, s'⟩, hv₁, hv⟩ := Option.bind_eq_some_iff.1 hv
  have hcode₂ : r₂.code <+: code := (List.prefix_append _ _).trans hcode
  obtain ⟨words, new, hreaches, hwords, hs'⟩ := ih.declaration hfree₁ hdeclaration hr₁ habove
    ((hr₂.grows hbody).code.trans hcode₂) hs.fix hv₁
  obtain ⟨hreaches', htype, hdefined⟩ := ih.expression hfree₂ hbody hr₂ hcode₂ hs' hv
  have hpop := (performs_pop hm m hwords (htype.length_words.trans hsize.symm)).reaches hcode
  refine ⟨(hreaches.trans hreaches').trans ?_, htype, hdefined⟩
  simpa using hpop

theorem Simulation.expression_record (ih : Simulation device A step code fuel)
    {fields : RecordAggregate} :
    Expression.SimulatedAt device A step code (fuel + 1) (.record mark fields) := by
  intro Γ τ F frame p q size env layout temps s m v hfree ht he hcode hs hv
  obtain ⟨-, fs, ht, rfl⟩ := ht
  obtain ⟨r, hr, rfl⟩ := he
  obtain ⟨parts, hv₁, heq⟩ := Option.bind_eq_some_iff.1 hv
  cases heq
  obtain ⟨hreaches, hparts, hdefined⟩ := ih.fields hfree ht hr hcode hs hv₁
  exact ⟨hreaches, .inr ⟨fs, rfl, hparts⟩, hdefined⟩

theorem Simulation.expression_unary (hm : Conforms device step)
    (ih : Simulation device A step code fuel) {operand : Expression} :
    Expression.SimulatedAt device A step code (fuel + 1) (.unary mark operator operand) := by
  intro Γ τ F frame p q size env layout temps s m v hfree ht he hcode hs hv
  obtain ⟨-, σ, o, hoperand, hreferent, hmeaning⟩ := ht
  obtain ⟨_, above, r, block, hr, -, hblock, -, rfl⟩ := he
  obtain ⟨a, hv₁, hv⟩ := Option.bind_eq_some_iff.1 hv
  rw [Annotations.operator?_eq hreferent] at hv
  rw [Annotations.entityOf_standard hreferent] at hblock
  have hfree' : operand.routineFree = true := hfree
  obtain ⟨hreaches, ha, ha'⟩ :=
    ih.expression hfree' hoperand hr ((List.prefix_append _ _).trans hcode) hs hv₁
  obtain ⟨hperforms, htype, hdefined⟩ := Standard.performs_unary hm m hmeaning ha ha' hv hblock
  refine ⟨hreaches.trans ?_, htype, hdefined⟩
  simpa using hperforms.reaches hcode

theorem Simulation.expression_vname (hm : Conforms device step)
    (ih : Simulation device A step code fuel) {vname : Vname} :
    Expression.SimulatedAt device A step code (fuel + 1) (.vname mark vname) := by
  intro Γ τ F frame p q size env layout temps s m v hfree ht he hcode hs hv
  have hsize := he.size_eq ht
  obtain ⟨-, assignable, hvname⟩ := ht
  obtain ⟨access, r, block, -, hr, hblock, rfl⟩ := he
  subst hsize
  obtain ⟨place, hv₁, hv⟩ := Option.bind_eq_some_iff.1 hv
  obtain ⟨index, hreaches, -, hselects⟩ :=
    ih.vname hfree hvname hr ((List.prefix_append _ _).trans hcode) hs hv₁
  obtain ⟨hperforms, htype, hdefined⟩ := hselects.fetch hm hs hv hblock
  refine ⟨hreaches.trans ?_, htype, hdefined⟩
  simpa using hperforms.reaches hcode

theorem Simulation.expression_succ (hm : Conforms device step)
    (ih : Simulation device A step code fuel) :
    Expression.Simulated device A step code (fuel + 1) := by
  intro e
  cases e with
  | array mark elements => exact ih.expression_array
  | binary mark left operator right => exact ih.expression_binary hm
  | call mark name arguments => exact ih.expression_call hm
  | character mark literal => exact simulatedAt_character hm
  | empty mark =>
    intro Γ τ F frame p q size env layout temps s m v hfree ht
    exact ht.elim
  | ifElse mark condition first second => exact ih.expression_ifElse hm
  | integer mark literal => exact simulatedAt_integer hm
  | letIn mark declaration body => exact ih.expression_letIn hm
  | record mark fields => exact ih.expression_record
  | unary mark operator operand => exact ih.expression_unary hm
  | vname mark vname => exact ih.expression_vname hm

end Triangle
