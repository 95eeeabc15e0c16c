import Mathlib.Data.List.Forall2
import Triangle.Proofs.Folding.Constants
import Triangle.Proofs.Typing.Accepted

/-!
# Folding preserves meaning

Wherever a phrase has a result, what folding makes of it has the same result, with the same amount
of fuel.  A routine is a value here, and its text is folded too; so the names of the two programs
stand for routines that are related by folding, and for the same values and variables.

The proof goes by induction on the fuel.  `Preserves` says what is to be shown for one amount of
fuel, for all sorts of phrases at once, and there is one lemma per sort for the step from one amount
to the next.
-/

namespace Triangle

variable {place : Place} {d d' : Denotee} {passed passed' : List Denotee}

/-! ## Names -/

mutual

/-- What a name stands for, before and after folding. -/
def Denotee.Folds (A A' : Annotations) : Denotee → Denotee → Prop
  | .value value => fun d => d = .value value
  | .variable place => fun d => d = .variable place
  | .procedure id parameters body env => fun d =>
    ∃ body' env', body.Folds A A' body' ∧ env.Folds A A' env' ∧
      d = .procedure id parameters body' env'
  | .function id parameters body env => fun d =>
    ∃ body' env', body.Folds A A' body' ∧ env.Folds A A' env' ∧
      d = .function id parameters body' env'
  | .standard routine => fun d => d = .standard routine

/-- What the names of a program stand for, before and after folding. -/
def Environment.Folds (A A' : Annotations) : Environment → Environment → Prop
  | .empty => fun e => e = .empty
  | .bind id denotee rest => fun e =>
    ∃ denotee' rest', denotee.Folds A A' denotee' ∧ rest.Folds A A' rest' ∧
      e = .bind id denotee' rest'

end

/-- What is passed for parameters, before and after folding. -/
abbrev Denotees.Folds (A A' : Annotations) : List Denotee → List Denotee → Prop :=
  List.Forall₂ (Denotee.Folds A A')

section

variable {A A' : Annotations} {env env' : Environment}

theorem Environment.Folds.find? {id : NodeId} {denotee : Denotee} :
    {env env' : Environment} → env.Folds A A' env' → env.find? id = some denotee →
    ∃ denotee', env'.find? id = some denotee' ∧ denotee.Folds A A' denotee'
  | .empty, _, _, hfind => by cases hfind
  | .bind other _ rest, _, h, hfind => by
    obtain ⟨denotee', rest', hdenotee, hrest, rfl⟩ := h
    rw [Environment.find?] at hfind ⊢
    split at hfind
    · rename_i heq
      cases hfind
      exact ⟨denotee', if_pos heq, hdenotee⟩
    · rename_i hne
      obtain ⟨found, hfound, hfolds⟩ := Environment.Folds.find? hrest hfind
      exact ⟨found, (if_neg hne).trans hfound, hfolds⟩

/-- Standard routines have nothing to fold. -/
theorem Standard.denotee?_folds {s : Standard} {denotee : Denotee}
    (h : s.denotee? = some denotee) : denotee.Folds A A' denotee := by
  cases s <;> cases h <;> rfl

/-- A name that refers to the same stands for what folding makes of it. -/
theorem Environment.Folds.denotee? {name : Terminal} {denotee : Denotee}
    (h : env.Folds A A' env') (hname : A.Same A' name.mark.id)
    (hdenotee : A.denotee? env name = some denotee) :
    ∃ denotee', A'.denotee? env' name = some denotee' ∧
      denotee.Folds A A' denotee' := by
  unfold Annotations.denotee? at hdenotee ⊢
  rw [hname.referent]
  split at hdenotee
  · exact h.find? hdenotee
  · exact ⟨denotee, hdenotee, Standard.denotee?_folds hdenotee⟩
  · cases hdenotee

/-- An operator is the same standard one before and after. -/
theorem Annotations.Same.operator? {operator : Terminal} (h : A.Same A' operator.mark.id) :
    A'.operator? operator = A.operator? operator := by
  rw [Annotations.operator?, h.referent, ← Annotations.operator?]

/-- Parameters are bound to what is passed for them. -/
theorem Parameters.bind_folds : {p : Parameters} → {passed passed' : List Denotee} →
    {env env' inner : Environment} → Denotees.Folds A A' passed passed' → env.Folds A A' env' →
    p.bind passed env = some inner →
    ∃ inner', p.bind passed' env' = some inner' ∧ inner.Folds A A' inner'
  | .empty _, _, _, _, env', _, hpassed, henv, h => by
    cases hpassed with
    | nil =>
      cases h
      exact ⟨env', rfl, henv⟩
    | cons _ _ => cases h
  | .single _ parameter, _, _, _, env', _, hpassed, henv, h => by
    cases hpassed with
    | nil => cases h
    | cons hfirst hrest =>
      cases hrest with
      | nil =>
        cases h
        exact ⟨_, rfl, _, env', hfirst, henv, rfl⟩
      | cons _ _ => cases h
  | .multiple _ first rest, _, _, _, env', _, hpassed, henv, h => by
    cases hpassed with
    | nil => cases h
    | cons hfirst hrest =>
      have hbind : Environment.Folds A A' (.bind first.mark.id _ _) (.bind first.mark.id _ env') :=
        ⟨_, env', hfirst, henv, rfl⟩
      exact Parameters.bind_folds (p := rest) hrest hbind h

end

/-! ## Standard routines -/

variable {value : Value} {s' : State}

section

variable {A A' : Annotations} {device : Device} {routine : Standard} {s : State}
  {passed passed' : List Denotee}

/-- A list of values and variables is the same after folding. -/
theorem Denotees.Folds.eq_of_value (h : Denotees.Folds A A' [.value value] passed') :
    passed' = [.value value] := by
  cases h with
  | cons hfirst hrest =>
    cases hrest
    rw [hfirst]

theorem Denotees.Folds.eq_of_variable (h : Denotees.Folds A A' [.variable place] passed') :
    passed' = [.variable place] := by
  cases h with
  | cons hfirst hrest =>
    cases hrest
    rw [hfirst]

theorem Standard.execute_folds (hpassed : Denotees.Folds A A' passed passed')
    (h : routine.execute device passed s = some s') :
    routine.execute device passed' s = some s' := by
  unfold Standard.execute at h
  split at h
  · rwa [hpassed.eq_of_variable, Standard.execute]
  · rwa [hpassed.eq_of_variable, Standard.execute]
  · cases hpassed
    exact h
  · rwa [hpassed.eq_of_value, Standard.execute]
  · rwa [hpassed.eq_of_value, Standard.execute]
  · cases hpassed
    exact h
  · cases h

theorem Standard.apply_folds (hpassed : Denotees.Folds A A' passed passed')
    (h : routine.apply device passed s = some value) :
    routine.apply device passed' s = some value := by
  unfold Standard.apply at h
  split at h
  · rwa [hpassed.eq_of_value, Standard.apply]
  · rwa [hpassed.eq_of_value, Standard.apply]
  · cases hpassed
    exact h
  · cases hpassed
    exact h
  · cases h

end

/-! ## Phrases

Fuel bounds how deeply evaluation nests.  A literal in place of an operation nests no deeper, so the
same amount will do. -/

/-- With some amount of fuel, what a phrase results in is what the folded one results in. -/
structure Preserves (device : Device) (A A' : Annotations) (fuel : Nat) : Prop where
  command : ∀ {c c' : Command} {env env' s s'}, c.Folds A A' c' → env.Folds A A' env' →
    c.execute device A fuel env s = some s' → c'.execute device A' fuel env' s = some s'
  expression : ∀ {e e' : Expression} {env env' s value}, e.Folds A A' e' → env.Folds A A' env' →
    e.evaluate device A fuel env s = some value → e'.evaluate device A' fuel env' s = some value
  declaration : ∀ {d d' : Declaration} {env env' s inner s'}, d.Folds A A' d' →
    env.Folds A A' env' → d.elaborate device A fuel env s = some (inner, s') →
    ∃ inner', d'.elaborate device A' fuel env' s = some (inner', s') ∧ inner.Folds A A' inner'
  vname : ∀ {v v' : Vname} {env env' s place}, v.Folds A A' v' → env.Folds A A' env' →
    v.identify device A fuel env s = some place → v'.identify device A' fuel env' s = some place
  argument : ∀ {a a' : Argument} {env env' s passed}, a.Folds A A' a' → env.Folds A A' env' →
    a.pass device A fuel env s = some passed →
    ∃ passed', a'.pass device A' fuel env' s = some passed' ∧ passed.Folds A A' passed'
  arguments : ∀ {a a' : Arguments} {env env' s passed}, a.Folds A A' a' → env.Folds A A' env' →
    a.pass device A fuel env s = some passed →
    ∃ passed', a'.pass device A' fuel env' s = some passed' ∧ Denotees.Folds A A' passed passed'
  elements : ∀ {a a' : ArrayAggregate} {env env' s values}, a.Folds A A' a' → env.Folds A A' env' →
    a.evaluate device A fuel env s = some values → a'.evaluate device A' fuel env' s = some values
  fields : ∀ {r r' : RecordAggregate} {env env' s parts}, r.Folds A A' r' → env.Folds A A' env' →
    r.evaluate device A fuel env s = some parts → r'.evaluate device A' fuel env' s = some parts
  procedure : ∀ {d d' : Denotee} {passed passed' s s'}, d.Folds A A' d' →
    Denotees.Folds A A' passed passed' → d.execute device A fuel passed s = some s' →
    d'.execute device A' fuel passed' s = some s'
  function : ∀ {d d' : Denotee} {passed passed' s value}, d.Folds A A' d' →
    Denotees.Folds A A' passed passed' → d.apply device A fuel passed s = some value →
    d'.apply device A' fuel passed' s = some value

namespace Preserves

variable {device : Device} {A A' : Annotations} {fuel : Nat} {env env' : Environment} {s : State}

theorem command_succ (ih : Preserves device A A' fuel) {c c' : Command} (hc : c.Folds A A' c')
    (henv : env.Folds A A' env') (h : c.execute device A (fuel + 1) env s = some s') :
    c'.execute device A' (fuel + 1) env' s = some s' := by
  cases c with
  | assign m target value =>
    obtain ⟨target', value', htarget, hvalue, rfl⟩ := hc
    simp only [Command.execute, Option.bind_eq_bind, Option.bind_eq_some_iff] at h ⊢
    obtain ⟨v, hv, place, hplace, h⟩ := h
    exact ⟨v, ih.expression hvalue henv hv, place, ih.vname htarget henv hplace, h⟩
  | doubleAssign m first second firstValue secondValue =>
    obtain ⟨first', second', firstValue', secondValue', hfirst, hsecond, hfirstValue, hsecondValue,
      rfl⟩ := hc
    simp only [Command.execute, Option.bind_eq_bind, Option.bind_eq_some_iff] at h ⊢
    obtain ⟨v, hv, place, hplace, v', hv', place', hplace', t, ht, h⟩ := h
    exact ⟨v, ih.expression hfirstValue henv hv, place, ih.vname hfirst henv hplace,
      v', ih.expression hsecondValue henv hv', place', ih.vname hsecond henv hplace', t, ht, h⟩
  | call m name arguments =>
    obtain ⟨hname, arguments', harguments, rfl⟩ := hc
    simp only [Command.execute, Option.bind_eq_bind, Option.bind_eq_some_iff] at h ⊢
    obtain ⟨passed, hpassed, routine, hroutine, h⟩ := h
    obtain ⟨passed', hpassed', hfolds⟩ := ih.arguments harguments henv hpassed
    obtain ⟨routine', hroutine', hfolds'⟩ := henv.denotee? hname hroutine
    exact ⟨passed', hpassed', routine', hroutine', ih.procedure hfolds' hfolds h⟩
  | empty m =>
    obtain rfl := hc
    exact h
  | ifElse m condition first second =>
    obtain ⟨condition', first', second', hcondition, hfirst, hsecond, rfl⟩ := hc
    simp only [Command.execute, Option.bind_eq_bind, Option.bind_eq_some_iff] at h ⊢
    obtain ⟨v, hv, h⟩ := h
    refine ⟨v, ih.expression hcondition henv hv, ?_⟩
    split at h
    · exact ih.command hfirst henv h
    · exact ih.command hsecond henv h
    · cases h
  | letIn m declaration body =>
    obtain ⟨declaration', body', hdeclaration, hbody, rfl⟩ := hc
    simp only [Command.execute, Option.bind_eq_bind, Option.bind_eq_some_iff] at h ⊢
    obtain ⟨⟨inner, t⟩, hinner, u, hu, h⟩ := h
    obtain ⟨inner', hinner', hfolds⟩ := ih.declaration hdeclaration henv hinner
    exact ⟨(inner', t), hinner', u, ih.command hbody hfolds hu, h⟩
  | sequential m first second =>
    obtain ⟨first', second', hfirst, hsecond, rfl⟩ := hc
    simp only [Command.execute, Option.bind_eq_bind, Option.bind_eq_some_iff] at h ⊢
    obtain ⟨t, ht, h⟩ := h
    exact ⟨t, ih.command hfirst henv ht, ih.command hsecond henv h⟩
  | whileDo m condition body =>
    obtain ⟨condition', body', hcondition, hbody, rfl⟩ := hc
    simp only [Command.execute, Option.bind_eq_bind, Option.bind_eq_some_iff] at h ⊢
    obtain ⟨v, hv, h⟩ := h
    refine ⟨v, ih.expression hcondition henv hv, ?_⟩
    split at h
    · obtain ⟨t, ht, h⟩ := Option.bind_eq_some_iff.1 h
      exact Option.bind_eq_some_iff.2 ⟨t, ih.command hbody henv ht,
        ih.command (c := .whileDo m condition body)
          ⟨condition', body', hcondition, hbody, rfl⟩ henv h⟩
    · exact h
    · cases h
  | loopWhile m prelude condition body =>
    obtain ⟨prelude', condition', body', hprelude, hcondition, hbody, rfl⟩ := hc
    simp only [Command.execute, Option.bind_eq_bind, Option.bind_eq_some_iff] at h ⊢
    obtain ⟨t, ht, v, hv, h⟩ := h
    refine ⟨t, ih.command hprelude henv ht, v, ih.expression hcondition henv hv, ?_⟩
    split at h
    · obtain ⟨u, hu, h⟩ := Option.bind_eq_some_iff.1 h
      exact Option.bind_eq_some_iff.2 ⟨u, ih.command hbody henv hu,
        ih.command (c := .loopWhile m prelude condition body)
          ⟨prelude', condition', body', hprelude, hcondition, hbody, rfl⟩ henv h⟩
    · exact h
    · cases h

theorem expression_succ (ih : Preserves device A A' fuel) {e e' : Expression} (he : e.Folds A A' e')
    (henv : env.Folds A A' env') (h : e.evaluate device A (fuel + 1) env s = some value) :
    e'.evaluate device A' (fuel + 1) env' s = some value := by
  cases e with
  | array m elements =>
    obtain ⟨-, elements', helements, rfl⟩ := he
    simp only [Expression.evaluate, Option.bind_eq_bind, Option.bind_eq_some_iff] at h ⊢
    obtain ⟨values, hvalues, h⟩ := h
    exact ⟨values, ih.elements helements henv hvalues, h⟩
  | binary m left operator right =>
    obtain ⟨-, hoperator, left', right', hleft, hright, hfolded⟩ := he
    simp only [Expression.evaluate, Option.bind_eq_bind, Option.bind_eq_some_iff] at h
    obtain ⟨a, ha, b, hb, o, ho, h⟩ := h
    have ha' := ih.expression hleft henv ha
    have hb' := ih.expression hright henv hb
    rw [← hoperator.operator?] at ho
    -- the operation is still there, or a literal of what it gives
    obtain ⟨rfl, -⟩ | ⟨constant, hconstant, hliteral⟩ := hfolded
    · simp only [Expression.evaluate, Option.bind_eq_bind, Option.bind_eq_some_iff]
      exact ⟨a, ha', b, hb', o, ho, h⟩
    · rw [Annotations.foldBinary, Annotations.standardOf?_of_operator? ho] at hconstant
      obtain ⟨rfl, hrange⟩ := Constant.value_of_binary hconstant
        (fun _ hc => Expression.denotes_of_constant? hc ha')
        (fun _ hc => Expression.denotes_of_constant? hc hb') h
      -- the operands took some fuel, and a literal takes no more
      obtain _ | fuel := fuel
      · cases ha
      · exact hliteral.evaluate hrange device fuel env' s
  | call m name arguments =>
    obtain ⟨-, hname, arguments', harguments, rfl⟩ := he
    simp only [Expression.evaluate, Option.bind_eq_bind, Option.bind_eq_some_iff] at h ⊢
    obtain ⟨passed, hpassed, routine, hroutine, h⟩ := h
    obtain ⟨passed', hpassed', hfolds⟩ := ih.arguments harguments henv hpassed
    obtain ⟨routine', hroutine', hfolds'⟩ := henv.denotee? hname hroutine
    exact ⟨passed', hpassed', routine', hroutine', ih.function hfolds' hfolds h⟩
  | character m literal =>
    obtain ⟨-, rfl⟩ := he
    exact h
  | empty m => cases h
  | ifElse m condition first second =>
    obtain ⟨-, condition', first', second', hcondition, hfirst, hsecond, rfl⟩ := he
    simp only [Expression.evaluate, Option.bind_eq_bind, Option.bind_eq_some_iff] at h ⊢
    obtain ⟨v, hv, h⟩ := h
    refine ⟨v, ih.expression hcondition henv hv, ?_⟩
    split at h
    · exact ih.expression hfirst henv h
    · exact ih.expression hsecond henv h
    · cases h
  | integer m literal =>
    obtain ⟨-, rfl⟩ := he
    exact h
  | letIn m declaration body =>
    obtain ⟨-, declaration', body', hdeclaration, hbody, rfl⟩ := he
    simp only [Expression.evaluate, Option.bind_eq_bind, Option.bind_eq_some_iff] at h ⊢
    obtain ⟨⟨inner, t⟩, hinner, h⟩ := h
    obtain ⟨inner', hinner', hfolds⟩ := ih.declaration hdeclaration henv hinner
    exact ⟨(inner', t), hinner', ih.expression hbody hfolds h⟩
  | record m fields =>
    obtain ⟨-, fields', hfields, rfl⟩ := he
    simp only [Expression.evaluate, Option.bind_eq_bind, Option.bind_eq_some_iff] at h ⊢
    obtain ⟨parts, hparts, h⟩ := h
    exact ⟨parts, ih.fields hfields henv hparts, h⟩
  | unary m operator operand =>
    obtain ⟨-, hoperator, operand', hoperand, hfolded⟩ := he
    simp only [Expression.evaluate, Option.bind_eq_bind, Option.bind_eq_some_iff] at h
    obtain ⟨a, ha, o, ho, h⟩ := h
    have ha' := ih.expression hoperand henv ha
    rw [← hoperator.operator?] at ho
    obtain ⟨rfl, -⟩ | ⟨constant, hconstant, hliteral⟩ := hfolded
    · simp only [Expression.evaluate, Option.bind_eq_bind, Option.bind_eq_some_iff]
      exact ⟨a, ha', o, ho, h⟩
    · rw [Annotations.foldUnary, Annotations.standardOf?_of_operator? ho] at hconstant
      obtain ⟨rfl, hrange⟩ := Constant.value_of_unary hconstant
        (fun _ hc => Expression.denotes_of_constant? hc ha') h
      obtain _ | fuel := fuel
      · cases ha
      · exact hliteral.evaluate hrange device fuel env' s
  | vname m vname =>
    obtain ⟨-, vname', hvname, rfl⟩ := he
    simp only [Expression.evaluate, Option.bind_eq_bind, Option.bind_eq_some_iff] at h ⊢
    obtain ⟨place, hplace, h⟩ := h
    exact ⟨place, ih.vname hvname henv hplace, h⟩

theorem declaration_succ (ih : Preserves device A A' fuel) {d d' : Declaration}
    {inner : Environment} (hd : d.Folds A A' d') (henv : env.Folds A A' env')
    (h : d.elaborate device A (fuel + 1) env s = some (inner, s')) :
    ∃ inner', d'.elaborate device A' (fuel + 1) env' s = some (inner', s') ∧
      inner.Folds A A' inner' := by
  cases d with
  | binaryOperator m operator left right result | unaryOperator m operator operand result => cases h
  | const m name value =>
    obtain ⟨-, value', hvalue, rfl⟩ := hd
    simp only [Declaration.elaborate, Option.bind_eq_bind, Option.bind_eq_some_iff] at h ⊢
    obtain ⟨v, hv, h⟩ := h
    cases h
    exact ⟨_, ⟨v, ih.expression hvalue henv hv, rfl⟩, _, env', rfl, henv, rfl⟩
  | func m name parameters result body =>
    obtain ⟨-, -, -, body', hbody, rfl⟩ := hd
    cases h
    exact ⟨_, rfl, _, env', ⟨body', env', hbody, henv, rfl⟩, henv, rfl⟩
  | proc m name parameters body =>
    obtain ⟨-, body', hbody, rfl⟩ := hd
    cases h
    exact ⟨_, rfl, _, env', ⟨body', env', hbody, henv, rfl⟩, henv, rfl⟩
  | sequential m first second =>
    obtain ⟨first', second', hfirst, hsecond, rfl⟩ := hd
    simp only [Declaration.elaborate, Option.bind_eq_bind, Option.bind_eq_some_iff] at h ⊢
    obtain ⟨⟨middle, t⟩, hmiddle, h⟩ := h
    obtain ⟨middle', hmiddle', hfolds⟩ := ih.declaration hfirst henv hmiddle
    obtain ⟨inner', hinner', hfolds'⟩ := ih.declaration hsecond hfolds h
    exact ⟨inner', ⟨(middle', t), hmiddle', hinner'⟩, hfolds'⟩
  | type m name of =>
    obtain ⟨-, -, rfl⟩ := hd
    cases h
    exact ⟨env', rfl, henv⟩
  | var m name of =>
    obtain ⟨hsame, -, rfl⟩ := hd
    simp only [Declaration.elaborate, Option.bind_eq_bind, Option.bind_eq_some_iff] at h ⊢
    obtain ⟨τ, hτ, h⟩ := h
    cases h
    rw [hsame.type]
    exact ⟨_, ⟨τ, hτ, rfl⟩, _, env', rfl, henv, rfl⟩

theorem vname_succ (ih : Preserves device A A' fuel) {v v' : Vname} (hv : v.Folds A A' v')
    (henv : env.Folds A A' env') (h : v.identify device A (fuel + 1) env s = some place) :
    v'.identify device A' (fuel + 1) env' s = some place := by
  cases v with
  | dot m record field =>
    obtain ⟨-, record', hrecord, rfl⟩ := hv
    simp only [Vname.identify, Option.bind_eq_bind, Option.bind_eq_some_iff] at h ⊢
    obtain ⟨whole, hwhole, h⟩ := h
    exact ⟨whole, ih.vname hrecord henv hwhole, h⟩
  | simple m name =>
    obtain ⟨-, hname, rfl⟩ := hv
    rw [Vname.identify] at h ⊢
    split at h
    · rename_i hdenotee
      obtain ⟨_, hdenotee', rfl⟩ := henv.denotee? hname hdenotee
      rw [hdenotee']
      exact h
    · rename_i hdenotee
      obtain ⟨_, hdenotee', rfl⟩ := henv.denotee? hname hdenotee
      rw [hdenotee']
      exact h
    · cases h
  | subscript m array index =>
    obtain ⟨-, array', index', harray, hindex, rfl⟩ := hv
    simp only [Vname.identify, Option.bind_eq_bind, Option.bind_eq_some_iff] at h ⊢
    obtain ⟨whole, hwhole, i, hi, h⟩ := h
    exact ⟨whole, ih.vname harray henv hwhole, i, ih.expression hindex henv hi, h⟩

theorem argument_succ (ih : Preserves device A A' fuel) {a a' : Argument} {passed : Denotee}
    (ha : a.Folds A A' a') (henv : env.Folds A A' env')
    (h : a.pass device A (fuel + 1) env s = some passed) :
    ∃ passed', a'.pass device A' (fuel + 1) env' s = some passed' ∧ passed.Folds A A' passed' := by
  cases a with
  | const m value =>
    obtain ⟨value', hvalue, rfl⟩ := ha
    simp only [Argument.pass, Option.bind_eq_bind, Option.bind_eq_some_iff] at h ⊢
    obtain ⟨v, hv, h⟩ := h
    cases h
    exact ⟨_, ⟨v, ih.expression hvalue henv hv, rfl⟩, rfl⟩
  | func m name | proc m name =>
    obtain ⟨hname, rfl⟩ := ha
    exact henv.denotee? hname h
  | var m vname =>
    obtain ⟨vname', hvname, rfl⟩ := ha
    simp only [Argument.pass, Option.bind_eq_bind, Option.bind_eq_some_iff] at h ⊢
    obtain ⟨place, hplace, h⟩ := h
    cases h
    exact ⟨_, ⟨place, ih.vname hvname henv hplace, rfl⟩, rfl⟩

theorem arguments_succ (ih : Preserves device A A' fuel) {a a' : Arguments} (ha : a.Folds A A' a')
    (henv : env.Folds A A' env') (h : a.pass device A (fuel + 1) env s = some passed) :
    ∃ passed', a'.pass device A' (fuel + 1) env' s = some passed' ∧
      Denotees.Folds A A' passed passed' := by
  cases a with
  | empty m =>
    obtain rfl := ha
    cases h
    exact ⟨[], rfl, .nil⟩
  | single m argument =>
    obtain ⟨argument', hargument, rfl⟩ := ha
    simp only [Arguments.pass, Option.bind_eq_bind, Option.bind_eq_some_iff] at h ⊢
    obtain ⟨first, hfirst, h⟩ := h
    cases h
    obtain ⟨first', hfirst', hfolds⟩ := ih.argument hargument henv hfirst
    exact ⟨_, ⟨first', hfirst', rfl⟩, .cons hfolds .nil⟩
  | multiple m first rest =>
    obtain ⟨first', rest', hfirst, hrest, rfl⟩ := ha
    simp only [Arguments.pass, Option.bind_eq_bind, Option.bind_eq_some_iff] at h ⊢
    obtain ⟨d, hd, others, hothers, h⟩ := h
    cases h
    obtain ⟨d', hd', hfolds⟩ := ih.argument hfirst henv hd
    obtain ⟨others', hothers', hfolds'⟩ := ih.arguments hrest henv hothers
    exact ⟨_, ⟨d', hd', others', hothers', rfl⟩, .cons hfolds hfolds'⟩

theorem elements_succ (ih : Preserves device A A' fuel) {a a' : ArrayAggregate}
    {values : List Value} (ha : a.Folds A A' a') (henv : env.Folds A A' env')
    (h : a.evaluate device A (fuel + 1) env s = some values) :
    a'.evaluate device A' (fuel + 1) env' s = some values := by
  cases a with
  | single m element =>
    obtain ⟨element', helement, rfl⟩ := ha
    simp only [ArrayAggregate.evaluate, Option.bind_eq_bind, Option.bind_eq_some_iff] at h ⊢
    obtain ⟨v, hv, h⟩ := h
    exact ⟨v, ih.expression helement henv hv, h⟩
  | multiple m first rest =>
    obtain ⟨first', rest', hfirst, hrest, rfl⟩ := ha
    simp only [ArrayAggregate.evaluate, Option.bind_eq_bind, Option.bind_eq_some_iff] at h ⊢
    obtain ⟨v, hv, others, hothers, h⟩ := h
    exact ⟨v, ih.expression hfirst henv hv, others, ih.elements hrest henv hothers, h⟩

theorem fields_succ (ih : Preserves device A A' fuel) {r r' : RecordAggregate} {parts : Parts}
    (hr : r.Folds A A' r') (henv : env.Folds A A' env')
    (h : r.evaluate device A (fuel + 1) env s = some parts) :
    r'.evaluate device A' (fuel + 1) env' s = some parts := by
  cases r with
  | single m field value =>
    obtain ⟨value', hvalue, rfl⟩ := hr
    simp only [RecordAggregate.evaluate, Option.bind_eq_bind, Option.bind_eq_some_iff] at h ⊢
    obtain ⟨v, hv, h⟩ := h
    exact ⟨v, ih.expression hvalue henv hv, h⟩
  | multiple m field value rest =>
    obtain ⟨value', rest', hvalue, hrest, rfl⟩ := hr
    simp only [RecordAggregate.evaluate, Option.bind_eq_bind, Option.bind_eq_some_iff] at h ⊢
    obtain ⟨v, hv, others, hothers, h⟩ := h
    exact ⟨v, ih.expression hvalue henv hv, others, ih.fields hrest henv hothers, h⟩

/-- The body of a routine is folded, and the routine stands for itself in it. -/
theorem procedure_succ (ih : Preserves device A A' fuel) (hd : d.Folds A A' d')
    (hpassed : Denotees.Folds A A' passed passed')
    (h : d.execute device A (fuel + 1) passed s = some s') :
    d'.execute device A' (fuel + 1) passed' s = some s' := by
  cases d with
  | procedure id parameters body env =>
    obtain ⟨body', env', hbody, henv, rfl⟩ := hd
    simp only [Denotee.execute, Option.bind_eq_bind, Option.bind_eq_some_iff] at h ⊢
    obtain ⟨inner, hinner, h⟩ := h
    have hself : Environment.Folds A A' (.bind id (.procedure id parameters body env) env)
        (.bind id (.procedure id parameters body' env') env') :=
      ⟨_, env', ⟨body', env', hbody, henv, rfl⟩, henv, rfl⟩
    obtain ⟨inner', hinner', hfolds⟩ := Parameters.bind_folds hpassed hself hinner
    exact ⟨inner', hinner', ih.command hbody hfolds h⟩
  | standard routine =>
    obtain rfl := hd
    exact Standard.execute_folds hpassed h
  | _ => cases h

theorem function_succ (ih : Preserves device A A' fuel) (hd : d.Folds A A' d')
    (hpassed : Denotees.Folds A A' passed passed')
    (h : d.apply device A (fuel + 1) passed s = some value) :
    d'.apply device A' (fuel + 1) passed' s = some value := by
  cases d with
  | function id parameters body env =>
    obtain ⟨body', env', hbody, henv, rfl⟩ := hd
    simp only [Denotee.apply, Option.bind_eq_bind, Option.bind_eq_some_iff] at h ⊢
    obtain ⟨inner, hinner, h⟩ := h
    have hself : Environment.Folds A A' (.bind id (.function id parameters body env) env)
        (.bind id (.function id parameters body' env') env') :=
      ⟨_, env', ⟨body', env', hbody, henv, rfl⟩, henv, rfl⟩
    obtain ⟨inner', hinner', hfolds⟩ := Parameters.bind_folds hpassed hself hinner
    exact ⟨inner', hinner', ih.expression hbody hfolds h⟩
  | standard routine =>
    obtain rfl := hd
    exact Standard.apply_folds hpassed h
  | _ => cases h

end Preserves

/-- Folding preserves what phrases result in, with any amount of fuel. -/
theorem preserves (device : Device) (A A' : Annotations) (fuel : Nat) :
    Preserves device A A' fuel := by
  induction fuel with
  | zero =>
    -- Nothing has a result without fuel.
    constructor <;> intros <;> rename_i h <;> cases h
  | succ fuel ih =>
    exact ⟨ih.command_succ, ih.expression_succ, ih.declaration_succ, ih.vname_succ,
      ih.argument_succ, ih.arguments_succ, ih.elements_succ, ih.fields_succ, ih.procedure_succ,
      ih.function_succ⟩

/-- Where an accepted program terminates without a fault, the folded program does too: it leaves as
much of the input, writes the same, and makes the same assignments. -/
theorem Accepted.terminates_fold {source : Source} {failFast : Bool} {program : Program}
    {A : Annotations} {log : Log Problem} (h : Accepted source failFast program A log)
    (device : Device) (input : List Char) (final : State)
    (hterminates : program.Terminates device A input final) :
    (program.fold A log).program.Terminates device
      (program.fold A log).annotations input final := by
  obtain ⟨fuel, hrun⟩ := hterminates
  have hfolds := Program.fold_folds program A log fun _ hid => h.lt_issued hid
  have hempty : Environment.Folds A (program.fold A log).annotations .empty .empty := rfl
  exact ⟨fuel, (preserves device A _ fuel).command hfolds hempty hrun⟩

/-- Reads, checks and runs a source. -/
def Source.run? (source : Source) (device : Device) (fuel : Nat) (input : List Char) :
    Option State :=
  let parsed := parse source false
  if parsed.log.errors = 0 then
    match parsed.program.check parsed.log with
    | .ok (A, log) =>
      if log.errors = 0 then parsed.program.command.execute device A fuel .empty (.start input)
      else none
    | .error _ => none
  else none

theorem Source.terminates_of_run? {source : Source} {device : Device} {fuel : Nat}
    {input : List Char} {final : State} (h : source.run? device fuel input = some final) :
    ∃ program A log, Accepted source false program A log ∧
      program.Terminates device A input final := by
  simp only [Source.run?] at h
  split at h
  · rename_i hreadable
    split at h
    · rename_i A log hchecked
      split at h
      · rename_i hcorrect
        exact ⟨_, A, log, ⟨rfl, hreadable, hchecked, hcorrect⟩, fuel, h⟩
      · cases h
    · cases h
  · cases h

set_option maxRecDepth 100000 in
theorem Accepted.relay_terminates_fold :
    ∃ program A log final, Accepted .relay false program A log ∧
      program.Terminates .plain A [] final ∧ final.output = ['2', '0'] ∧
      (program.fold A log).program.Terminates .plain (program.fold A log).annotations [] final := by
  have houtput : (Source.relay.run? .plain 20 []).map State.output = some ['2', '0'] := by
    decide +kernel
  obtain ⟨final, hfinal, houtput⟩ := Option.map_eq_some_iff.1 houtput
  obtain ⟨program, A, log, haccepted, hterminates⟩ := Source.terminates_of_run? hfinal
  exact ⟨program, A, log, final, haccepted, hterminates, houtput,
    haccepted.terminates_fold .plain [] final hterminates⟩

end Triangle
