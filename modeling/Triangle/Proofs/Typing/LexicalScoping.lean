import Triangle.Proofs.Parsing.Trees
import Triangle.Proofs.Typing.Acceptance

/-!
# Checking keeps to lexical scope

The scopes are a stack that is changed in place while a tree is checked; the rules of scope in
`Syntax.Spots` pass what names refer to down the tree and never change it.  The two come to the
same, also where checking complains: a phrase that declares nothing leaves all scopes as they were,
one that declares adds to the innermost scope names that it lacked, and what a name is found to
refer to is what it refers to by the rules.
-/

namespace Triangle

/-! ## What scopes gain -/

/-- The innermost scope has gained names that it lacked, each of them once, and the scopes around it
are the same. -/
def Scopes.Gains (before after : Scopes) : Prop :=
  ∃ new : Scope, after = before.extended new ∧ (new.map Prod.fst).Nodup ∧
    ∀ name ∈ new.map Prod.fst, before.innermost.lookup name = none

/-- The names that are in the innermost scope of `ρ'` and not in that of `ρ` are new, and each is
there once. -/
def Referents.Gains (ρ ρ' : Referents) : Prop :=
  ∃ names : List String, (ρ'.headD []).map Prod.fst = names ++ (ρ.headD []).map Prod.fst ∧
    names.Nodup ∧ ∀ name ∈ names, ρ.Fresh name

namespace Referents

theorem fresh_iff {ρ : Referents} {name : String} :
    ρ.Fresh name ↔ name ∉ (ρ.headD []).map Prod.fst := by
  simp only [Fresh, List.lookup_eq_none_iff, bne_iff_ne, List.mem_map, not_exists, not_and]
  exact forall₂_congr fun _ _ => ne_comm

theorem Gains.trans {ρ ρ₁ ρ₂ : Referents} (h₁ : ρ.Gains ρ₁) (h₂ : ρ₁.Gains ρ₂) : ρ.Gains ρ₂ := by
  obtain ⟨names, heq, hnodup, hfresh⟩ := h₁
  obtain ⟨more, hmore, hnodup', hfresh'⟩ := h₂
  simp only [fresh_iff, heq, List.mem_append, not_or] at hfresh hfresh'
  refine ⟨more ++ names, by rw [hmore, heq, List.append_assoc], ?_, fun name hname => ?_⟩
  · exact List.nodup_append.2 ⟨hnodup', hnodup, fun a ha b hb hab => (hfresh' a ha).1 (hab ▸ hb)⟩
  · rw [fresh_iff]
    rcases List.mem_append.1 hname with hname | hname
    · exact (hfresh' name hname).2
    · exact hfresh name hname

theorem gains_declare (ρ : Referents) (name : String) (id : NodeId) :
    ρ.Gains (ρ.declare name id) := by
  rw [declare]
  split
  · rename_i hfresh
    exact ⟨[name], rfl, List.nodup_singleton name, List.forall_mem_singleton.2 hfresh⟩
  · exact ⟨[], rfl, List.nodup_nil, List.forall_mem_nil _⟩

end Referents

theorem Parameters.gains_inScope (ρ : Referents) (parameters : Parameters) :
    ρ.Gains (parameters.inScope ρ) := by
  cases parameters with
  | empty m => exact ⟨[], rfl, List.nodup_nil, List.forall_mem_nil _⟩
  | single m parameter => cases parameter <;> exact ρ.gains_declare _ _
  | multiple m first rest =>
    have hfirst : ρ.Gains (first.inScope ρ) := by cases first <;> exact ρ.gains_declare _ _
    exact hfirst.trans (rest.gains_inScope _)

theorem Declaration.gains_inScope (ρ : Referents) :
    (declaration : Declaration) → ρ.Gains (declaration.inScope ρ)
  | .sequential _ first second =>
    (first.gains_inScope ρ).trans (second.gains_inScope _)
  | .binaryOperator _ _ _ _ _ | .const _ _ _ | .func _ _ _ _ _ | .proc _ _ _ _ | .type _ _ _
  | .unaryOperator _ _ _ _ | .var _ _ _ => ρ.gains_declare _ _

/-- What the scopes gain can be told from what names refer to before and after. -/
theorem Observes.gains {α : Type} {x : Check α} {S : Referents → List Spot}
    {after : Referents → Referents} (hx : ∀ ρ, Observes ρ (S ρ) (after ρ) x)
    (hafter : ∀ ρ : Referents, ρ.Gains (after ρ)) :
    Along (fun s s' => s.scopes.Gains s'.scopes) x := by
  intro s a s' h
  obtain ⟨hobserved, hreferents⟩ := hx s.referents s a s' h rfl
  obtain ⟨new, hnew⟩ := hobserved.scopes
  obtain ⟨names, hnames, hnodup, hfresh⟩ := hafter s.referents
  have hkeys : ∀ scope : Scope,
      (scope.view Binding.referent).map Prod.fst = scope.map Prod.fst := by
    intro scope
    rw [Scope.view, List.map_map]
    rfl
  have hinner : s'.scopes.innermost = new ++ s.scopes.innermost := by
    rw [hnew]
    obtain ⟨outermost, _ | ⟨scope, rest⟩⟩ := s.scopes <;> rfl
  have heq : new.map Prod.fst = names := by
    rw [← hreferents, CheckState.referents, CheckState.referents, Scopes.headD_referents,
      Scopes.headD_referents, hkeys, hkeys, hinner, List.map_append] at hnames
    exact List.append_cancel_right hnames
  refine ⟨new, hnew, heq ▸ hnodup, fun name hname => ?_⟩
  have hname := hfresh name (heq ▸ hname)
  rw [Referents.Fresh, CheckState.referents, Scopes.headD_referents, Scope.lookup_view] at hname
  exact Option.map_eq_none_iff.1 hname

/-! ## Lexical scope -/

/-- Checking a program files what its names refer to by the rules of scope: whatever is filed
belongs to the use of a name, where a name has a declaration on file it is the one that the name
refers to at its spot, and where there is no complaint every name has one. -/
structure Program.Scoped (program : Program) (A : Annotations) (log : Log Problem) : Prop where
  filed : ∀ id referent, A.referentOf? id = some referent →
    ∃ p ∈ program.spots, p.Resolves id referent
  resolved : ∀ p ∈ program.spots, ∀ name, p.site = .use name → ∀ referent,
    A.referentOf? name.mark.id = some referent → p.names.find? name.spelling = some referent
  complete : log.errors = 0 → ∀ p ∈ program.spots, p.Resolved A

/-- **Checking keeps to lexical scope**, with or without complaints. -/
theorem check_lexicallyScoped :
    ((∀ c : Command, Along (fun s s' => s'.scopes = s.scopes) c.check) ∧
      (∀ e : Expression, Along (fun s s' => s'.scopes = s.scopes) e.check) ∧
      (∀ v : Vname, Along (fun s s' => s'.scopes = s.scopes) v.check) ∧
      (∀ (a : Arguments) (formals : Formals), Along (fun s s' => s'.scopes = s.scopes)
        (a.check formals)) ∧
      ∀ of : TypeDenoter, Along (fun s s' => s'.scopes = s.scopes) of.check) ∧
    ((∀ d : Declaration, Along (fun s s' => s.scopes.Gains s'.scopes) d.check) ∧
      ∀ p : Parameters, Along (fun s s' => s.scopes.Gains s'.scopes) p.check) ∧
    ∀ (program : Program) (log log' : Log Problem) (A : Annotations), program.ids.Nodup →
      program.check log = .ok (A, log') → program.Scoped A log' := by
  refine ⟨⟨fun c => ?_, fun e => ?_, fun v => ?_, fun a formals => ?_, fun of => ?_⟩,
    ⟨fun d => ?_, fun p => ?_⟩, fun program log log' A hids h => ⟨fun id referent hid => ?_,
    fun p hp name hsite referent hreferent => ?_, fun hclean p hp => ?_⟩⟩
  · exact fun s u s' h => (c.passing_check s u s' h).scopes
  · exact fun s τ s' h => (e.passing_check s τ s' h).scopes
  · exact fun s τ s' h => (Observes.passing (v.observes_check 0) s τ s' h).scopes
  · exact fun s u s' h => (Observes.passing (a.observes_check 0 · formals) s u s' h).scopes
  · exact fun s τ s' h => (Observes.passing (of.observes_check 0) s τ s' h).scopes
  · exact Observes.gains (d.observes_check 0) d.gains_inScope
  · exact Observes.gains (p.observes_check 0) p.gains_inScope
  · exact Program.resolves_of_check h hid
  · exact Program.find?_of_check h hids hp hsite hreferent
  · exact Program.resolved_of_check h hids hclean hp

/-- A source with a variable inside another of its name, a procedure declared a second time, and a
name without a declaration. -/
def Source.hiding : Source :=
  ⟨"hiding.tri", "let var n: Integer; proc p(n: Char) ~ put(n); proc p() ~ n := 1 in " ++
    "let var n: Boolean in begin n := true; p('a'); m := n end"⟩

set_option maxRecDepth 100000 in
/-- The names of a program with two mistakes are resolved by the rules of scope. -/
theorem hiding_lexicallyScoped : ∃ A log,
    (parse .hiding false).program.check (.empty false) = .ok (A, log) ∧ log.errors = 2 ∧
      (parse .hiding false).program.Scoped A log := by
  have hrun : ((parse .hiding false).program.check (.empty false)).toOption.any
      (·.2.errors = 2) = true := by decide +kernel
  have hids : (parse .hiding false).program.ids.Nodup :=
    (parse_ids .hiding false).nodup_iff.2 List.nodup_range
  cases hcheck : (parse .hiding false).program.check (.empty false) with
  | error overflow =>
    rw [hcheck] at hrun
    cases hrun
  | ok checked =>
    rw [hcheck] at hrun
    exact ⟨checked.1, checked.2, rfl, of_decide_eq_true hrun,
      check_lexicallyScoped.2.2 _ _ _ _ hids hcheck⟩

end Triangle
