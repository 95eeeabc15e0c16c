import Triangle.Proofs.Syntax.Complete
import Triangle.Proofs.Typing.Names
import Triangle.Proofs.Typing.Notes
import Triangle.Proofs.Typing.Regularity
import Triangle.Proofs.Typing.Resolution

/-!
# A program without errors is well typed

If nothing is missing in a tree and checking reports no error, then the tree is well typed: by the
rules for trees with annotations, with the annotations that checking has made, and by the rules for
names, with the names that are in scope.

What a step of checking finds out is composed of what its parts find out.  `Establishes` says it of
a step that leaves the scopes alone and `Introduces` of one that declares names; the check of a
phrase is then compared with the rule for the phrase without looking at runs.  A context goes along,
which knows every name in scope (`Covers`) and none of the nodes that are still to come.
-/

namespace Triangle

open Check

variable {Γ : Context} {s s' : CheckState} {span : Span} {fault : ContextFault}

/-! ## Scopes and contexts -/

variable {b : Binding} {scopes : Scopes}

namespace Scopes

/-- Everything that is bound in some scope. -/
def bindings (scopes : Scopes) : List Binding :=
  (scopes.nested ++ [scopes.outermost]).flatten.map (·.2)

theorem mem_bindings_extended {new : Scope} :
    b ∈ (scopes.extended new).bindings ↔ b ∈ new.map (·.2) ∨ b ∈ scopes.bindings := by
  obtain ⟨outermost, _ | ⟨scope, rest⟩⟩ := scopes <;>
    simp [bindings, extended]

@[simp] theorem bindings_opened (scopes : Scopes) : scopes.opened.bindings = scopes.bindings := by
  simp [bindings, opened]

theorem mem_bindings_restored {scope : Scope} :
    b ∈ (scopes.restored scope).bindings ↔ b ∈ scope.map (·.2) ∨ b ∈ scopes.bindings := by
  simp [bindings, restored]

theorem mem_bindings_of_mem_innermost (h : b ∈ scopes.innermost.map (·.2)) :
    b ∈ scopes.bindings := by
  obtain ⟨outermost, _ | ⟨scope, rest⟩⟩ := scopes
  · simpa [bindings, innermost] using h
  · simp only [innermost, List.headD_cons] at h
    simp only [bindings, List.cons_append, List.flatten_cons, List.map_append, List.mem_append]
    exact .inl h

theorem mem_bindings_of_find? {name : String} (h : scopes.find? name = some b) :
    b ∈ scopes.bindings := by
  obtain ⟨scope, hscope, hlookup⟩ := List.exists_of_findSome?_eq_some h
  have hentry : (name, b) ∈ scope := by
    rw [List.lookup_eq_some_iff] at hlookup
    obtain ⟨before, after, rfl, -⟩ := hlookup
    simp
  exact List.mem_map.2 ⟨(name, b), List.mem_flatten.2 ⟨scope, hscope, hentry⟩, rfl⟩

end Scopes

/-- Every name in scope is known to the context. -/
def Context.Covers (Γ : Context) (scopes : Scopes) : Prop :=
  ∀ b ∈ scopes.bindings, Γ.meaningOf b.referent = some b.meaning

namespace Context.Covers

variable {Γ Δ : Context} {scopes : Scopes}

theorem mono (h : Γ.Covers scopes) (hle : Γ.Le Δ) : Δ.Covers scopes :=
  fun b hb => hle.meaningOf (h b hb)

theorem opened (h : Γ.Covers scopes) : Γ.Covers scopes.opened := by
  rwa [Covers, Scopes.bindings_opened]

/-- A new declaration, known to the context. -/
theorem declared (h : Γ.Covers scopes) {id : NodeId} (hfresh : Γ id = none) (name : String)
    (meaning : Meaning) :
    (Γ.bind id meaning).Covers (scopes.extended [(name, ⟨.node id, meaning⟩)]) := by
  intro b hb
  rcases Scopes.mem_bindings_extended.1 hb with hb | hb
  · obtain rfl : b = ⟨.node id, meaning⟩ := by simpa using hb
    exact Context.bind_self Γ id meaning
  · exact (Context.le_bind meaning hfresh).meaningOf (h b hb)

/-- Standard names are known to every context, so also to the empty one. -/
theorem initial : Context.empty.Covers Scopes.initial := by
  intro b hb
  simp only [Scopes.bindings, Scopes.initial, Scopes.standardScope, List.nil_append,
    List.flatten_cons, List.flatten_nil, List.append_nil, List.map_map, List.mem_map] at hb
  obtain ⟨s, -, rfl⟩ := hb
  rfl

end Context.Covers

/-- What has to be known before a phrase with these nodes is checked. -/
structure Ready (Γ : Context) (N : Names) (s : CheckState) (ids : List NodeId) : Prop where
  covers : Γ.Covers s.scopes
  names : s.names = N
  fresh : ∀ id ∈ ids, Γ id = none
  nodup : ids.Nodup

/-- The second context knows no more than the first outside of some nodes. -/
def Context.AgreesOutside (Γ Δ : Context) (ids : List NodeId) : Prop :=
  ∀ id, id ∉ ids → Δ id = Γ id

/-- To change only what was not known is to extend. -/
theorem Context.AgreesOutside.le {Δ : Context} {ids : List NodeId} (h : Γ.AgreesOutside Δ ids)
    (hfresh : ∀ id ∈ ids, Γ id = none) : Γ.Le Δ := by
  intro id meaning hid
  rw [h id, hid]
  intro hin
  rw [hfresh id hin] at hid
  cases hid

namespace Ready

variable {Γ Δ : Context} {N : Names} {s t : CheckState} {ids more : List NodeId}

/-- Only how often each node occurs matters. -/
theorem within (h : Ready Γ N s more) (hle : ∀ id, ids.count id ≤ more.count id) :
    Ready Γ N s ids where
  covers := h.covers
  names := h.names
  fresh id hid := h.fresh id <| List.count_pos_iff.1 <|
    Nat.lt_of_lt_of_le (List.count_pos_iff.2 hid) (hle id)
  nodup := List.nodup_iff_count.2 fun id =>
    Nat.le_trans (hle id) (List.nodup_iff_count.1 h.nodup id)

theorem left (h : Ready Γ N s (ids ++ more)) : Ready Γ N s ids :=
  h.within fun _ => by rw [List.count_append]; omega

theorem right (h : Ready Γ N s (ids ++ more)) : Ready Γ N s more :=
  h.within fun _ => by rw [List.count_append]; omega

/-- Only the scopes of a state matter. -/
theorem at_state (h : Ready Γ N s ids) (hscopes : t.scopes = s.scopes) : Ready Γ N t ids :=
  ⟨by rw [hscopes]; exact h.covers, by rw [CheckState.names, hscopes]; exact h.names, h.fresh,
    h.nodup⟩

theorem opened (h : Ready Γ N s ids) : Ready Γ ([] :: N) { s with scopes := s.scopes.opened } ids :=
  ⟨h.covers.opened, by rw [← h.names]; rfl, h.fresh, h.nodup⟩

/-- What comes after a declaration is checked in the context that the declaration leaves. -/
theorem after (h : Ready Γ N s (ids ++ more)) (hcovers : Δ.Covers t.scopes)
    (hagrees : Γ.AgreesOutside Δ ids) : Ready Δ t.names t more := by
  refine ⟨hcovers, rfl, fun id hid => ?_, h.right.nodup⟩
  have hnotin : id ∉ ids := fun hin => (List.nodup_append.1 h.nodup).2.2 id hin id hid rfl
  rw [hagrees id hnotin]
  exact h.right.fresh id hid

end Ready

/-! ## What steps find out

What is found out is said of all annotations that hold the notes of the step, and not of those that
it leaves: so it still holds when the rest of the tree has been checked. -/

section

variable {α β : Type}

/-- A step leaves the scopes alone, and a run of it that reports nothing makes notes about some
nodes.  If the context is as it should be, annotations that hold them have a property. -/
structure Establishes (K : Context → Prop) (Γ : Context) (N : Names) (I : List NodeId) (x : Check α)
    (T : α → Annotations → Prop) : Prop where
  passing : Passing x
  finds : ∀ ⦃s a s'⦄, Yields x s a s' → s'.Clean → Ready Γ N s I →
    Finds s I s' fun A => K Γ → T a A

/-- A step declares names, and a run of it that reports nothing moreover leads to a context that
knows them. -/
structure Introduces (K : Context → Prop) (Γ : Context) (N : Names) (I : List NodeId) (x : Check α)
    (T : α → Context → Names → Annotations → Prop) : Prop where
  declaring : Declaring x
  finds : ∀ ⦃s a s'⦄, Yields x s a s' → s'.Clean → Ready Γ N s I →
    ∃ Δ : Context, Δ.Covers s'.scopes ∧ Γ.AgreesOutside Δ I ∧
      Finds s I s' fun A => K Γ → T a Δ s'.names A

/-- A step that declares names, the last of them with the given node, about which it makes no note.
-/
structure Binds (K : Context → Prop) (Γ : Context) (N : Names) (I : List NodeId) (id : NodeId)
    (x : Check α) (T : α → Context → Names → Annotations → Prop) : Prop where
  declaring : Declaring x
  finds : ∀ ⦃s a s'⦄, Yields x s a s' → s'.Clean → Ready Γ N s (I ++ [id]) →
    ∃ Δ : Context, Δ.Covers s'.scopes ∧ Γ.AgreesOutside Δ (I ++ [id]) ∧
      Finds s I s' fun A => K Γ → T a Δ s'.names A

variable {K : Context → Prop} {Γ : Context} {N : Names} {I J L : List NodeId} {id : NodeId}
  {x : Check α} {f : α → Check β}

section

variable {T U : α → Annotations → Prop} {V : α → β → Annotations → Prop}

theorem Establishes.pure (a : α) : Establishes K Γ N [] (pure a) fun b _ => b = a where
  passing := .pure a
  finds s b s' h _ _ := by
    obtain ⟨rfl, rfl⟩ := yields_pure.1 h
    exact .nothing rfl fun _ _ => rfl

/-- What both runs establish, over the nodes of both. -/
theorem Establishes.bind (hx : Establishes K Γ N I x T)
    (hf : ∀ a, Establishes K Γ N J (f a) (V a)) :
    Establishes K Γ N (I ++ J) (x >>= f) fun b A => ∃ a, T a A ∧ V a b A where
  passing := hx.passing.bind fun a => (hf a).passing
  finds s b s' h hclean hready := by
    obtain ⟨a, t, h₁, h₂⟩ := yields_bind.1 h
    have hclean₁ := ((hf a).passing _ _ _ h₂).clean hclean
    have hready₁ := hready.right.at_state (hx.passing _ _ _ h₁).scopes
    exact ((hx.finds h₁ hclean₁ hready.left).trans ((hf a).finds h₂ hclean hready₁)).imp
      fun A hA hΓ => ⟨a, hA.1 hΓ, hA.2 hΓ⟩

/-- What the steps find out makes a rule, for the nodes of a phrase.  That these are the nodes of
the steps is read off the definition of `ids`. -/
theorem Establishes.conclude (hx : Establishes K Γ N I x T)
    (himp : K Γ → ∀ a A, T a A → U a A)
    (hle : ∀ id, I.count id ≤ J.count id := by
      intro id
      first
      | exact Nat.le_refl _
      | simp only [Command.ids, Expression.ids, Declaration.ids, Vname.ids, Argument.ids,
          Arguments.ids, ArrayAggregate.ids, RecordAggregate.ids, TypeDenoter.ids,
          FieldDenoters.ids, Parameter.ids, Parameters.ids, List.count_append, List.count_nil]
        omega) :
    Establishes K Γ N J x U where
  passing := hx.passing
  finds _ _ _ h hclean hready := ((hx.finds h hclean (hready.within hle)).within hle).imp
    fun A hA hΓ => himp hΓ _ A (hA hΓ)

end

section

variable {T U : α → Context → Names → Annotations → Prop}

theorem Establishes.introduces {T : α → Annotations → Prop}
    {V : α → β → Context → Names → Annotations → Prop} (hx : Establishes K Γ N I x T)
    (hf : ∀ a, Introduces K Γ N J (f a) (V a)) :
    Introduces K Γ N (I ++ J) (x >>= f) fun b Δ M A => ∃ a, T a A ∧ V a b Δ M A where
  declaring := hx.passing.declaring.bind fun a => (hf a).declaring
  finds s b s' h hclean hready := by
    obtain ⟨a, t, h₁, h₂⟩ := yields_bind.1 h
    have hclean₁ := ((hf a).declaring _ _ _ h₂).clean hclean
    have hready₁ := hready.right.at_state (hx.passing _ _ _ h₁).scopes
    obtain ⟨Δ, hcovers, hagrees, hfinds⟩ := (hf a).finds h₂ hclean hready₁
    refine ⟨Δ, hcovers, fun id hid => hagrees id fun hin => hid (List.mem_append_right _ hin), ?_⟩
    exact ((hx.finds h₁ hclean₁ hready.left).trans hfinds).imp
      fun A hA hΓ => ⟨a, hA.1 hΓ, hA.2 hΓ⟩

theorem Introduces.pure (a : α) :
    Introduces K Γ N [] (pure a) fun b Δ M _ => b = a ∧ Δ = Γ ∧ M = N where
  declaring := (Passing.pure a).declaring
  finds s b s' h _ hready := by
    obtain ⟨rfl, rfl⟩ := yields_pure.1 h
    exact ⟨Γ, hready.covers, fun _ _ => rfl, .nothing rfl fun _ _ => ⟨rfl, rfl, hready.names⟩⟩

theorem Introduces.bind {V : α → Context → Names → β → Context → Names → Annotations → Prop}
    (hx : Introduces K Γ N I x T)
    (hK : ∀ a Δ M A, K Γ → T a Δ M A → K Δ)
    (hf : ∀ a Δ M, Introduces K Δ M J (f a) (V a Δ M)) :
    Introduces K Γ N (I ++ J) (x >>= f) fun b Δ M A =>
      ∃ a Θ K, T a Θ K A ∧ V a Θ K b Δ M A where
  declaring := hx.declaring.bind fun a => (hf a Γ N).declaring
  finds s b s' h hclean hready := by
    obtain ⟨a, t, h₁, h₂⟩ := yields_bind.1 h
    have hclean₁ := ((hf a Γ N).declaring _ _ _ h₂).clean hclean
    obtain ⟨Θ, hcovers, hagrees, hfinds⟩ := hx.finds h₁ hclean₁ hready.left
    obtain ⟨Δ, hcovers', hagrees', hfinds'⟩ :=
      (hf a Θ t.names).finds h₂ hclean (hready.after hcovers hagrees)
    refine ⟨Δ, hcovers', fun id hid => ?_, (hfinds.trans hfinds').imp fun A hA hΓ => ?_⟩
    · rw [List.mem_append, not_or] at hid
      rw [hagrees' id hid.2, hagrees id hid.1]
    · exact ⟨a, Θ, t.names, hA.1 hΓ, hA.2 (hK a Θ t.names A hΓ (hA.1 hΓ))⟩

theorem Introduces.map (hx : Introduces K Γ N I x T) (g : α → β) :
    Introduces K Γ N I (x >>= fun a => Pure.pure (g a)) fun b Δ M A =>
      ∃ a, T a Δ M A ∧ b = g a where
  declaring := hx.declaring.bind fun a => (Passing.pure (g a)).declaring
  finds s b s' h hclean hready := by
    obtain ⟨a, t, h₁, h₂⟩ := yields_bind.1 h
    obtain ⟨rfl, rfl⟩ := yields_pure.1 h₂
    obtain ⟨Δ, hcovers, hagrees, hfinds⟩ := hx.finds h₁ hclean hready
    exact ⟨Δ, hcovers, hagrees, hfinds.imp fun A hA hΓ => ⟨a, hA hΓ, rfl⟩⟩

theorem Introduces.conclude (hx : Introduces K Γ N I x T)
    (himp : K Γ → ∀ a Δ M A, T a Δ M A → U a Δ M A)
    (hle : ∀ id, I.count id ≤ J.count id := by
      intro id
      first
      | exact Nat.le_refl _
      | simp only [Command.ids, Expression.ids, Declaration.ids, Vname.ids, Argument.ids,
          Arguments.ids, ArrayAggregate.ids, RecordAggregate.ids, TypeDenoter.ids,
          FieldDenoters.ids, Parameter.ids, Parameters.ids, List.count_append, List.count_nil]
        omega) :
    Introduces K Γ N J x U where
  declaring := hx.declaring
  finds s a s' h hclean hready := by
    obtain ⟨Δ, hcovers, hagrees, hfinds⟩ := hx.finds h hclean (hready.within hle)
    refine ⟨Δ, hcovers, fun id hid => hagrees id fun hin => hid ?_,
      (hfinds.within hle).imp fun A hA hΓ => himp hΓ a Δ _ A (hA hΓ)⟩
    exact List.count_pos_iff.1 (Nat.lt_of_lt_of_le (List.count_pos_iff.2 hin) (hle id))

theorem Check.typed_finds {ty found : Ty} (h : Yields (Check.typed id ty) s found s') :
    found = ty ∧ Finds s [id] s' fun A => A.typeOf? id = some ty := by
  simp only [Check.typed, yields_bind, yields_modify, yields_pure] at h
  obtain ⟨_, _, rfl, rfl, rfl⟩ := h
  exact ⟨rfl, Finds.one (n := .type id ty) rfl fun _ hA => hA⟩

/-- A type is noted for the node of a declaration. -/
theorem Binds.typed {f : Ty → Check α} {τ : Ty} (hf : Binds K Γ N I id (f τ) T) :
    Introduces K Γ N (I ++ [id]) (Check.typed id τ >>= f) fun a Δ M A =>
      A.typeOf? id = some τ ∧ T a Δ M A where
  declaring s a s' h := by
    obtain ⟨_, t, h₁, h₂⟩ := yields_bind.1 h
    obtain ⟨rfl, -⟩ := Check.typed_finds h₁
    exact ((passing_typed _ _ _ _ _ h₁).declares).trans (hf.declaring _ _ _ h₂)
  finds s a s' h hclean hready := by
    obtain ⟨_, t, h₁, h₂⟩ := yields_bind.1 h
    obtain ⟨rfl, hfinds₁⟩ := Check.typed_finds h₁
    obtain ⟨Δ, hcovers, hagrees, hfinds⟩ :=
      hf.finds h₂ hclean (hready.at_state (passing_typed _ _ _ _ _ h₁).scopes)
    refine ⟨Δ, hcovers, hagrees, ((hfinds₁.trans hfinds).within fun other => ?_).imp ?_⟩
    · rw [List.count_append, List.count_append]
      omega
    · exact fun A hA hΓ => ⟨hA.1, hA.2 hΓ⟩

theorem Binds.introduces (hx : Binds K Γ N I id x T) : Introduces K Γ N (I ++ [id]) x T where
  declaring := hx.declaring
  finds s a s' h hclean hready := by
    obtain ⟨Δ, hcovers, hagrees, hfinds⟩ := hx.finds h hclean hready
    exact ⟨Δ, hcovers, hagrees, hfinds.within fun other => by rw [List.count_append]; omega⟩

theorem Binds.map (hx : Binds K Γ N I id x T) (g : α → β) :
    Binds K Γ N I id (x >>= fun a => Pure.pure (g a)) fun b Δ M A => ∃ a, T a Δ M A ∧ b = g a where
  declaring := hx.declaring.bind fun a => (Passing.pure (g a)).declaring
  finds s b s' h hclean hready := by
    obtain ⟨a, t, h₁, h₂⟩ := yields_bind.1 h
    obtain ⟨rfl, rfl⟩ := yields_pure.1 h₂
    obtain ⟨Δ, hcovers, hagrees, hfinds⟩ := hx.finds h₁ hclean hready
    exact ⟨Δ, hcovers, hagrees, hfinds.imp fun A hA hΓ => ⟨a, hA hΓ, rfl⟩⟩

end

/-! ## Scopes of their own

What a scope declares goes when it is closed.  What was found out inside speaks of annotations, and
stays. -/

/-- A run of what is done in a scope of its own, and of what follows. -/
theorem yields_scoped (hx : Declaring x) {b : β}
    (h : Yields (do openScope; let a ← x; let _ ← closeScope; f a) s b s') :
    ∃ a t, Yields x { s with scopes := s.scopes.opened } a t ∧
      Yields (f a) { t with scopes := s.scopes } b s' := by
  simp only [openScope, closeScope, yields_bind, yields_modify, yields_modifyGet] at h
  obtain ⟨_, _, rfl, a, t, h₁, _, _, ⟨-, rfl⟩, h₂⟩ := h
  have hscopes : t.scopes.closed = s.scopes := (hx _ _ _ h₁).closed.scopes
  rw [hscopes] at h₂
  exact ⟨a, t, h₁, h₂⟩

/-- What is declared in a scope of its own is forgotten; that it was checked is not. -/
theorem Introduces.scoped {T : α → Context → Names → Annotations → Prop}
    {V : α → β → Context → Names → Annotations → Prop} (hx : Introduces K Γ ([] :: N) I x T)
    (hf : ∀ a, Introduces K Γ N J (f a) (V a)) :
    Introduces K Γ N (I ++ J) (do openScope; let a ← x; let _ ← closeScope; f a)
      fun b Δ M A => ∃ a Θ K, T a Θ K A ∧ V a b Δ M A where
  declaring s b s' h := by
    obtain ⟨a, t, h₁, h₂⟩ := yields_scoped hx.declaring h
    obtain ⟨hscopes, hclean⟩ := (hf a).declaring _ _ _ h₂
    exact ⟨hscopes, fun h => (hx.declaring _ _ _ h₁).clean (hclean h)⟩
  finds s b s' h hclean hready := by
    obtain ⟨a, t, h₁, h₂⟩ := yields_scoped hx.declaring h
    have hclean₁ : t.Clean := ((hf a).declaring _ _ _ h₂).clean hclean
    obtain ⟨Θ, -, -, hfinds⟩ := hx.finds h₁ hclean₁ hready.left.opened
    obtain ⟨Δ, hcovers, hagrees, hfinds'⟩ := (hf a).finds h₂ hclean (hready.right.at_state rfl)
    refine ⟨Δ, hcovers, fun id hid => hagrees id fun hin => hid (List.mem_append_right _ hin), ?_⟩
    exact ((hfinds.of_eq (u := s) (v := { t with scopes := s.scopes }) rfl rfl).trans hfinds').imp
      fun A hA hΓ => ⟨a, Θ, t.names, hA.1 hΓ, hA.2 hΓ⟩

/-- A block: declarations in a scope of their own, and something that sees them. -/
theorem Introduces.block {d : Check Unit} {D : Context → Names → Annotations → Prop}
    {T : Context → Names → α → Annotations → Prop} {V : α → β → Annotations → Prop}
    (hd : Introduces K Γ ([] :: N) I d fun _ => D)
    (hK : ∀ Δ M A, K Γ → D Δ M A → K Δ)
    (hx : ∀ Δ M, Establishes K Δ M J x (T Δ M)) (hf : ∀ a, Establishes K Γ N L (f a) (V a)) :
    Establishes K Γ N (I ++ J ++ L)
      (do openScope; d; let a ← x; let _ ← closeScope; f a) fun b A =>
        ∃ a Δ M, D Δ M A ∧ T Δ M a A ∧ V a b A := by
  have hinner : Declaring (d >>= fun _ => x) :=
    hd.declaring.bind fun _ => (hx Γ N).passing.declaring
  have hruns : ∀ {s b s'}, Yields (do openScope; d; let a ← x; let _ ← closeScope; f a) s b s' →
      ∃ a t, Yields (d >>= fun _ => x) { s with scopes := s.scopes.opened } a t ∧
        Yields (f a) { t with scopes := s.scopes } b s' := by
    intro s b s' h
    refine yields_scoped hinner ?_
    rwa [bind_assoc]
  refine ⟨fun s b s' h => ?_, fun s b s' h hclean hready => ?_⟩
  · obtain ⟨a, t, h₁, h₂⟩ := hruns h
    obtain ⟨hscopes, hclean⟩ := (hf a).passing _ _ _ h₂
    exact ⟨hscopes, fun h => (hinner _ _ _ h₁).clean (hclean h)⟩
  · obtain ⟨a, t, h₁, h₂⟩ := hruns h
    have hclean₂ : t.Clean := ((hf a).passing _ _ _ h₂).clean hclean
    obtain ⟨_, u, h₁, h₃⟩ := yields_bind.1 h₁
    obtain ⟨Δ, hcovers, hagrees, hfinds⟩ :=
      hd.finds h₁ (((hx Γ N).passing _ _ _ h₃).clean hclean₂) hready.left.left.opened
    have hfinds' := (hx Δ u.names).finds h₃ hclean₂ (hready.left.opened.after hcovers hagrees)
    have hfinds'' := (hf a).finds h₂ hclean (hready.right.at_state rfl)
    refine (((hfinds.trans hfinds').of_eq (u := s) (v := { t with scopes := s.scopes }) rfl
      rfl).trans hfinds'').imp fun A hA hΓ => ?_
    have hD := hA.1.1 hΓ
    exact ⟨a, Δ, u.names, hD, hA.1.2 (hK Δ _ A hΓ hD), hA.2 hΓ⟩

end

/-! ## The steps of checking -/

namespace Check

section

variable {β : Type} {K : Context → Prop} {Γ : Context} {N : Names} {I : List NodeId}

theorem establishes_typed (id : NodeId) (τ : Ty) :
    Establishes K Γ N [id] (typed id τ) fun b A => b = τ ∧ A.typeOf? id = some τ where
  passing := passing_typed id τ
  finds _ _ _ h _ _ := by
    obtain ⟨rfl, hfinds⟩ := typed_finds h
    exact hfinds.imp fun A hA _ => ⟨rfl, hA⟩

/-- The type of a V-name is noted; that it is a variable may be noted as well. -/
theorem establishes_named (id : NodeId) (τ : Ty) (assignable : Bool) :
    Establishes K Γ N [id] (named id τ assignable) fun b A =>
      b = (τ, assignable) ∧ A.typeOf? id = some τ where
  passing := passing_named id τ assignable
  finds s b s' h _ _ := by
    obtain ⟨_, t, h₁, h₂⟩ := yields_bind.1 h
    obtain ⟨rfl, hfinds⟩ := typed_finds h₁
    cases assignable with
    | false =>
      obtain ⟨rfl, rfl⟩ := yields_pure.1 h₂
      exact hfinds.imp fun A hA _ => ⟨rfl, hA⟩
    | true =>
      simp only [typed, yields_bind, yields_modify, yields_pure] at h₁
      obtain ⟨_, _, rfl, -, rfl⟩ := h₁
      obtain ⟨_, _, h₂, h₃⟩ := yields_bind.1 h₂
      obtain rfl := yields_modify.1 h₂
      obtain ⟨rfl, rfl⟩ := yields_pure.1 h₃
      refine ⟨[.type id _, .variable id], rfl, fun kind other => ?_, fun A hA _ => ⟨rfl, ?_⟩⟩
      · by_cases hid : id = other
        · cases kind <;> simp [Note.key, hid]
        · simp [Note.key, hid]
      · exact hA (.type id _) (by simp)

theorem establishes_lift {α : Type} (x : Checked α) :
    Establishes K Γ N [] (liftM x : Check α) fun a _ => x = .ok a where
  passing := Along.lift Passes.refl x
  finds s a s' h _ _ := by
    obtain ⟨hx, rfl⟩ := yields_lift.1 h
    exact .nothing rfl fun _ _ => hx

/-- After a report nothing has to be found. -/
theorem establishes_report (span : Span) (fault : ContextFault) {T : Unit → Annotations → Prop} :
    Establishes K Γ N I (report span fault) T where
  passing := passing_report span fault
  finds s _ s' h hclean _ := by
    obtain rfl := yields_modify.1 h
    exact absurd hclean (Log.errors_report_ne_zero _ _ _)

/-- After a complaint no run is clean, and there is nothing to establish. -/
theorem establishes_report_bind {k : Unit → Check β} {T : β → Annotations → Prop}
    (hk : Passing (k ())) : Establishes K Γ N I (report span fault >>= k) T where
  passing := (passing_report span fault).bind fun _ => hk
  finds s _ s' h hclean _ := by
    obtain ⟨_, t, h₁, h₂⟩ := yields_bind.1 h
    obtain rfl := yields_modify.1 h₁
    exact absurd ((hk _ _ _ h₂).clean hclean) (Log.errors_report_ne_zero _ _ _)

/-- A test, and a report where it fails. -/
theorem establishes_test (test : Bool) (span : Span) (fault : ContextFault) :
    Establishes K Γ N [] (if test then pure () else report span fault) fun _ _ => test = true := by
  cases test with
  | true => exact (Establishes.pure ()).conclude fun _ _ _ _ => rfl
  | false => exact establishes_report _ _

theorem establishes_test_bind (test : Bool) {k : Unit → Check β} {T : β → Annotations → Prop}
    (hk : Establishes K Γ N I (k ()) T) :
    Establishes K Γ N I (if test then k () else report span fault >>= k) fun b A =>
      test = true ∧ T b A := by
  cases test with
  | true => exact hk.conclude fun _ _ _ h => ⟨rfl, h⟩
  | false => exact establishes_report_bind hk.passing

/-- Without a complaint the types are equivalent. -/
theorem establishes_require (expected found : Ty) (span : Span) :
    Establishes K Γ N [] (require expected found span) fun _ _ =>
      found.equivalent expected = true :=
  establishes_test _ _ _

theorem establishes_requireVariable (τ : Ty) (assignable : Bool) (span : Span)
    (fault : ContextFault) :
    Establishes K Γ N [] (requireVariable τ assignable span fault) fun _ _ =>
      (assignable || τ.isError) = true :=
  establishes_test _ _ _

theorem establishes_prependField (name : Terminal) (τ : Ty) (others : Fields) :
    Establishes K Γ N [] (prependField name τ others) fun fs _ =>
      others.declares name.spelling = false ∧ fs = .cons name.spelling τ others := by
  rw [prependField]
  cases others.declares name.spelling with
  | true => exact establishes_report_bind (.pure _)
  | false => exact (Establishes.pure _).conclude fun _ _ _ h => ⟨rfl, h⟩

/-- A name refers to something, and what follows goes by what that means. -/
theorem establishes_resolve_bind (name : Terminal) {k : Option Meaning → Check β}
    {T : Meaning → β → Annotations → Prop} (hnone : Passing (k none))
    (hsome : ∀ m, Establishes K Γ N I (k (some m)) (T m)) :
    Establishes K Γ N ([name.mark.id] ++ I) (resolve name >>= k) fun b A =>
      ∃ m, A.Means Γ name m ∧ N.meaning? name.spelling = some m ∧ T m b A where
  passing := by
    refine (passing_resolve name).bind fun found => ?_
    cases found with
    | none => exact hnone
    | some m => exact (hsome m).passing
  finds s b s' h hclean hready := by
    obtain ⟨found, t, h₁, h₂⟩ := yields_bind.1 h
    cases hfind : s.scopes.find? name.spelling with
    | none =>
      obtain ⟨rfl, rfl⟩ := h₁.unique (yields_resolve_none hfind)
      exact absurd ((hnone _ _ _ h₂).clean hclean) (Log.errors_report_ne_zero _ _ _)
    | some binding =>
      obtain ⟨rfl, rfl⟩ := h₁.unique (yields_resolve_some hfind)
      have hmeaning := hready.covers binding (Scopes.mem_bindings_of_find? hfind)
      have hname : N.meaning? name.spelling = some binding.meaning := by
        rw [← hready.names, CheckState.names, Scopes.meaning?_names, hfind]
        rfl
      have hfinds := (hsome _).finds h₂ hclean (hready.right.at_state rfl)
      exact ((Finds.one (n := .referent name.mark.id binding.referent) rfl fun A hA => hA).trans
        hfinds).imp fun A hA hΓ => ⟨_, ⟨_, hA.1, hmeaning⟩, hname, hA.2 hΓ⟩

theorem establishes_procedure_bind (name : Terminal) {k : Option Formals → Check β}
    {T : Formals → β → Annotations → Prop} (hnone : Passing (k none))
    (hsome : ∀ formals, Establishes K Γ N I (k (some formals)) (T formals)) :
    Establishes K Γ N ([name.mark.id] ++ I) (procedure name >>= k) fun b A =>
      ∃ formals, A.Means Γ name (.proc formals) ∧
        N.meaning? name.spelling = some (.proc formals) ∧ T formals b A := by
  rw [procedure, bind_assoc]
  refine (establishes_resolve_bind (T := fun m b A => ∃ formals, m = .proc formals ∧ T formals b A)
    name ?_ fun m => ?_).conclude ?_
  · rwa [pure_bind]
  · cases m with
    | proc formals =>
      rw [pure_bind]
      exact (hsome formals).conclude fun _ _ _ h => ⟨formals, rfl, h⟩
    | _ =>
      rw [bind_assoc]
      exact establishes_report_bind (by rwa [pure_bind])
  · rintro - b A ⟨_, hmeans, hname, formals, rfl, h⟩
    exact ⟨formals, hmeans, hname, h⟩

theorem establishes_function_bind (name : Terminal) {k : Option (Formals × Ty) → Check β}
    {T : Formals → Ty → β → Annotations → Prop} (hnone : Passing (k none))
    (hsome : ∀ formals τ, Establishes K Γ N I (k (some (formals, τ))) (T formals τ)) :
    Establishes K Γ N ([name.mark.id] ++ I) (function name >>= k) fun b A =>
      ∃ formals τ, A.Means Γ name (.func formals τ) ∧
        N.meaning? name.spelling = some (.func formals τ) ∧ T formals τ b A := by
  rw [function, bind_assoc]
  refine (establishes_resolve_bind (T := fun m b A => ∃ formals τ, m = .func formals τ ∧
    T formals τ b A) name ?_ fun m => ?_).conclude ?_
  · rwa [pure_bind]
  · cases m with
    | func formals τ =>
      rw [pure_bind]
      exact (hsome formals τ).conclude fun _ _ _ h => ⟨formals, τ, rfl, h⟩
    | _ =>
      rw [bind_assoc]
      exact establishes_report_bind (by rwa [pure_bind])
  · rintro - b A ⟨_, hmeans, hname, formals, τ, rfl, h⟩
    exact ⟨formals, τ, hmeans, hname, h⟩

/-- Without a complaint the name was fresh, and its node now has the meaning. -/
theorem binds_declare (name : Terminal) (id : NodeId) (meaning : Meaning) :
    Binds K Γ N [] id (declare name id meaning) fun _ Δ M _ =>
      Γ id = none ∧ Δ = Γ.bind id meaning ∧ N.Fresh name.spelling ∧
        M = N.bind name.spelling meaning where
  declaring := declaring_declare name id meaning
  finds s _ s' h hclean hready := by
    have hid := hready.fresh id List.mem_cons_self
    simp only [declare, yields_bind, yields_get] at h
    obtain ⟨_, _, ⟨rfl, rfl⟩, h⟩ := h
    split at h
    · rename_i scopes henter
      obtain rfl := yields_modify.1 h
      have heq := Scopes.eq_extended_of_enter? henter
      refine ⟨Γ.bind id meaning, ?_, ?_, .nothing rfl fun _ _ => ⟨hid, rfl, ?_, ?_⟩⟩
      · rw [heq]
        exact hready.covers.declared hid name.spelling meaning
      · exact fun other hother => Context.bind_of_ne fun heq => hother (heq ▸ List.mem_cons_self)
      · rw [← hready.names]
        exact Scopes.fresh_names_iff.2 ⟨scopes, henter⟩
      · rw [← hready.names, CheckState.names, heq]
        exact Scopes.names_extended _ _ _
    · obtain rfl := yields_modify.1 h
      exact absurd hclean (Log.errors_report_ne_zero _ _ _)

end

end Check

/-! ## Types and parameters -/

section

variable {K : Context → Prop}

mutual

theorem TypeDenoter.check_denotes {Γ : Context} {N : Names} : (of : TypeDenoter) → of.Complete →
    Establishes K Γ N of.ids of.check fun τ A => of.Denotes A Γ τ ∧ of.StandsFor N τ
  | .bool m, _ | .char m, _ | .int m, _ => by
    refine (establishes_typed m.id _).conclude ?_
    rintro - _ A ⟨rfl, h⟩
    exact ⟨⟨h, rfl⟩, by constructor⟩
  | .array m size element, ⟨hsize, helement⟩ => by
    obtain ⟨length, hlength⟩ := Option.isSome_iff_exists.1 hsize
    rw [TypeDenoter.check, hlength]
    refine ((element.check_denotes helement).bind (J := [m.id])
      (V := fun σ τ A => 0 < length ∧ τ = .array length σ ∧ A.typeOf? m.id = some τ)
      fun σ => ?_).conclude ?_
    · by_cases hpositive : 0 < length
      · simp only [if_pos hpositive]
        refine (establishes_typed m.id _).conclude ?_
        rintro - _ A ⟨rfl, h⟩
        exact ⟨hpositive, rfl, h⟩
      · simp only [if_neg hpositive]
        exact establishes_report_bind (passing_typed _ _)
    · rintro - _ A ⟨σ, hσ, hpositive, rfl, h⟩
      exact ⟨⟨h, length, σ, hlength, hpositive, hσ.1, rfl⟩, .array hlength hpositive hσ.2⟩
  | .record m fields, hcomplete => by
    refine ((fields.check_denotes hcomplete).bind fun fs =>
      establishes_typed m.id (.record fs)).conclude ?_
    rintro - _ A ⟨fs, hfs, rfl, h⟩
    exact ⟨⟨h, fs, hfs.1, rfl⟩, .record hfs.2⟩
  | .simple m name, _ => by
    refine (establishes_resolve_bind (T := fun meaning τ A => meaning = .type τ ∧
      A.typeOf? m.id = some τ) name (passing_typed _ _) fun meaning => ?_).conclude ?_
    · cases meaning with
      | type of =>
        refine (establishes_typed m.id of).conclude ?_
        rintro - _ A ⟨rfl, h⟩
        exact ⟨rfl, h⟩
      | _ => exact establishes_report_bind (passing_typed _ _)
    · rintro - τ A ⟨_, hmeans, hname, rfl, h⟩
      exact ⟨⟨h, hmeans⟩, .simple hname⟩

theorem FieldDenoters.check_denotes {Γ : Context} {N : Names} : (fields : FieldDenoters) →
    fields.Complete → Establishes K Γ N fields.ids fields.check fun fs A =>
      fields.Denotes A Γ fs ∧ fields.StandFor N fs
  | .single m name of, hcomplete => by
    refine ((of.check_denotes hcomplete).bind fun τ =>
      establishes_prependField name τ .nil).conclude ?_
    rintro - _ A ⟨τ, hτ, -, rfl⟩
    exact ⟨⟨τ, hτ.1, rfl⟩, .single hτ.2⟩
  | .multiple m name of rest, ⟨hof, hrest⟩ => by
    refine ((of.check_denotes hof).bind fun τ =>
      (rest.check_denotes hrest).bind fun others =>
      establishes_prependField name τ others).conclude ?_
    rintro - _ A ⟨τ, hτ, others, hothers, hdeclares, rfl⟩
    exact ⟨⟨τ, others, hτ.1, hothers.1, hdeclares, rfl⟩, .multiple hτ.2 hothers.2 hdeclares⟩

end

end

/-- Nothing is asked of the contexts that the types of parameters are read in. -/
abbrev Context.Any (_ : Context) : Prop := True

mutual

theorem Parameter.check_typed {Γ : Context} {N : Names} : (parameter : Parameter) →
    parameter.Complete → Introduces Context.Any Γ N parameter.ids parameter.check
      fun formal Δ M A => parameter.Typed A Γ formal Δ ∧ parameter.Introduces N formal M
  | .const m name of, hcomplete => by
    refine ((of.check_denotes hcomplete).introduces fun τ => Binds.typed
      ((binds_declare name m.id (.const τ)).map fun _ => Formal.const τ)).conclude ?_
    rintro - _ _ _ A ⟨τ, hτ, h, _, ⟨hfresh, rfl, hname, rfl⟩, rfl⟩
    exact ⟨⟨τ, hτ.1, h, rfl, hfresh, rfl⟩, .const hτ.2 hname⟩
  | .var m name of, hcomplete => by
    refine ((of.check_denotes hcomplete).introduces fun τ => Binds.typed
      ((binds_declare name m.id (.var τ)).map fun _ => Formal.var τ)).conclude ?_
    rintro - _ _ _ A ⟨τ, hτ, h, _, ⟨hfresh, rfl, hname, rfl⟩, rfl⟩
    exact ⟨⟨τ, hτ.1, h, rfl, hfresh, rfl⟩, .var hτ.2 hname⟩
  | .proc m name parameters, hcomplete => by
    refine ((parameters.check_typed hcomplete).scoped fun formals =>
      ((binds_declare name m.id (.proc formals)).map fun _ =>
      Formal.proc formals).introduces).conclude ?_
    rintro - _ _ _ A ⟨formals, Θ, L, h, _, ⟨hfresh, rfl, hname, rfl⟩, rfl⟩
    exact ⟨⟨formals, Θ, h.1, rfl, hfresh, rfl⟩, .proc h.2 hname⟩
  | .func m name parameters result, ⟨hparameters, hresult⟩ => by
    refine ((parameters.check_typed hparameters).scoped fun formals =>
      (result.check_denotes hresult).introduces fun τ => Binds.typed
      ((binds_declare name m.id (.func formals τ)).map fun _ =>
      Formal.func formals τ)).conclude ?_
    rintro - _ _ _ A ⟨formals, Θ, L, h, τ, hτ, htype, _, ⟨hfresh, rfl, hname, rfl⟩, rfl⟩
    exact ⟨⟨formals, Θ, τ, h.1, hτ.1, htype, rfl, hfresh, rfl⟩, .func h.2 hτ.2 hname⟩

theorem Parameters.check_typed {Γ : Context} {N : Names} : (parameters : Parameters) →
    parameters.Complete → Introduces Context.Any Γ N parameters.ids parameters.check
      fun formals Δ M A => parameters.Typed A Γ formals Δ ∧ parameters.Introduce N formals M
  | .empty m, _ => by
    refine (Introduces.pure _).conclude ?_
    rintro - _ _ _ A ⟨rfl, rfl, rfl⟩
    exact ⟨⟨rfl, rfl⟩, .empty⟩
  | .single m parameter, hcomplete => by
    refine ((parameter.check_typed hcomplete).map fun formal =>
      Formals.cons formal .nil).conclude ?_
    rintro - _ _ _ A ⟨formal, h, rfl⟩
    exact ⟨⟨formal, h.1, rfl⟩, .single h.2⟩
  | .multiple m first rest, ⟨hfirst, hrest⟩ => by
    refine ((first.check_typed hfirst).bind (fun _ _ _ _ _ _ => trivial)
      fun formal Θ L => (rest.check_typed hrest).map fun others =>
      Formals.cons formal others).conclude ?_
    rintro - _ _ _ A ⟨formal, Θ, L, h, others, h', rfl⟩
    exact ⟨⟨formal, others, Θ, h.1, h'.1, rfl⟩, .multiple h.2 h'.2⟩

end

/-- A routine: its parameters are typed where its name is known, and its body where the parameters
are known as well. -/
theorem Check.binds_routine {N : Names} (name : Terminal) (id : NodeId) (parameters : Parameters)
    (meaning : Formals → Meaning) {body : Check Unit} {I : List NodeId}
    {T : Context → Names → Annotations → Prop} (hcomplete : parameters.Complete)
    (hbody : ∀ Θ L, Establishes Context.Proper Θ L I body fun _ => T Θ L) :
    Binds Context.Proper Γ N (parameters.ids ++ I) id (routine name id parameters meaning body)
      fun _ Δ M A => ∃ formals Θ scope, Γ id = none ∧ Δ = Γ.bind id (meaning formals) ∧
        N.Fresh name.spelling ∧ M = N.bind name.spelling (meaning formals) ∧
        parameters.Typed A Δ formals Θ ∧ parameters.Introduce ([] :: N) formals (scope :: N) ∧
        (Θ.Proper → T Θ (scope :: M) A) where
  declaring := declaring_routine (hbody Γ N).passing
  finds s _ s' h hclean hready := by
    have hpassing := (hbody Γ N).passing
    obtain ⟨formals, t₁, new, t₂, t₃, h₁, hnew, h₂, h₃, rfl⟩ := (yields_routine_iff hpassing).1 h
    have hclean₂ : t₂.Clean := (hpassing _ _ _ h₃).clean hclean
    have hclean₁ : t₁.Clean := (declaring_declare _ _ _ _ _ _ h₂).clean hclean₂
    obtain ⟨Δ, hcovers₂, hagrees₂, hfinds₂⟩ :=
      (binds_declare name id (meaning formals)).finds (K := Context.Any) (N := N) h₂ hclean₂
        (hready.right.at_state rfl)
    obtain ⟨hfresh, rfl, hname, hnames⟩ := hfinds₂.final List.nodup_nil trivial
    have hnotin : id ∉ parameters.ids ++ I := fun hin =>
      (List.nodup_append.1 hready.nodup).2.2 id hin id List.mem_cons_self rfl
    -- The name of the routine is not among its parameters, so it does no harm to know it there.
    have hready' : Ready (Γ.bind id (meaning formals)) ([] :: N)
        { s with scopes := s.scopes.opened } (parameters.ids ++ I) := by
      refine ⟨hready.covers.opened.mono (Context.le_bind _ hfresh), hready.opened.names,
        fun other hother => ?_, hready.left.nodup⟩
      rw [Context.bind_of_ne fun heq : id = other => hnotin (heq ▸ hother)]
      exact hready.left.fresh other hother
    obtain ⟨Θ, hcovers, hagrees, hfinds₁⟩ :=
      (parameters.check_typed hcomplete).finds h₁ hclean₁ hready'.left
    have hscopes : t₁.names = new.names :: N := by
      rw [CheckState.names, hnew, Scopes.names_extended_opened, ← hready.names]
      rfl
    have hinner : Θ.Covers (t₂.scopes.restored new) := by
      intro b hb
      rcases Scopes.mem_bindings_restored.1 hb with hb | hb
      · refine hcovers b (Scopes.mem_bindings_of_mem_innermost ?_)
        rwa [hnew, Scopes.innermost_extended_opened]
      · exact (hagrees.le hready'.left.fresh).meaningOf (hcovers₂ b hb)
    have hfinds₃ := (hbody Θ _).finds h₃ hclean (hready'.after hinner hagrees)
    have hfinds := ((hfinds₁.of_eq (u := s) (v := { t₁ with scopes := s.scopes }) rfl rfl).trans
      hfinds₂).trans (hfinds₃.of_eq (u := t₂) (v := { t₃ with scopes := t₂.scopes }) rfl rfl)
    refine ⟨_, hcovers₂, ?_, (hfinds.within fun other => ?_).imp fun A hA hΓ => ?_⟩
    · exact fun other hother => hagrees₂ other fun hin => hother (List.mem_append_right _ hin)
    · simp only [List.count_append, List.count_nil]
      omega
    · obtain ⟨htyped, hintroduce⟩ := hA.1.1 trivial
      rw [hscopes] at hintroduce
      refine ⟨formals, Θ, new.names, hfresh, rfl, hname, hnames, htyped, hintroduce, ?_⟩
      exact hA.2

/-! ## Commands, expressions and declarations -/

/-- No proper type is the type of a mistake. -/
theorem Ty.Proper.isError {τ : Ty} (h : τ.Proper) : τ.isError = false := by
  cases τ <;> first | rfl | exact h.elim

section

variable {F : Selectable}

/-- The type that checking finds for an expression is the one that the rules give it. -/
abbrev Expression.ChecksOut (F : Selectable) (Γ : Context) (N : Names) (e : Expression) : Prop :=
  Establishes Context.Proper Γ N e.ids e.check fun τ A => e.Typed A Γ τ ∧ e.HasType F N τ

section

variable {A : Annotations} {Γ : Context} {N : Names} {m : Mark} {operator : Terminal}
  {left right operand condition first second : Expression} {l r σ ρ τ : Ty}

/-- An operator for all types wants operands of the same type, and any other those it names. -/
theorem Expression.typed_binary (hΓ : Γ.Proper) (hleft : left.Typed A Γ σ ∧ left.HasType F N σ)
    (hright : right.Typed A Γ ρ ∧ right.HasType F N ρ) (htype : A.typeOf? m.id = some τ)
    (hmeans : A.Means Γ operator (.binary l r τ))
    (hname : N.meaning? operator.spelling = some (.binary l r τ))
    (hoperands : l = .any ∧ σ.equivalent ρ = true ∨
      l ≠ .any ∧ σ.equivalent l = true ∧ ρ.equivalent r = true) :
    (Expression.binary m left operator right).Typed A Γ τ ∧
      (Expression.binary m left operator right).HasType F N τ := by
  obtain ⟨s, hreferent, hs⟩ := hmeans.binary hΓ
  have hσ := hleft.1.proper hΓ
  have hρ := hright.1.proper hΓ
  obtain ⟨-, ⟨rfl, rfl⟩ | ⟨hl, hr⟩⟩ := Standard.binary_cases hs
  · obtain ⟨-, heq⟩ | ⟨hany, -⟩ := hoperands
    · obtain rfl := hσ.eq_of_equivalent hρ heq
      exact ⟨⟨htype, _, _, s, hleft.1, hright.1, hreferent, .inr ⟨hs, rfl⟩⟩,
        .comparison hleft.2 hright.2 hname⟩
    · exact absurd rfl hany
  · obtain ⟨rfl, -⟩ | ⟨-, heq, heq'⟩ := hoperands
    · exact hl.elim
    · obtain rfl := hσ.eq_of_equivalent hl heq
      obtain rfl := hρ.eq_of_equivalent hr heq'
      exact ⟨⟨htype, _, _, s, hleft.1, hright.1, hreferent, .inl hs⟩,
        .binary hleft.2 hright.2 hname⟩

theorem Expression.checksOut_binary (hleft : left.ChecksOut F Γ N)
    (hright : right.ChecksOut F Γ N) :
    (Expression.binary m left operator right).ChecksOut F Γ N := by
  refine .conclude (hleft.bind fun σ => hright.bind fun ρ =>
    establishes_resolve_bind (I := [m.id])
    (T := fun meaning τ A => ∃ l r, meaning = .binary l r τ ∧
      A.typeOf? m.id = some τ ∧ (l = .any ∧ σ.equivalent ρ = true ∨
        l ≠ .any ∧ σ.equivalent l = true ∧ ρ.equivalent r = true)) operator
      (passing_typed _ _) fun meaning => ?_) ?_
  · cases meaning with
    | binary l r τ =>
      by_cases hany : l = .any
      · subst hany
        refine .conclude (establishes_test_bind (σ.equivalent ρ) (k := fun _ => typed m.id τ)
          (establishes_typed m.id τ)) ?_
        rintro - _ A ⟨heq, rfl, htype⟩
        exact ⟨_, r, rfl, htype, .inl ⟨rfl, heq⟩⟩
      · simp only [beq_false_of_ne hany, Bool.false_eq_true, if_false]
        refine .conclude ((establishes_require l σ _).bind fun _ =>
          (establishes_require r ρ _).bind fun _ => establishes_typed m.id τ) ?_
        rintro - _ A ⟨_, heq, _, heq', rfl, htype⟩
        exact ⟨l, r, rfl, htype, .inr ⟨hany, heq, heq'⟩⟩
    | _ => exact establishes_report_bind (passing_typed _ _)
  · rintro hΓ τ A ⟨σ, h₁, ρ, h₂, _, hmeans, hname, l, r, rfl, htype, hoperands⟩
    exact Expression.typed_binary hΓ h₁ h₂ htype hmeans hname hoperands

theorem Expression.checksOut_unary (hoperand : operand.ChecksOut F Γ N) :
    (Expression.unary m operator operand).ChecksOut F Γ N := by
  refine .conclude (hoperand.bind fun σ =>
    establishes_resolve_bind (I := [m.id]) (T := fun meaning τ A => ∃ ρ, meaning = .unary ρ τ ∧
      A.typeOf? m.id = some τ ∧ σ.equivalent ρ = true) operator (passing_typed _ _)
      fun meaning => ?_) ?_
  · cases meaning with
    | unary ρ τ =>
      refine .conclude ((establishes_require ρ σ _).bind fun _ => establishes_typed m.id τ) ?_
      rintro - _ A ⟨_, heq, rfl, htype⟩
      exact ⟨ρ, rfl, htype, heq⟩
    | _ => exact establishes_report_bind (passing_typed _ _)
  · rintro hΓ τ A ⟨σ, h, _, hmeans, hname, ρ, rfl, htype, heq⟩
    obtain ⟨s, hreferent, hs⟩ := hmeans.unary hΓ
    obtain rfl := (h.1.proper hΓ).eq_of_equivalent (Standard.unary_proper hs).1 heq
    exact ⟨⟨htype, _, s, h.1, hreferent, hs⟩, .unary h.2 hname⟩

/-- The limbs of a choice have proper types, and so equivalent ones are equal. -/
theorem Expression.checksOut_ifElse (hcondition : condition.ChecksOut F Γ N)
    (hfirst : first.ChecksOut F Γ N) (hsecond : second.ChecksOut F Γ N) :
    (Expression.ifElse m condition first second).ChecksOut F Γ N := by
  refine .conclude (hcondition.bind fun of => (establishes_require .bool of _).bind fun _ =>
    hfirst.bind fun τ => hsecond.bind fun σ =>
    establishes_test_bind (τ.equivalent σ) (k := fun _ => typed m.id τ)
      (establishes_typed m.id τ)) ?_
  rintro hΓ _ A ⟨of, h₁, _, heq, τ, h₂, σ, h₃, heq', rfl, htype⟩
  obtain rfl := (h₁.1.proper hΓ).eq_of_equivalent (t := .bool) trivial heq
  obtain rfl := (h₂.1.proper hΓ).eq_of_equivalent (h₃.1.proper hΓ) heq'
  exact ⟨⟨htype, h₁.1, h₂.1, h₃.1⟩, .ifElse h₁.2 h₂.2 h₃.2⟩

end

mutual

theorem Command.check_typed (hF : F.Lenient) {Γ : Context} {N : Names} :
    (c : Command) → c.Complete →
    Establishes Context.Proper Γ N c.ids c.check fun _ A => c.Typed A Γ ∧ c.WellTyped F N
  | .assign m target value, ⟨htarget, hvalue⟩ => by
    refine .conclude ((target.check_typed hF htarget).bind fun found =>
      (establishes_requireVariable found.1 found.2 _ _).bind fun _ =>
      (value.check_typed hF hvalue).bind fun of =>
      establishes_require found.1 of _) ?_
    rintro hΓ _ A ⟨⟨τ, assignable⟩, ht, _, hvariable, σ, hv, heq⟩
    -- proper types are equivalent only if they are equal, so nothing is lost by the test
    have hτ := ht.1.proper hΓ
    obtain rfl := (hv.1.proper hΓ).eq_of_equivalent hτ heq
    obtain rfl : assignable = true := by simpa [hτ.isError] using hvariable
    exact ⟨⟨σ, ht.1, hv.1⟩, .assign ht.2 hv.2⟩
  | .doubleAssign m first second firstValue secondValue,
      ⟨hfirst, hsecond, hfirstValue, hsecondValue⟩ => by
    refine .conclude ((first.check_typed hF hfirst).bind fun found =>
      (establishes_requireVariable found.1 found.2 _ _).bind fun _ =>
      (firstValue.check_typed hF hfirstValue).bind fun of =>
      (establishes_require found.1 of _).bind fun _ =>
      (second.check_typed hF hsecond).bind fun found' =>
      (establishes_requireVariable found'.1 found'.2 _ _).bind fun _ =>
      (secondValue.check_typed hF hsecondValue).bind fun of' =>
      establishes_require found'.1 of' _) ?_
    rintro hΓ _ A ⟨⟨τ, assignable⟩, h₁, _, hvariable, τ', h₂, _, heq, ⟨σ, assignable'⟩, h₃, _,
      hvariable', σ', h₄, heq'⟩
    have hτ := h₁.1.proper hΓ
    have hσ := h₃.1.proper hΓ
    obtain rfl := (h₂.1.proper hΓ).eq_of_equivalent hτ heq
    obtain rfl := (h₄.1.proper hΓ).eq_of_equivalent hσ heq'
    obtain rfl : assignable = true := by simpa [hτ.isError] using hvariable
    obtain rfl : assignable' = true := by simpa [hσ.isError] using hvariable'
    exact ⟨⟨τ', σ', h₁.1, h₂.1, h₃.1, h₄.1⟩, .doubleAssign h₁.2 h₂.2 h₃.2 h₄.2⟩
  | .call m name arguments, hcomplete => by
    refine .conclude (establishes_procedure_bind name (.pure _) fun formals =>
      arguments.check_typed hF hcomplete formals) ?_
    rintro hΓ _ A ⟨formals, hmeans, hname, h⟩
    obtain ⟨h, h'⟩ := h (by simpa [Meaning.Proper] using hmeans.proper hΓ)
    exact ⟨⟨formals, hmeans, h⟩, .call hname h'⟩
  | .empty m, _ => (Establishes.pure ()).conclude fun _ _ _ _ => ⟨trivial, .empty⟩
  | .ifElse m condition first second, ⟨hcondition, hfirst, hsecond⟩ => by
    refine .conclude ((condition.check_typed hF hcondition).bind fun of =>
      (establishes_require .bool of _).bind fun _ =>
      (first.check_typed hF hfirst).bind fun _ =>
      second.check_typed hF hsecond) ?_
    rintro hΓ _ A ⟨τ, h₁, _, heq, _, h₂, h₃⟩
    obtain rfl := (h₁.1.proper hΓ).eq_of_equivalent (t := .bool) trivial heq
    exact ⟨⟨h₁.1, h₂.1, h₃.1⟩, .ifElse h₁.2 h₂.2 h₃.2⟩
  | .letIn m declaration body, ⟨hdeclaration, hbody⟩ => by
    refine .conclude ((declaration.check_typed hF hdeclaration).block
      (fun _ _ _ hΓ h => h.1.proper hΓ) (fun _ _ => body.check_typed hF hbody)
      fun _ => Establishes.pure ()) ?_
    rintro - _ A ⟨_, Δ, M, h₁, h₂, -⟩
    exact ⟨⟨Δ, h₁.1, h₂.1⟩, .letIn h₁.2 h₂.2⟩
  | .sequential m first second, ⟨hfirst, hsecond⟩ => by
    refine .conclude ((first.check_typed hF hfirst).bind fun _ =>
      second.check_typed hF hsecond) ?_
    rintro - _ A ⟨_, h₁, h₂⟩
    exact ⟨⟨h₁.1, h₂.1⟩, .sequential h₁.2 h₂.2⟩
  | .whileDo m condition body, ⟨hcondition, hbody⟩ => by
    refine .conclude ((condition.check_typed hF hcondition).bind fun of =>
      (establishes_require .bool of _).bind fun _ =>
      body.check_typed hF hbody) ?_
    rintro hΓ _ A ⟨τ, h₁, _, heq, h₂⟩
    obtain rfl := (h₁.1.proper hΓ).eq_of_equivalent (t := .bool) trivial heq
    exact ⟨⟨h₁.1, h₂.1⟩, .whileDo h₁.2 h₂.2⟩
  | .loopWhile m prelude condition body, ⟨hprelude, hcondition, hbody⟩ => by
    refine .conclude ((prelude.check_typed hF hprelude).bind fun _ =>
      (condition.check_typed hF hcondition).bind fun of =>
      (establishes_require .bool of _).bind fun _ =>
      body.check_typed hF hbody) ?_
    rintro hΓ _ A ⟨_, h₁, τ, h₂, _, heq, h₃⟩
    obtain rfl := (h₂.1.proper hΓ).eq_of_equivalent (t := .bool) trivial heq
    exact ⟨⟨h₁.1, h₂.1, h₃.1⟩, .loopWhile h₁.2 h₂.2 h₃.2⟩

theorem Expression.check_typed (hF : F.Lenient) {Γ : Context} {N : Names} :
    (e : Expression) → e.Complete → e.ChecksOut F Γ N
  | .array m elements, hcomplete => by
    refine .conclude ((elements.check_typed hF hcomplete).bind fun found =>
      establishes_typed m.id (.array found.2 found.1)) ?_
    rintro - _ A ⟨⟨σ, length⟩, h, rfl, htype⟩
    exact ⟨⟨htype, σ, length, h.1, rfl⟩, .array h.2⟩
  | .binary _ left _ right, ⟨hleft, hright⟩ =>
    Expression.checksOut_binary (left.check_typed hF hleft) (right.check_typed hF hright)
  | .call m name arguments, hcomplete => by
    refine .conclude (establishes_function_bind name (passing_typed _ _) fun formals τ =>
      (arguments.check_typed hF hcomplete formals).bind fun _ =>
      establishes_typed m.id τ) ?_
    rintro hΓ τ A ⟨formals, _, hmeans, hname, _, h, rfl, htype⟩
    have hproper : (Meaning.func formals τ).Proper := by simpa using hmeans.proper hΓ
    exact ⟨⟨htype, formals, hmeans, (h hproper.1).1⟩, .call hname (h hproper.1).2⟩
  | .character m _, _ | .integer m _, _ => by
    refine .conclude (establishes_typed m.id _) ?_
    rintro - _ A ⟨rfl, htype⟩
    exact ⟨⟨htype, rfl⟩, by constructor⟩
  | .ifElse _ condition first second, ⟨hcondition, hfirst, hsecond⟩ =>
    Expression.checksOut_ifElse (condition.check_typed hF hcondition)
      (first.check_typed hF hfirst) (second.check_typed hF hsecond)
  | .letIn m declaration body, ⟨hdeclaration, hbody⟩ => by
    refine .conclude ((declaration.check_typed hF hdeclaration).block
      (fun _ _ _ hΓ h => h.1.proper hΓ) (fun _ _ => body.check_typed hF hbody)
      fun τ => establishes_typed m.id τ) ?_
    rintro - _ A ⟨τ, Δ, M, h₁, h₂, rfl, htype⟩
    exact ⟨⟨htype, Δ, h₁.1, h₂.1⟩, .letIn h₁.2 h₂.2⟩
  | .record m fields, hcomplete => by
    refine .conclude ((fields.check_typed hF hcomplete).bind fun fs =>
      establishes_typed m.id (.record fs)) ?_
    rintro - _ A ⟨fs, h, rfl, htype⟩
    exact ⟨⟨htype, fs, h.1, rfl⟩, .record h.2⟩
  | .unary _ _ operand, hcomplete =>
    Expression.checksOut_unary (operand.check_typed hF hcomplete)
  | .vname m vname, hcomplete => by
    refine .conclude ((vname.check_typed hF hcomplete).bind fun found =>
      establishes_typed m.id found.1) ?_
    rintro - _ A ⟨⟨τ, assignable⟩, h, rfl, htype⟩
    exact ⟨⟨htype, assignable, h.1⟩, .vname h.2⟩

theorem Declaration.check_typed (hF : F.Lenient) {Γ : Context} {N : Names} : (d : Declaration) →
    d.Complete → Introduces Context.Proper Γ N d.ids d.check fun _ Δ M A =>
      d.Typed A Γ Δ ∧ d.Introduces F N M
  | .const m name value, hcomplete => by
    refine .conclude ((value.check_typed hF hcomplete).introduces fun τ => Binds.typed
      (binds_declare name m.id (.const τ))) ?_
    rintro - _ _ _ A ⟨τ, hτ, h, hfresh, rfl, hname, rfl⟩
    exact ⟨⟨τ, hτ.1, h, hfresh, rfl⟩, .const hτ.2 hname⟩
  | .func m name parameters result body, ⟨hparameters, hresult, hbody⟩ => by
    refine .conclude ((result.check_denotes hresult).introduces fun τ => Binds.typed
      (binds_routine name m.id parameters (.func · τ) hparameters fun Θ L =>
      (body.check_typed hF hbody).bind fun of =>
      establishes_require τ of _)) ?_
    rintro hΓ _ _ _ A ⟨τ, hτ, htype, formals, Θ, scope, hfresh, rfl, hname, rfl, htyped, hintroduce,
      h⟩
    have hτ' := hτ.1.proper hΓ.types
    have hformals := htyped.signature (hΓ.types.bind fun _ => Meaning.noConfusion)
    have hΔ : (Γ.bind m.id (.func formals τ)).Proper := hΓ.bind ⟨hformals, hτ'⟩
    have hΘ := htyped.proper hΔ
    obtain ⟨σ, h, heq⟩ := h hΘ
    obtain rfl := (h.1.proper hΘ).eq_of_equivalent hτ' heq
    exact ⟨⟨_, formals, Θ, hτ.1, htype, hfresh, rfl, htyped, h.1⟩, .func hτ.2 hintroduce hname h.2⟩
  | .proc m name parameters body, ⟨hparameters, hbody⟩ => by
    refine (binds_routine name m.id parameters .proc hparameters fun Θ L =>
      body.check_typed hF hbody).introduces.conclude ?_
    rintro hΓ _ _ _ A ⟨formals, Θ, scope, hfresh, rfl, hname, rfl, htyped, hintroduce, h⟩
    have hformals := htyped.signature (hΓ.types.bind fun _ => Meaning.noConfusion)
    have hΔ : (Γ.bind m.id (.proc formals)).Proper := hΓ.bind hformals
    obtain ⟨h, h'⟩ := h (htyped.proper hΔ)
    exact ⟨⟨formals, Θ, hfresh, rfl, htyped, h⟩, .proc hintroduce hname h'⟩
  | .sequential m first second, ⟨hfirst, hsecond⟩ => by
    refine .conclude ((first.check_typed hF hfirst).bind
      (fun _ _ _ _ hΓ h => h.1.proper hΓ) fun _ _ _ =>
      second.check_typed hF hsecond) ?_
    rintro - _ _ _ A ⟨_, Θ, L, h, h'⟩
    exact ⟨⟨Θ, h.1, h'.1⟩, .sequential h.2 h'.2⟩
  | .type m name of, hcomplete => by
    refine .conclude ((of.check_denotes hcomplete).introduces fun τ => Binds.typed
      (binds_declare name m.id (.type τ))) ?_
    rintro - _ _ _ A ⟨τ, hτ, h, hfresh, rfl, hname, rfl⟩
    exact ⟨⟨τ, hτ.1, h, hfresh, rfl⟩, .type hτ.2 hname⟩
  | .var m name of, hcomplete => by
    refine .conclude ((of.check_denotes hcomplete).introduces fun τ => Binds.typed
      (binds_declare name m.id (.var τ))) ?_
    rintro - _ _ _ A ⟨τ, hτ, h, hfresh, rfl, hname, rfl⟩
    exact ⟨⟨τ, hτ.1, h, hfresh, rfl⟩, .var hτ.2 hname⟩

theorem Vname.check_typed (hF : F.Lenient) {Γ : Context} {N : Names} : (v : Vname) → v.Complete →
    Establishes Context.Proper Γ N v.ids v.check fun found A =>
      v.Typed A Γ found.1 found.2 ∧ v.HasType F N found.1 found.2
  | .dot m record field, hcomplete => by
    refine .conclude ((record.check_typed hF hcomplete).bind (J := [m.id])
      (V := fun found b A => found.1 = .error ∨ ∃ fs offset of, found.1 = .record fs ∧
        (Ty.record fs).field field.spelling = .ok (some (offset, of)) ∧ b = (of, found.2) ∧
        A.typeOf? m.id = some of) fun found => ?_) ?_
    · obtain ⟨τ, assignable⟩ := found
      cases τ with
      | error =>
        exact (establishes_named m.id _ _).conclude fun _ _ _ _ => .inl rfl
      | record fs =>
        refine .conclude ((establishes_lift ((Ty.record fs).field field.spelling)).bind
          (J := [m.id])
          (V := fun found b A => ∃ offset of, found = some (offset, of) ∧ b = (of, assignable) ∧
            A.typeOf? m.id = some of) fun found => ?_) ?_
        · obtain _ | ⟨offset, of⟩ := found
          · exact establishes_report_bind (passing_named _ _ _)
          · exact (establishes_named m.id of assignable).conclude fun _ _ _ h =>
              ⟨offset, of, rfl, h.1, h.2⟩
        · rintro - _ A ⟨_, hfield, offset, of, rfl, rfl, htype⟩
          exact .inr ⟨fs, offset, of, rfl, hfield, rfl, htype⟩
      | _ => exact establishes_report_bind (passing_named _ _ _)
    -- an erroneous record is not complained about again, but no V-name has such a type
    · rintro hΓ _ A ⟨⟨τ, assignable⟩, h, rfl | ⟨fs, offset, of, rfl, hfield, rfl, htype⟩⟩
      · exact (h.1.proper hΓ).elim
      · exact ⟨⟨htype, fs, offset, h.1, hfield⟩,
          .dot h.2 (Fields.typeOf?_of_find hfield) (hF _ _ ⟨_, hfield⟩)⟩
  | .simple m name, _ => by
    refine .conclude (establishes_resolve_bind (I := [m.id]) (T := fun meaning b A =>
      meaning = (if b.2 then .var b.1 else .const b.1) ∧ A.typeOf? m.id = some b.1) name
      (passing_named _ _ _) fun meaning => ?_) ?_
    · cases meaning with
      | const of | var of =>
        refine .conclude (establishes_named m.id of _) ?_
        rintro - _ A ⟨rfl, htype⟩
        exact ⟨rfl, htype⟩
      | _ => exact establishes_report_bind (passing_named _ _ _)
    · rintro - ⟨τ, assignable⟩ A ⟨_, hmeans, hname, rfl, htype⟩
      refine ⟨⟨htype, hmeans⟩, ?_⟩
      cases assignable with
      | true => exact .var hname
      | false => exact .const hname
  | .subscript m array index, ⟨harray, hindex⟩ => by
    refine .conclude ((array.check_typed hF harray).bind fun found =>
      (index.check_typed hF hindex).bind fun of =>
      (establishes_require .int of _).bind (J := [m.id]) (V := fun _ b A =>
        found.1 = .error ∨ ∃ length element, found.1 = .array length element ∧
          b = (element, found.2) ∧ A.typeOf? m.id = some element) fun _ => ?_)
      ?_
    · obtain ⟨τ, assignable⟩ := found
      cases τ with
      | error =>
        exact (establishes_named m.id _ _).conclude fun _ _ _ _ => .inl rfl
      | array length element =>
        exact (establishes_named m.id element assignable).conclude fun _ _ _ h =>
          .inr ⟨length, element, rfl, h.1, h.2⟩
      | _ => exact establishes_report_bind (passing_named _ _ _)
    · rintro hΓ _ A ⟨⟨τ, assignable⟩, h, of, h', _, heq, rfl | ⟨length, element, rfl, rfl, htype⟩⟩
      · exact (h.1.proper hΓ).elim
      · obtain rfl := (h'.1.proper hΓ).eq_of_equivalent (t := .int) trivial heq
        exact ⟨⟨htype, length, h.1, h'.1⟩, .subscript h.2 h'.2⟩

theorem Argument.check_typed (hF : F.Lenient) {Γ : Context} {N : Names} : (a : Argument) →
    a.Complete → (formal : Formal) →
    Establishes Context.Proper Γ N a.ids (a.check formal) fun _ A =>
      formal.Proper → a.Typed A Γ formal ∧ a.Fits F N formal
  | .const m value, hcomplete, formal => by
    refine .conclude ((value.check_typed hF hcomplete).bind (J := []) (V := fun τ _ _ =>
      ∃ σ, formal = .const σ ∧ τ.equivalent σ = true) fun τ => ?_) ?_
    · cases formal with
      | const σ =>
        exact (establishes_require σ τ _).conclude fun _ _ _ h => ⟨σ, rfl, h⟩
      | _ => exact establishes_report _ _
    · rintro hΓ _ A ⟨τ, h, σ, rfl, heq⟩ hformal
      obtain rfl := (h.1.proper hΓ).eq_of_equivalent hformal heq
      exact ⟨⟨_, h.1, rfl⟩, .const h.2⟩
  | .func m name, _, formal => by
    refine .conclude (establishes_function_bind (I := []) (T := fun formals τ _ _ =>
      (Formal.func formals τ).matches formal = true) name (.pure _) fun formals τ => ?_)
      ?_
    · cases formal with
      | func expected result => exact establishes_test _ _ _
      | _ => exact establishes_report _ _
    · rintro hΓ _ A ⟨formals, τ, hmeans, hname, hmatches⟩ hformal
      have hproper : (Formal.func formals τ).Proper := by
        simpa [Meaning.Proper, Formal.Proper] using hmeans.proper hΓ
      obtain rfl := (Formal.matches_iff hproper.plain hformal.plain).1 hmatches
      exact ⟨⟨formals, τ, hmeans, rfl⟩, .func hname⟩
  | .proc m name, _, formal => by
    refine .conclude (establishes_procedure_bind (I := []) (T := fun formals _ _ =>
      ∃ expected, formal = .proc expected ∧ expected.matches formals = true) name (.pure _)
      fun formals => ?_) ?_
    · cases formal with
      | proc expected =>
        exact (establishes_test _ _ _).conclude fun _ _ _ h => ⟨expected, rfl, h⟩
      | _ => exact establishes_report _ _
    · rintro hΓ _ A ⟨formals, hmeans, hname, expected, rfl, hmatches⟩ hformal
      have hproper : formals.Proper := by simpa [Meaning.Proper] using hmeans.proper hΓ
      obtain rfl := (Formals.matches_iff hformal.plain hproper.plain).1 hmatches
      exact ⟨⟨_, hmeans, rfl⟩, .proc hname⟩
  | .var m vname, hcomplete, formal => by
    refine .conclude ((vname.check_typed hF hcomplete).bind fun found =>
      (establishes_requireVariable found.1 found.2 _ _).bind (J := []) (V := fun _ _ _ =>
        ∃ σ, formal = .var σ ∧ found.1.equivalent σ = true) fun _ => ?_) ?_
    · cases formal with
      | var σ =>
        exact (establishes_require σ found.1 _).conclude fun _ _ _ h => ⟨σ, rfl, h⟩
      | _ => exact establishes_report _ _
    · rintro hΓ _ A ⟨⟨τ, assignable⟩, h, _, hvariable, σ, rfl, heq⟩ hformal
      have hτ := h.1.proper hΓ
      obtain rfl := hτ.eq_of_equivalent hformal heq
      obtain rfl : assignable = true := by simpa [hτ.isError] using hvariable
      exact ⟨⟨_, h.1, rfl⟩, .var h.2⟩

theorem Arguments.check_typed (hF : F.Lenient) {Γ : Context} {N : Names} : (a : Arguments) →
    a.Complete → (formals : Formals) →
    Establishes Context.Proper Γ N a.ids (a.check formals) fun _ A =>
      formals.Proper → a.Typed A Γ formals ∧ a.Fit F N formals
  | .empty m, _, formals => by
    cases formals with
    | nil =>
      exact (Establishes.pure ()).conclude fun _ _ _ _ _ => ⟨rfl, .empty⟩
    | cons formal others => exact establishes_report _ _
  | .single m argument, hcomplete, formals => by
    rcases formals with _ | ⟨formal, _ | ⟨other, others⟩⟩
    · exact establishes_report _ _
    · refine .conclude (argument.check_typed hF hcomplete formal) ?_
      rintro - _ A h hformals
      exact ⟨⟨formal, (h hformals.1).1, rfl⟩, .single (h hformals.1).2⟩
    · refine .conclude ((argument.check_typed hF hcomplete formal).bind (J := [])
        (V := fun _ _ _ => False) fun _ => establishes_report _ _) ?_
      rintro - _ A ⟨_, -, h⟩
      exact h.elim
  | .multiple m first rest, ⟨hfirst, hrest⟩, formals => by
    cases formals with
    | nil => exact establishes_report _ _
    | cons formal others =>
      refine .conclude ((first.check_typed hF hfirst formal).bind fun _ =>
        rest.check_typed hF hrest others) ?_
      rintro - _ A ⟨_, h, h'⟩ hformals
      exact ⟨⟨formal, others, (h hformals.1).1, (h' hformals.2).1, rfl⟩,
        .multiple (h hformals.1).2 (h' hformals.2).2⟩

theorem ArrayAggregate.check_typed (hF : F.Lenient) {Γ : Context} {N : Names} :
    (a : ArrayAggregate) → a.Complete → Establishes Context.Proper Γ N a.ids a.check fun found A =>
      a.Typed A Γ found.1 found.2 ∧ a.HasElements F N found.1 found.2
  | .single m element, hcomplete => by
    refine .conclude ((element.check_typed hF hcomplete).bind fun τ =>
      Establishes.pure (τ, 1)) ?_
    rintro - _ A ⟨τ, h, rfl⟩
    exact ⟨⟨h.1, rfl⟩, .single h.2⟩
  | .multiple m first rest, ⟨hfirst, hrest⟩ => by
    refine .conclude ((first.check_typed hF hfirst).bind fun τ =>
      (rest.check_typed hF hrest).bind fun found =>
      (establishes_require τ found.1 _).bind fun _ =>
      Establishes.pure (τ, found.2 + 1)) ?_
    rintro hΓ _ A ⟨τ, h, ⟨σ, count⟩, h', _, heq, rfl⟩
    obtain rfl := (h'.1.proper hΓ).1.eq_of_equivalent (h.1.proper hΓ) heq
    exact ⟨⟨count, h.1, h'.1, rfl⟩, .multiple h.2 h'.2⟩

theorem RecordAggregate.check_typed (hF : F.Lenient) {Γ : Context} {N : Names} :
    (r : RecordAggregate) → r.Complete → Establishes Context.Proper Γ N r.ids r.check fun fs A =>
      r.Typed A Γ fs ∧ r.HasFields F N fs
  | .single m field value, hcomplete => by
    refine .conclude ((value.check_typed hF hcomplete).bind fun τ =>
      establishes_prependField field τ .nil) ?_
    rintro - _ A ⟨τ, h, -, rfl⟩
    exact ⟨⟨τ, h.1, rfl⟩, .single h.2⟩
  | .multiple m field value rest, ⟨hvalue, hrest⟩ => by
    refine .conclude ((value.check_typed hF hvalue).bind fun τ =>
      (rest.check_typed hF hrest).bind fun others =>
      establishes_prependField field τ others) ?_
    rintro - _ A ⟨τ, h, others, h', hdeclares, rfl⟩
    exact ⟨⟨τ, others, h.1, h'.1, hdeclares, rfl⟩, .multiple h.2 h'.2 hdeclares⟩

end

end

end Triangle
