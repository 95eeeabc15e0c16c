import Triangle.Word

/-!
# Runs of computations that carry a state

Checking and code generation are computations with a state that an overflow can end.  A statement
about such a computation is a statement about its runs: from which state it goes to which, and
with which result.  The computations themselves are written in sequence, and `yields_bind` takes
a run of a sequence apart into the runs of its steps; after that no proof has to look inside the
monad again.

A run that ends well also has to have been well all along the way: what was reported once is
never taken back.  `Along` says that every run of a computation moves the state along a relation,
and `succeeds_bind` uses this to hand the good end of a run back to each of its steps.
-/

namespace Triangle

variable {σ α β : Type}

/-- A sequence of steps has a result where each step has one. -/
theorem bind_eq_ok_iff {x : Checked α} {f : α → Checked β} {b : β} :
    (x >>= f) = .ok b ↔ ∃ a, x = .ok a ∧ f a = .ok b := by
  cases x with
  | error cause => simp [bind, Except.bind]
  | ok a => simp [bind, Except.bind]

/-- A run: from the state `s` the computation goes to `s'` with the result `a`. -/
def Yields (x : StateT σ Checked α) (s : σ) (a : α) (s' : σ) : Prop :=
  x.run s = .ok (a, s')

/-- There is at most one run from a state. -/
theorem Yields.unique {x : StateT σ Checked α} {s s₁ s₂ : σ} {a b : α}
    (h₁ : Yields x s a s₁) (h₂ : Yields x s b s₂) : a = b ∧ s₁ = s₂ := by
  have h := Except.ok.inj (h₁.symm.trans h₂)
  exact ⟨congrArg Prod.fst h, congrArg Prod.snd h⟩

/-- A step that does not fail yields something. -/
theorem exists_yields {x : StateT σ Checked α} {s : σ} (h : (x.run s).isOk = true) :
    ∃ a t, Yields x s a t := by
  cases hrun : x.run s with
  | ok result => exact ⟨_, _, hrun⟩
  | error cause => simp [hrun, Except.isOk, Except.toBool] at h

section

variable {s s' : σ}

@[simp] theorem yields_pure {a b : α} :
    Yields (pure a) s b s' ↔ a = b ∧ s = s' := by
  rw [Yields, StateT.run_pure]
  simp [pure, Except.pure]

@[simp] theorem yields_bind {x : StateT σ Checked α} {f : α → StateT σ Checked β} {b : β} :
    Yields (x >>= f) s b s' ↔ ∃ a t, Yields x s a t ∧ Yields (f a) t b s' := by
  rw [Yields, StateT.run_bind, bind_eq_ok_iff]
  simp [Yields]

@[simp] theorem yields_modify {f : σ → σ} {u : PUnit} :
    Yields (modify f) s u s' ↔ f s = s' := by
  rw [Yields, StateT.run_modify]
  simp [pure, Except.pure]

@[simp] theorem yields_get {t : σ} : Yields get s t s' ↔ s = t ∧ s = s' := by
  rw [Yields, StateT.run_get]
  simp [pure, Except.pure]

@[simp] theorem yields_modifyGet {f : σ → α × σ} {a : α} :
    Yields (modifyGet f) s a s' ↔ (f s).1 = a ∧ (f s).2 = s' := by
  rw [Yields, StateT.run_modifyGet]
  simp [pure, Except.pure, Prod.ext_iff]

/-- A computation without a state leaves the state alone. -/
@[simp] theorem yields_lift {x : Checked α} {a : α} :
    Yields (liftM x : StateT σ Checked α) s a s' ↔ x = .ok a ∧ s = s' := by
  rw [Yields]
  cases x with
  | error cause => simp [liftM, bind, Except.bind]
  | ok b => simp [liftM, bind, Except.bind, pure, Except.pure]

end

/-! ## Relations along which the state moves -/

/-- Every run moves the state along a relation. -/
def Along (R : σ → σ → Prop) (x : StateT σ Checked α) : Prop :=
  ∀ s a s', Yields x s a s' → R s s'

section

variable {R : σ → σ → Prop}

theorem Along.pure (refl : ∀ s, R s s) (a : α) : Along R (pure a : StateT σ Checked α) := by
  intro s b s' h
  obtain ⟨-, rfl⟩ := yields_pure.1 h
  exact refl s

theorem Along.lift (refl : ∀ s, R s s) (x : Checked α) :
    Along R (liftM x : StateT σ Checked α) := by
  intro s b s' h
  obtain ⟨-, rfl⟩ := yields_lift.1 h
  exact refl s

theorem Along.get (refl : ∀ s, R s s) : Along R (get : StateT σ Checked σ) := by
  intro s t s' h
  obtain ⟨-, rfl⟩ := yields_get.1 h
  exact refl s

theorem Along.modify {f : σ → σ} (h : ∀ s, R s (f s)) :
    Along R (modify f : StateT σ Checked PUnit) := by
  intro s u s' hs
  obtain rfl := yields_modify.1 hs
  exact h s

theorem Along.bind (trans : ∀ s t u, R s t → R t u → R s u) {x : StateT σ Checked α}
    {f : α → StateT σ Checked β} (hx : Along R x) (hf : ∀ a, Along R (f a)) :
    Along R (x >>= f) := by
  intro s b s' h
  obtain ⟨a, t, h₁, h₂⟩ := yields_bind.1 h
  exact trans s t s' (hx s a t h₁) (hf a t b s' h₂)

end

end Triangle
