import Mathlib.Tactic

set_option autoImplicit false

/-! # Outcomes of computations with a state and errors

A computation in `ExceptT ε (StateM σ)` ends, from every state, with a result or an error and
with a state: an error keeps what was done before it. `outcome` is that pair, and the rules
below follow a computation along its steps.
-/

namespace CodexRouter.Lib

variable {ε σ α β : Type}

def outcome (x : ExceptT ε (StateM σ) α) (s : σ) : Except ε α × σ := (x.run.run s).run

@[simp] theorem outcome_modify (f : σ → σ) (s : σ) :
    outcome (modify f : ExceptT ε (StateM σ) PUnit) s = (.ok ⟨⟩, f s) := rfl

@[simp] theorem outcome_get (s : σ) :
    outcome (get : ExceptT ε (StateM σ) σ) s = (.ok s, s) := rfl

variable {s : σ} {a : α} {x : ExceptT ε (StateM σ) α} {f : α → ExceptT ε (StateM σ) β}
  {R : Except ε β → σ → Prop}

/-- A computation that cannot fail. -/
theorem outcome_lift {m : StateM σ α} {s' : σ} (h : m.run s = (a, s')) :
    outcome (liftM m : ExceptT ε (StateM σ) α) s = (.ok a, s') := by
  show ((Except.ok (m.run s).1, (m.run s).2) : Except ε α × σ) = _
  rw [h]

theorem outcome_bind (x : ExceptT ε (StateM σ) α) (f : α → ExceptT ε (StateM σ) β) (s : σ) :
    outcome (x >>= f) s = match outcome x s with
      | (.ok a, s') => outcome (f a) s'
      | (.error e, s') => (.error e, s') := by
  simp only [outcome, ExceptT.run_bind, StateT.run_bind]
  show Id.run (_ >>= _) = _
  generalize x.run.run s = r
  obtain ⟨_ | a, s'⟩ := r <;> rfl

/-- A first part that ends with a result goes on from where it ended. -/
theorem outcome_bind_of_ok {s' : σ} (h : outcome x s = (.ok a, s')) :
    outcome (x >>= f) s = outcome (f a) s' := by
  rw [outcome_bind, h]

theorem outcome_tryCatch (x : ExceptT ε (StateM σ) α) (handle : ε → ExceptT ε (StateM σ) α)
    (s : σ) : outcome (tryCatch x handle) s = match outcome x s with
      | (.ok a, s') => (.ok a, s')
      | (.error e, s') => outcome (handle e) s' := by
  cases hx : outcome x s with
  | mk r s' =>
    have hrun : StateT.run (m := Id) x s = (r, s') := hx
    simp only [outcome, tryCatch, tryCatchThe, MonadExceptOf.tryCatch, ExceptT.tryCatch,
      ExceptT.run_mk, StateT.run_bind, hrun]
    cases r <;> rfl

/-! ## Conditions on an outcome -/

/-- From `s`, `x` ends with a result, or an error, and a state of which `Q` holds. -/
def Ends (x : ExceptT ε (StateM σ) α) (s : σ) (Q : Except ε α → σ → Prop) : Prop :=
  Q (outcome x s).1 (outcome x s).2

theorem Ends.bind {Q : Except ε α → σ → Prop} (hx : Ends x s Q)
    (hok : ∀ a t, Q (.ok a) t → Ends (f a) t R) (herror : ∀ e t, Q (.error e) t → R (.error e) t) :
    Ends (x >>= f) s R := by
  grind [outcome_bind, Ends]

/-- A first part that is known to end well. -/
theorem Ends.bind_of_ok {t : σ} (hx : outcome x s = (.ok a, t)) (hf : Ends (f a) t R) :
    Ends (x >>= f) s R := by
  unfold Ends
  rw [outcome_bind_of_ok hx]
  exact hf

/-- A first part that cannot fail. -/
theorem Ends.bind_lift {m : StateM σ α} (hf : Ends (f (m.run s).1) (m.run s).2 R) :
    Ends (liftM m >>= f) s R := by
  have hm : outcome (liftM m : ExceptT ε (StateM σ) α) s = (.ok (m.run s).1, (m.run s).2) :=
    outcome_lift rfl
  exact Ends.bind_of_ok hm hf

/-- A first part that only changes the state. -/
theorem Ends.bind_modify {g : σ → σ} {f : PUnit → ExceptT ε (StateM σ) β}
    (hf : Ends (f ⟨⟩) (g s) R) : Ends (modify g >>= f) s R :=
  Ends.bind_of_ok (outcome_modify g s) hf

theorem Ends.bind_get {f : σ → ExceptT ε (StateM σ) β} (hf : Ends (f s) s R) :
    Ends (get >>= f) s R :=
  Ends.bind_of_ok (outcome_get s) hf

theorem Ends.tryCatch {handle : ε → ExceptT ε (StateM σ) α} {Q R : Except ε α → σ → Prop}
    (hx : Ends x s Q) (hok : ∀ a t, Q (.ok a) t → R (.ok a) t)
    (herror : ∀ e t, Q (.error e) t → Ends (handle e) t R) : Ends (tryCatch x handle) s R := by
  grind [outcome_tryCatch, Ends]

/-! ## Relations between the states before and after -/

/-- `x` ends, well or not, in a state that is related to the one it began in. -/
def Keeps (R : σ → σ → Prop) (x : ExceptT ε (StateM σ) α) : Prop := ∀ s, R s (outcome x s).2

section

variable {R : σ → σ → Prop}

theorem keeps_pure (hrefl : ∀ s, R s s) (a : α) :
    Keeps R (pure a : ExceptT ε (StateM σ) α) := hrefl

theorem keeps_throw (hrefl : ∀ s, R s s) (e : ε) :
    Keeps R (throw e : ExceptT ε (StateM σ) α) := hrefl

theorem keeps_bind_get {f : σ → ExceptT ε (StateM σ) β} (hf : ∀ s, R s (outcome (f s) s).2) :
    Keeps R (get >>= f) := by
  intro s
  rw [outcome_bind_of_ok (outcome_get s)]
  exact hf s

theorem Keeps.bind {x : ExceptT ε (StateM σ) α} {f : α → ExceptT ε (StateM σ) β}
    (htrans : ∀ s t u, R s t → R t u → R s u) (hx : Keeps R x) (hf : ∀ a, Keeps R (f a)) :
    Keeps R (x >>= f) := by
  intro s
  have hxs := hx s
  rw [outcome_bind]
  generalize outcome x s = r at hxs
  obtain ⟨e | a, t⟩ := r
  · exact hxs
  · exact htrans s t _ hxs (hf a t)

end

end CodexRouter.Lib
