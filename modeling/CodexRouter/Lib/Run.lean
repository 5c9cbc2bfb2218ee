import Mathlib.Tactic

set_option autoImplicit false

/-! # Runs of a partial step function

A system is given by a step function `step : S → E → Option S`; `none` says that the event
cannot happen in that state. A run is a list of events. Side conditions on a run (distinct
identifiers, a step that is not taken too late) are predicates on the state before a step
and its event; `Along` says that every step of a run meets one.
-/

namespace CodexRouter.Lib

variable {S E : Type} {step : S → E → Option S} {ok : S → E → Prop}

/-- Feed a list of events to the step function, stopping at an event that cannot happen. -/
def run (step : S → E → Option S) : S → List E → Option S
  | s, [] => some s
  | s, e :: es => (step s e).bind fun t => run step t es

/-- Every step of the run from `s` meets `ok` in the state it is taken from. -/
def Along (step : S → E → Option S) (ok : S → E → Prop) : S → List E → Prop
  | _, [] => True
  | s, e :: es => ok s e ∧ ∀ t, step s e = some t → Along step ok t es

instance decidableAlong [∀ s e, Decidable (ok s e)] :
    ∀ (s : S) (es : List E), Decidable (Along step ok s es)
  | _, [] => isTrue trivial
  | s, e :: es =>
    match h : step s e with
    | none => decidable_of_iff (ok s e) (by simp [Along, h])
    | some t =>
      have := decidableAlong t es
      decidable_of_iff (ok s e ∧ Along step ok t es) (by simp [Along, h])

variable {s : S} {es : List E} {P : S → Prop}

theorem run_cons {u : S} {e : E} (h : run step s (e :: es) = some u) :
    ∃ t, step s e = some t ∧ run step t es = some u := by
  simpa [run, Option.bind_eq_some_iff] using h

/-- A step that is always possible gives a run for every list of events. -/
theorem run_total (h : ∀ s e, ∃ t, step s e = some t) (s : S) (es : List E) :
    ∃ t, run step s es = some t := by
  induction es generalizing s with
  | nil => exact ⟨s, rfl⟩
  | cons e es ih =>
    obtain ⟨t, ht⟩ := h s e
    obtain ⟨u, hu⟩ := ih t
    exact ⟨u, by simp [run, ht, hu]⟩

theorem run_append (s : S) (es fs : List E) :
    run step s (es ++ fs) = (run step s es).bind fun t => run step t fs := by
  induction es generalizing s with
  | nil => simp [run]
  | cons e es ih =>
    simp only [List.cons_append, run]
    cases step s e with
    | none => rfl
    | some t => simp [ih t]

theorem run_concat {u : S} {e : E} (h : run step s (es ++ [e]) = some u) :
    ∃ t, run step s es = some t ∧ step t e = some u := by
  rw [run_append, Option.bind_eq_some_iff] at h
  obtain ⟨t, ht, hu⟩ := h
  exact ⟨t, ht, by simpa [run, Option.bind_eq_some_iff] using hu⟩

/-- Induction over a run with the events so far in sight. -/
theorem run_history {P : List E → S → Prop} (hinit : P [] s)
    (hstep : ∀ es t e u, run step s es = some t → P es t → step t e = some u → P (es ++ [e]) u)
    (es : List E) : ∀ t, run step s es = some t → P es t := by
  induction es using List.reverseRecOn with
  | nil =>
    intro t ht
    simp only [run, Option.some.injEq] at ht
    exact ht ▸ hinit
  | append_singleton es e ih =>
    intro u hu
    obtain ⟨t, ht, hs⟩ := run_concat hu
    exact hstep es t e u ht (ih t ht) hs

/-- A side condition along a run, step by step. -/
theorem along_iff :
    Along step ok s es
      ↔ ∀ pre e t, pre ++ [e] <+: es → run step s pre = some t → ok t e := by
  induction es generalizing s with
  | nil =>
    refine iff_of_true trivial fun pre e t hpre => ?_
    exact absurd (List.prefix_nil.mp hpre) (by simp)
  | cons f es ih =>
    constructor
    · rintro ⟨hok, hal⟩ pre e t hpre ht
      cases pre with
      | nil =>
        rw [List.nil_append, List.cons_prefix_cons] at hpre
        cases ht
        exact hpre.1 ▸ hok
      | cons g pre =>
        rw [List.cons_append, List.cons_prefix_cons] at hpre
        obtain ⟨rfl, hpre⟩ := hpre
        obtain ⟨u, hu, ht⟩ := run_cons ht
        exact ih.mp (hal u hu) pre e t hpre ht
    · intro h
      refine ⟨h [] f s (by simp) rfl, fun u hu => ih.mpr fun pre e t hpre ht => ?_⟩
      exact h (f :: pre) e t (by simpa using hpre) (by simp [run, hu, ht])

theorem along_of_forall (h : ∀ s e, ok s e) (es : List E) (s : S) : Along step ok s es :=
  along_iff.mpr fun _ e t _ _ => h t e

theorem along_initial_segment {pre : List E} (hpre : pre <+: es) (hal : Along step ok s es) :
    Along step ok s pre :=
  along_iff.mpr fun before e t hbefore ht => along_iff.mp hal before e t (hbefore.trans hpre) ht

/-- **The invariant rule.** What every step meeting `ok` preserves holds at the end of every
run along `ok`. -/
theorem run_invariant (hstep : ∀ s e t, P s → ok s e → step s e = some t → P t) :
    ∀ (es : List E) (s t : S), P s → Along step ok s es → run step s es = some t → P t := by
  intro es
  induction es with
  | nil =>
    intro s t hs _ hr
    simp only [run, Option.some.injEq] at hr
    exact hr ▸ hs
  | cons e es ih =>
    intro s t hs hal hr
    obtain ⟨u, hu, hr⟩ := run_cons hr
    exact ih u t (hstep s e u hs hal.1 hu) (hal.2 u hu) hr

/-- The invariant rule for steps without a side condition. -/
theorem run_invariant_of_step (hstep : ∀ s e t, P s → step s e = some t → P t) (es : List E)
    (s t : S) (hs : P s) (hr : run step s es = some t) : P t := by
  have hal : Along step (fun _ _ => True) s es := along_of_forall (fun _ _ => trivial) es s
  exact run_invariant (fun s e t hs _ h => hstep s e t hs h) es s t hs hal hr

/-- In a run that goes through, one side condition gives another if it does so in the states
that an invariant allows. -/
theorem along_of_invariant {ok' : S → E → Prop}
    (hstep : ∀ s e t, P s → ok s e → step s e = some t → P t)
    (hok : ∀ s e t, P s → step s e = some t → ok s e → ok' s e) :
    ∀ (es : List E) (s t : S), P s → run step s es = some t → Along step ok s es →
      Along step ok' s es := by
  intro es
  induction es with
  | nil => intro s t _ _ _; trivial
  | cons e es ih =>
    intro s t hs hr hal
    obtain ⟨u, hu, hr⟩ := run_cons hr
    refine ⟨hok s e u hs hu hal.1, fun v hv => ?_⟩
    rw [hu] at hv
    cases hv
    exact ih u t (hstep s e u hs hal.1 hu) hr (hal.2 u hu)

/-- What holds of all states of a run gives a side condition of its steps, if the condition
keeps an invariant from which it follows. -/
theorem along_of_reached {Q : S → Prop} (hok : ∀ s e t, Q s → P t → step s e = some t → ok s e)
    (hstep : ∀ s e t, Q s → ok s e → step s e = some t → Q t) :
    ∀ (es : List E) (s t : S), Q s → run step s es = some t →
      (∀ pre u, pre <+: es → run step s pre = some u → P u) → Along step ok s es := by
  intro es
  induction es with
  | nil => intro s t _ _ _; trivial
  | cons e es ih =>
    intro s t hs hr hP
    obtain ⟨u, hu, hr⟩ := run_cons hr
    have hPu : P u := hP [e] u (by simp) (by simp [run, hu])
    have hoks := hok s e u hs hPu hu
    refine ⟨hoks, fun v hv => ?_⟩
    rw [hu] at hv
    cases hv
    refine ih u t (hstep s e u hs hoks hu) hr fun pre w hpre hw =>
      hP (e :: pre) w (by simpa using hpre) ?_
    simp [run, hu, hw]

/-- A run either meets a side condition throughout and keeps an invariant, or breaks it at some
step and stays broken. -/
theorem run_along_or_broken {Broken : S → Prop}
    (hstep : ∀ s e t, P s → ok s e → step s e = some t → P t)
    (hbreak : ∀ s e t, P s → ¬ ok s e → step s e = some t → Broken t)
    (hbroken : ∀ s e t, Broken s → step s e = some t → Broken t) :
    ∀ (es : List E) (s t : S), P s → run step s es = some t →
      Along step ok s es ∧ P t ∨ ¬ Along step ok s es ∧ Broken t := by
  intro es
  induction es with
  | nil =>
    intro s t hs hr
    simp only [run, Option.some.injEq] at hr
    exact Or.inl ⟨trivial, hr ▸ hs⟩
  | cons e es ih =>
    intro s t hs hr
    obtain ⟨u, hu, hr⟩ := run_cons hr
    by_cases hok : ok s e
    · rcases ih u t (hstep s e u hs hok hu) hr with ⟨hal, ht⟩ | ⟨hal, ht⟩
      · refine Or.inl ⟨⟨hok, fun v hv => ?_⟩, ht⟩
        rw [hu] at hv
        cases hv
        exact hal
      · exact Or.inr ⟨fun h => hal (h.2 u hu), ht⟩
    · refine Or.inr ⟨fun h => hok h.1, ?_⟩
      exact run_invariant_of_step hbroken es u t (hbreak s e u hs hok hu) hr

/-- What a relation preserves, its reflexive and transitive closure preserves. -/
theorem reflTransGen_invariant {r : S → S → Prop} (hstep : ∀ s t, P s → r s t → P t) {t : S}
    (h : Relation.ReflTransGen r s t) (hs : P s) : P t := by
  induction h with
  | refl => exact hs
  | tail _ hr ih => exact hstep _ _ ih hr

end CodexRouter.Lib
