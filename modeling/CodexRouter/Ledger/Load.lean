import CodexRouter.Ledger.Steps

set_option autoImplicit false

/-! # The load counter of a worker

Every operation of the ledger keeps the load counter of each worker equal to the number of its
outstanding attempts. The health checker of the worker registry does not: every tenth cycle it
sets the counters to zero without looking at the ledger. A reset is harmless exactly when the
worker has no attempt outstanding.
-/

namespace CodexRouter.Ledger

open CodexRouter.Lib

/-- The attempts that the ledger holds for a worker. -/
def System.outstanding (s : System) (worker : Nat) : Nat :=
  s.attempts.entries.countP fun e => e.2.worker = worker

def Balanced (s : System) : Prop := ∀ worker, s.loads worker = s.outstanding worker

/-- A step that resets a load finds no attempt outstanding for that worker. -/
def resetsIdle (s : System) (e : Event) : Prop :=
  match e, s.resets with
  | .resetLoad, worker :: _ => s.outstanding worker = 0
  | _, _ => True

instance (s : System) (e : Event) : Decidable (resetsIdle s e) := by
  unfold resetsIdle
  split <;> infer_instance

/-! ## One step -/

variable {s t : System} {url : Nat → String}

theorem outstanding_insert_new (hf : Fresh s) (a : Attempt) (worker : Nat) :
    ((s.attempts.insert s.reservations.length a).entries.countP fun e => e.2.worker = worker)
      = s.outstanding worker + if a.worker = worker then 1 else 0 := by
  rw [Table.countP_insert_of_not_contains hf.not_contains]
  simp [System.outstanding]

theorem outstanding_amend {id : Nat} {a b : Attempt} (hget : s.attempts.get? id = some a)
    (hw : b.worker = a.worker) (worker : Nat) :
    ((s.attempts.insert id b).entries.countP fun e => e.2.worker = worker)
      = s.outstanding worker := by
  have hcount := Table.countP_insert_of_get? (v := b) hget fun e => e.2.worker = worker
  simp only [hw] at hcount
  unfold System.outstanding
  omega

theorem outstanding_erase {id : Nat} {a : Attempt} (hget : s.attempts.get? id = some a)
    (worker : Nat) :
    ((s.attempts.erase id).entries.countP fun e => e.2.worker = worker)
      + (if a.worker = worker then 1 else 0) = s.outstanding worker := by
  have hcount := Table.countP_erase_of_get? hget fun e => e.2.worker = worker
  simpa [System.outstanding] using hcount

/-- **The ledger keeps the balance.** Every step but a reset does. -/
theorem Balanced.step {e : Event} (hb : Balanced s) (hf : Fresh s) (he : e ≠ .resetLoad)
    (hstep : step url s e = some t) : Balanced t := by
  intro worker
  have hs := hb worker
  cases (step_case hstep).change with
  | kept hloads hattempts =>
    rw [System.outstanding, hloads, hattempts]
    exact hs
  | reserved a _ hloads hattempts =>
    rw [System.outstanding, hattempts, outstanding_insert_new hf, hloads, setLoad]
    by_cases hw : worker = a.worker
    · subst hw
      simp [hs]
    · simp [hw, Ne.symm hw, hs]
  | amended id a b _ hget hw hloads hattempts =>
    rw [System.outstanding, hattempts, outstanding_amend hget hw, hloads]
    exact hs
  | released id a success _ hget hloads hattempts =>
    rw [System.outstanding, hattempts, hloads, setLoad]
    have hcount := outstanding_erase hget worker
    -- the counter stops at zero, but an attempt that is there has been counted
    by_cases hw : worker = a.worker
    · grind
    · grind
  | reset heq => exact absurd heq he

/-- A reset keeps the balance exactly when the worker has no attempt outstanding. -/
theorem balanced_resetLoad_iff (hb : Balanced s) (hstep : step url s .resetLoad = some t) :
    Balanced t ↔ resetsIdle s .resetLoad := by
  cases hresets : s.resets with
  | nil => simp [step, hresets] at hstep
  | cons reset resets =>
    simp only [step, hresets, Option.some.injEq] at hstep
    subst hstep
    have hidle : resetsIdle s .resetLoad ↔ s.outstanding reset = 0 := by simp [resetsIdle, hresets]
    rw [hidle]
    constructor
    · intro ht
      have := ht reset
      simpa [setLoad, System.outstanding] using this.symm
    · intro hzero worker
      show setLoad s.loads reset 0 worker = s.outstanding worker
      by_cases hw : worker = reset
      · rw [setLoad, if_pos hw, hw, hzero]
      · rw [setLoad, if_neg hw]
        exact hb worker

theorem balanced_step_iff {e : Event} (hf : Fresh s) (hb : Balanced s)
    (hstep : step url s e = some t) : Balanced t ↔ resetsIdle s e := by
  by_cases he : e = .resetLoad
  · subst he
    exact balanced_resetLoad_iff hb hstep
  · have hidle : resetsIdle s e := by
      cases e with
      | resetLoad => exact absurd rfl he
      | _ => trivial
    exact iff_of_true (hb.step hf he hstep) hidle

/-! ## Runs -/

theorem balanced_init : Balanced System.init := fun _ => rfl

/-- **Load and outstanding attempts.** In a run of the ledger and the health checker, in any
interleaving, the load of every worker is the number of its outstanding attempts in every
state reached, exactly when each reset finds no attempt outstanding for its worker. -/
theorem run_load_eq_outstanding (url : Nat → String) (es : List Event) (t : System)
    (hr : run (step url) System.init es = some t) :
    (∀ pre s, pre <+: es → run (step url) System.init pre = some s →
        ∀ worker, s.loads worker = s.outstanding worker)
      ↔ Along (step url) resetsIdle System.init es := by
  have hstep : ∀ s e t, Fresh s ∧ Balanced s → resetsIdle s e → step url s e = some t →
      Fresh t ∧ Balanced t := fun s e t h hidle hs =>
    ⟨h.1.step hs, (balanced_step_iff h.1 h.2 hs).mpr hidle⟩
  constructor
  · intro hall
    have hok : ∀ s e t, Fresh s ∧ Balanced s → Balanced t → step url s e = some t →
        resetsIdle s e := fun s e t h ht hs => (balanced_step_iff h.1 h.2 hs).mp ht
    exact along_of_reached hok hstep es System.init t ⟨fresh_init, balanced_init⟩ hr hall
  · intro hal pre s hpre hs
    exact (run_invariant hstep pre System.init s ⟨fresh_init, balanced_init⟩
      (along_initial_segment hpre hal) hs).2

/-- One attempt is reserved, sent and finished before the tenth cycle of the health checker. -/
def settledBeforeReset : List Event :=
  [.reserve [0] 0 (some 0), .dispatched 0 0, .finish 0 true 5]
    ++ List.replicate 10 (.healthCycle [0]) ++ [.resetLoad]

theorem run_load_eq_outstanding_settledBeforeReset :
    Along (step fun _ => "w") resetsIdle System.init settledBeforeReset
      ∧ ∀ pre s, pre <+: settledBeforeReset →
        run (step fun _ => "w") System.init pre = some s →
        ∀ worker, s.loads worker = s.outstanding worker := by
  have hidle : Along (step fun _ => "w") resetsIdle System.init settledBeforeReset := by
    decide +kernel
  exact ⟨hidle, (run_load_eq_outstanding (fun _ => "w") settledBeforeReset _ rfl).mpr hidle⟩

/-- The health checker resets the load of a worker with an attempt in flight. -/
theorem reset_forgets_attempt :
    (run (step fun _ => "w") System.init
        ([.reserve [0] 0 (some 0), .dispatched 0 0] ++ List.replicate 10 (.healthCycle [0])
          ++ [.resetLoad])).map
      (fun s => (s.loads 0, s.outstanding 0)) = some (0, 1) := by
  decide +kernel

end CodexRouter.Ledger
