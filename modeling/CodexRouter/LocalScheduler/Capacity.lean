import CodexRouter.LocalScheduler.Rounds

set_option autoImplicit false

/-! # The local tool scheduler never leaves a slot idle and never overfills its slots

`CapacityInv` is the invariant of the locked state: a call waits only while all slots are
taken, and of the running calls only those that failed open are not counted against the
slots. Neither half depends on which waiter the scorer prefers, on who still listens, or on
keys being distinct: `pick` returns an index of the list, every ordinary start happens with
a slot free, and the grant loop ends only when the slots are full or nobody waits.
-/

namespace CodexRouter.LocalScheduler

open CodexRouter.Lib

variable {σ : Type} (sc : Scheduler σ)

/-- The number of running calls that were not started by `fail_open`. -/
def slotHolders (s : State) : Nat := s.running.entries.countP fun e => !e.2.fail_open

structure CapacityInv (s : State) : Prop where
  full : s.waiting ≠ [] → sc.max_concurrent ≤ s.running.size
  slots : slotHolders s ≤ sc.max_concurrent

theorem slotHolders_le_size (s : State) : slotHolders s ≤ s.running.size :=
  List.countP_le_length

/-! ## Starting a call -/

theorem slotHolders_start_le {s : State} {n : Nat} (h : s.running.size < n) (key : CallKey)
    (features : TaskFeatures) (b : Bool) : slotHolders (s.start key features b) ≤ n := by
  have h1 := slotHolders_le_size (s.start key features b)
  have h2 := s.running.size_insert_le key ⟨features, b⟩
  have h3 : (s.start key features b).running.size
      = (s.running.insert key ⟨features, b⟩).size := rfl
  omega

theorem slotHolders_start_failOpen {s : State} {key : CallKey}
    (h : s.running.contains key = false) (features : TaskFeatures) :
    slotHolders (s.start key features true) = slotHolders s := by
  simp [slotHolders, State.start, Table.countP_insert_of_not_contains h]

/-! ## `release_matching` -/

theorem grantRound_slots {s t : System} (h : slotHolders s.state ≤ sc.max_concurrent)
    (hr : GrantRound sc s t) : slotHolders t.state ≤ sc.max_concurrent := by
  cases hr with
  | grant index waiter hw hslot hlive => exact slotHolders_start_le hslot _ _ _
  | skip index waiter hw hslot hgone => exact h

theorem slotHolders_dropRunning_le (hit : CallKey → Bool) (s : System) :
    slotHolders (dropRunning hit s).state ≤ slotHolders s.state :=
  List.filter_sublist.countP_le

/-- Whatever it releases, `release_matching` restores the invariant. -/
theorem releaseMatching_capacity (hit : CallKey → Bool) (env : σ) {s : System}
    (h : slotHolders s.state ≤ sc.max_concurrent) :
    CapacityInv sc (releaseMatching sc hit env s).state := by
  obtain ⟨_, _, _, _, hfull⟩ := releaseMatching_spec sc hit env s
  refine ⟨hfull, releaseMatching_rule sc (P := fun s => slotHolders s.state ≤ sc.max_concurrent) h
    ?_ (fun s h => (slotHolders_dropRunning_le hit s).trans h)
    (fun _ _ h hr => grantRound_slots sc h hr) env⟩
  rintro _ _ h ⟨⟩
  exact h

/-! ## Every step -/

theorem admitEnter_capacity (key : CallKey) (features : TaskFeatures) {s : System}
    (h : CapacityInv sc s.state) : CapacityInv sc (admitEnter sc key features s).state := by
  rw [admitEnter]
  by_cases hslot : s.state.running.size < sc.max_concurrent
  · rw [if_pos hslot]
    refine ⟨fun hw => ?_, slotHolders_start_le hslot key features false⟩
    -- a call that waits would mean that the slots are full
    exact absurd (h.full hw) (by omega)
  · rw [if_neg hslot]
    exact ⟨fun _ => Nat.le_of_not_lt hslot, h.slots⟩

theorem failOpen_capacity {key : CallKey} (now : Nat) {s : System}
    (hkey : s.state.running.contains key = false) (h : CapacityInv sc s.state) :
    CapacityInv sc (failOpen key now s).state := by
  have hsize : ∀ features, s.state.running.size
      ≤ (s.state.running.insert key ⟨features, true⟩).size :=
    fun features => s.state.running.size_le_size_insert _ _
  rw [failOpen]
  cases hf : s.state.waiting.findIdx? fun waiter => waiter.key = key with
  | none =>
    exact ⟨fun hw => le_trans (h.full hw) (hsize _),
      (slotHolders_start_failOpen hkey _).trans_le h.slots⟩
  | some index =>
    have hindex : index < s.state.waiting.length :=
      (List.findIdx?_eq_some_iff_getElem.mp hf).1
    simp only [List.getElem?_eq_getElem hindex]
    refine ⟨fun _ => ?_, ?_⟩
    · have hw : s.state.waiting ≠ [] := List.ne_nil_of_length_pos (by omega)
      exact le_trans (h.full hw) (hsize _)
    · exact (slotHolders_start_failOpen
        (s := { s.state with waiting := swapRemove s.state.waiting index }) hkey _).trans_le
        h.slots

theorem step_capacity {s t : System} {e : Event σ} (h : CapacityInv sc s.state)
    (hs : step sc s e = some t) : CapacityInv sc t.state := by
  cases step_case sc hs with
  | enter key features => exact admitEnter_capacity sc key features h
  | expire => exact h
  | resumeRunning => exact h
  | resumeParked => exact h
  | resumeFailOpen a now ad ha ho hk => exact failOpen_capacity sc now hk h
  | closeReceiver => exact h
  | dropParked => exact h
  | _ => exact releaseMatching_capacity sc _ _ h.slots

theorem run_capacityInv {scorer : Scorer σ} {max_concurrent : Nat} {es : List (Event σ)}
    {s : System} (hr : run (step (Scheduler.new scorer max_concurrent)) System.init es = some s) :
    CapacityInv (Scheduler.new scorer max_concurrent) s.state := by
  have hinit : CapacityInv (Scheduler.new scorer max_concurrent) System.init.state :=
    ⟨fun hw => absurd rfl hw, Nat.zero_le _⟩
  have hstep : ∀ (s : System) (e : Event σ) (t : System),
      CapacityInv (Scheduler.new scorer max_concurrent) s.state →
      step (Scheduler.new scorer max_concurrent) s e = some t →
      CapacityInv (Scheduler.new scorer max_concurrent) t.state :=
    fun _ _ _ hi hs => step_capacity _ hi hs
  exact run_invariant_of_step hstep es System.init s hinit hr

/-- **Capacity.** In every state a run of the scheduler reaches, a call waits only while at
least `max(max_concurrent, 1)` calls run, and at most that many of the running calls were
started otherwise than by failing open. -/
theorem run_capacity (scorer : Scorer σ) (max_concurrent : Nat) (es : List (Event σ))
    (s : System) (hr : run (step (Scheduler.new scorer max_concurrent)) System.init es = some s) :
    (s.state.waiting ≠ [] → max max_concurrent 1 ≤ s.state.running.size)
    ∧ slotHolders s.state ≤ max max_concurrent 1 :=
  ⟨(run_capacityInv hr).full, (run_capacityInv hr).slots⟩

/-- With one slot, `b` fails open beside `a`, and `c` waits. -/
def failOpenRun : List (Event Unit) :=
  [.enter ⟨"thread", "turn", "a"⟩ ⟨"/oss", "shell", 0⟩,
    .enter ⟨"thread", "turn", "b"⟩ ⟨"/oss", "shell", 1⟩, .expire 1, .resume 1 2,
    .enter ⟨"thread", "turn", "c"⟩ ⟨"/oss", "shell", 3⟩]

theorem run_capacity_failOpenRun :
    ∃ s, run (step (Scheduler.new Scorer.unknown 1)) System.init failOpenRun = some s
      ∧ s.state.waiting ≠ [] ∧ s.state.running.size = 2
      ∧ max 1 1 ≤ s.state.running.size ∧ slotHolders s.state ≤ max 1 1 :=
  ⟨_, rfl, List.cons_ne_nil _ _, rfl,
    (run_capacity Scorer.unknown 1 failOpenRun _ rfl).1 (List.cons_ne_nil _ _),
    (run_capacity Scorer.unknown 1 failOpenRun _ rfl).2⟩

end CodexRouter.LocalScheduler
