import CodexRouter.LocalScheduler.System

set_option autoImplicit false

/-! # The local tool scheduler: what the loops of `release_matching` can do

Both loops are sequences of rounds. A cancel round takes one matching waiter out and sends
it `Cancelled`; a grant round takes one waiter out while a slot is free and either starts it
or, its receiver gone, forgets it. Everything the loops preserve is proved of a round;
what they establish on leaving is proved here once (`cancelWaiting_spec`, `grantLoop_spec`).
`StepCase` says in the same way what one step of the whole system can do.
-/

namespace CodexRouter.LocalScheduler

open CodexRouter.Lib Relation

/-! ## Sending -/

/-- What `send` leaves of the admission it addresses. -/
def Admit.receive (ad : Admit) (message : Grant) : Admit :=
  if ad.phase = .awaiting then { ad with grant := .sent message } else ad

/-- `send` changes the addressed admission and no other. -/
theorem getElem?_send (admits : List Admit) (a b : Nat) (message : Grant) :
    (send admits a message).1[b]?
      = (admits[b]?).map fun ad => if a = b then ad.receive message else ad := by
  cases ha : admits[a]? with
  | none =>
    have hb : a = b → admits[b]? = none := fun h => h ▸ ha
    by_cases hab : a = b
    · simp [send, ha, hb hab]
    · simp [send, ha, hab]
  | some ad =>
    by_cases hp : ad.phase = .awaiting
    · by_cases hab : a = b
      · subst hab; simp [send, ha, hp, Admit.receive]
      · simp [send, ha, hp, hab]
    · by_cases hab : a = b
      · subst hab; simp [send, ha, hp, Admit.receive]
      · simp [send, ha, hp, hab]

/-- A message arrives exactly when the addressed admission still awaits it. -/
theorem send_ok_iff (admits : List Admit) (a : Nat) (message : Grant) :
    (send admits a message).2 = true ↔ ∃ ad, admits[a]? = some ad ∧ ad.phase = .awaiting := by
  cases ha : admits[a]? with
  | none => simp [send, ha]
  | some ad => by_cases hp : ad.phase = .awaiting <;> simp [send, ha, hp]

/-! ## The rounds -/

/-- One round of the first loop that takes a waiter out. -/
inductive CancelRound (hit : CallKey → Bool) (s : System) : System → Prop
  | cancel (index : Nat) (waiter : Waiter) (hw : s.state.waiting[index]? = some waiter)
      (hhit : hit waiter.key = true) :
      CancelRound hit s
        ⟨{ s.state with waiting := swapRemove s.state.waiting index },
          (send s.admits waiter.grant .cancelled).1⟩

/-- One round of the grant loop. -/
inductive GrantRound {σ : Type} (sc : Scheduler σ) (s : System) : System → Prop
  | grant (index : Nat) (waiter : Waiter) (hw : s.state.waiting[index]? = some waiter)
      (hslot : s.state.running.size < sc.max_concurrent)
      (hlive : (send s.admits waiter.grant .granted).2 = true) :
      GrantRound sc s
        ⟨State.start { s.state with waiting := swapRemove s.state.waiting index }
          waiter.key waiter.features false, (send s.admits waiter.grant .granted).1⟩
  | skip (index : Nat) (waiter : Waiter) (hw : s.state.waiting[index]? = some waiter)
      (hslot : s.state.running.size < sc.max_concurrent)
      (hgone : (send s.admits waiter.grant .granted).2 = false) :
      GrantRound sc s
        ⟨{ s.state with waiting := swapRemove s.state.waiting index },
          (send s.admits waiter.grant .granted).1⟩

/-- The first loop is made of rounds and leaves no waiter whose key is hit. -/
theorem cancelWaiting_spec (hit : CallKey → Bool) (fuel : Nat) :
    ∀ (index : Nat) (s : System),
      ReflTransGen (CancelRound hit) s (cancelWaiting hit fuel index s) ∧
      (s.state.waiting.length ≤ index + fuel →
        (∀ w ∈ s.state.waiting.take index, hit w.key = false) →
        ∀ w ∈ (cancelWaiting hit fuel index s).state.waiting, hit w.key = false) := by
  induction fuel with
  | zero =>
    refine fun index s => ⟨.refl, fun hlen hpre w hw => ?_⟩
    rw [List.take_of_length_le (by omega)] at hpre
    exact hpre w hw
  | succ fuel ih =>
    intro index s
    rw [cancelWaiting]
    cases hw : s.state.waiting[index]? with
    | none => exact ⟨.refl, by grind [List.take_of_length_le]⟩
    | some waiter =>
      have hindex : index < s.state.waiting.length :=
        (List.getElem?_eq_some_iff.mp hw).1
      by_cases h : hit waiter.key = true
      · simp only [if_pos h]
        have hshort := length_swapRemove s.state.waiting index hindex
        refine ⟨.head (.cancel index waiter hw h) (ih index _).1, fun hlen hpre => ?_⟩
        refine (ih index _).2 (by simp only; omega) ?_
        rw [take_swapRemove _ _ hindex]
        exact hpre
      · simp only [if_neg h]
        refine ⟨(ih (index + 1) s).1, fun hlen hpre => ?_⟩
        refine (ih (index + 1) s).2 (by omega) fun w hm => ?_
        rw [List.take_add_one, hw] at hm
        rcases List.mem_append.mp hm with hm | hm
        · exact hpre w hm
        · grind

variable {σ : Type} (sc : Scheduler σ)

/-- The grant loop is made of rounds. Started with as much fuel as there are waiters it stops
because the slots are full or because nobody waits. -/
theorem grantLoop_spec (fuel : Nat) :
    ∀ (env : σ) (s : System), ReflTransGen (GrantRound sc) s (grantLoop sc fuel env s) ∧
      (s.state.waiting.length ≤ fuel → (grantLoop sc fuel env s).state.waiting ≠ [] →
        sc.max_concurrent ≤ (grantLoop sc fuel env s).state.running.size) := by
  induction fuel with
  | zero =>
    refine fun env s => ⟨.refl, fun hfuel hne => ?_⟩
    exact absurd (List.length_eq_zero_iff.mp (Nat.le_zero.mp hfuel)) hne
  | succ fuel ih =>
    intro env s
    rw [grantLoop]
    by_cases hslot : s.state.running.size < sc.max_concurrent
    · rw [if_pos hslot]
      have hpick := sc.pick_spec env s.state.waiting
      rcases hp : sc.pick env s.state.waiting with ⟨_ | index, env'⟩
      · rw [hp] at hpick
        exact ⟨.refl, fun _ hne => absurd hpick hne⟩
      · rw [hp] at hpick
        have hindex : index < s.state.waiting.length := hpick
        have hw := List.getElem?_eq_getElem hindex
        have hlen := length_swapRemove s.state.waiting index hindex
        simp only [hw]
        rcases hsend : send s.admits (s.state.waiting[index]).grant .granted with ⟨admits, _ | _⟩
        · have hround : GrantRound sc s _ := .skip index _ hw hslot (by rw [hsend])
          rw [hsend] at hround
          exact ⟨.head hround (ih env' _).1, fun _ => (ih env' _).2 (by simp only; omega)⟩
        · have hround : GrantRound sc s _ := .grant index _ hw hslot (by rw [hsend])
          rw [hsend] at hround
          exact ⟨.head hround (ih env' _).1,
            fun _ => (ih env' _).2 (by simp only [State.start]; omega)⟩
    · rw [if_neg hslot]
      exact ⟨.refl, fun _ _ => by omega⟩

/-- The running calls whose key is hit leave. -/
def dropRunning (hit : CallKey → Bool) (s : System) : System :=
  { s with state := { s.state with running := s.state.running.filter fun e => !hit e.1 } }

/-- **What `release_matching` does**: cancel rounds until no waiter is hit, removal of the
running calls that are hit, grant rounds until the slots are full or nobody waits. -/
theorem releaseMatching_spec (hit : CallKey → Bool) (env : σ) (s : System) :
    ∃ c, ReflTransGen (CancelRound hit) s c
      ∧ (∀ w ∈ c.state.waiting, hit w.key = false)
      ∧ ReflTransGen (GrantRound sc) (dropRunning hit c) (releaseMatching sc hit env s)
      ∧ ((releaseMatching sc hit env s).state.waiting ≠ [] →
          sc.max_concurrent ≤ (releaseMatching sc hit env s).state.running.size) := by
  obtain ⟨hrounds, hclean⟩ := cancelWaiting_spec hit s.state.waiting.length 0 s
  obtain ⟨hrounds', hfull⟩ := grantLoop_spec sc _ env
    (dropRunning hit (cancelWaiting hit s.state.waiting.length 0 s))
  exact ⟨_, hrounds, hclean (by omega) (by simp), hrounds', hfull (le_refl _)⟩

/-- What the rounds and the removal keep, `release_matching` keeps. -/
theorem releaseMatching_rule {P : System → Prop} {hit : CallKey → Bool} {s : System} (h : P s)
    (hcancel : ∀ s t, P s → CancelRound hit s t → P t) (hdrop : ∀ s, P s → P (dropRunning hit s))
    (hgrant : ∀ s t, P s → GrantRound sc s t → P t) (env : σ) :
    P (releaseMatching sc hit env s) := by
  obtain ⟨c, hrounds, _, hrounds', _⟩ := releaseMatching_spec sc hit env s
  have hc : P c := reflTransGen_invariant hcancel hrounds h
  exact reflTransGen_invariant hgrant hrounds' (hdrop c hc)

/-! ## What a round does to the state -/

/-- Taking out a waiter that is there. -/
theorem perm_of_getElem? {l : List Waiter} {index : Nat} {waiter : Waiter}
    (hw : l[index]? = some waiter) : (waiter :: swapRemove l index).Perm l := by
  obtain ⟨hindex, rfl⟩ := List.getElem?_eq_some_iff.mp hw
  exact swapRemove_perm l index hindex

theorem mem_of_mem_swapRemove {l : List Waiter} {index : Nat} {waiter w : Waiter}
    (hw : l[index]? = some waiter) (hm : w ∈ swapRemove l index) : w ∈ l :=
  (perm_of_getElem? hw).subset (List.mem_cons_of_mem _ hm)

theorem contains_start {s : State} {key k : CallKey} {features : TaskFeatures} {fail_open : Bool} :
    (s.start key features fail_open).running.contains k = true
      ↔ k = key ∨ s.running.contains k = true := by
  simp [State.start, Table.contains_insert]

/-! ## What a step does -/

/-- The transitions of the system, one constructor for each way through a critical section. -/
inductive StepCase (s : System) : Event σ → System → Prop
  | enter (key : CallKey) (features : TaskFeatures) :
      StepCase s (.enter key features) (admitEnter sc key features s)
  | expire (a : Nat) (ad : Admit) (ha : s.admits[a]? = some ad) (hp : ad.phase = .awaiting)
      (hg : ad.grant = .empty) :
      StepCase s (.expire a) { s with admits := setPhase s.admits a .expired }
  /-- The key is running: the future returns. -/
  | resumeRunning (a now : Nat) (ad : Admit) (ha : s.admits[a]? = some ad) (outcome : Outcome)
      (ho : ad.outcome = some outcome) (hk : s.state.running.contains ad.key = true) :
      StepCase s (.resume a now) { s with admits := setPhase s.admits a .returned }
  /-- Cancelled, or granted and released again: the call will not run. -/
  | resumeParked (a now : Nat) (ad : Admit) (ha : s.admits[a]? = some ad) (message : Grant)
      (ho : ad.outcome = some (.message message))
      (hk : s.state.running.contains ad.key = false) :
      StepCase s (.resume a now) { s with admits := setPhase s.admits a .parked }
  | resumeFailOpen (a now : Nat) (ad : Admit) (ha : s.admits[a]? = some ad)
      (ho : ad.outcome = some .senderLost ∨ ad.outcome = some .elapsed)
      (hk : s.state.running.contains ad.key = false) :
      StepCase s (.resume a now)
        ⟨(failOpen ad.key now s).state, setPhase (failOpen ad.key now s).admits a .returned⟩
  | closeReceiver (a : Nat) (ad : Admit) (ha : s.admits[a]? = some ad)
      (hp : ad.phase = .awaiting) :
      StepCase s (.closeReceiver a) { s with admits := setPhase s.admits a .closing }
  | dropClosing (a : Nat) (env : σ) (ad : Admit) (ha : s.admits[a]? = some ad)
      (hp : ad.phase = .closing) :
      StepCase s (.drop a env)
        ⟨(release sc ad.key env s).state, setPhase (release sc ad.key env s).admits a .dropped⟩
  | dropParked (a : Nat) (env : σ) (ad : Admit) (ha : s.admits[a]? = some ad)
      (hp : ad.phase = .parked) :
      StepCase s (.drop a env) { s with admits := setPhase s.admits a .dropped }
  | release (key : CallKey) (env : σ) : StepCase s (.release key env) (release sc key env s)
  | releaseThread (thread_id : String) (env : σ) :
      StepCase s (.releaseThread thread_id env) (releaseThread sc thread_id env s)

theorem resume_case (s : System) (a now : Nat) (ad : Admit) (ha : s.admits[a]? = some ad)
    (outcome : Outcome) (ho : ad.outcome = some outcome) :
    StepCase sc s (.resume a now) (admitResume a ad.key outcome now s) := by
  unfold admitResume
  cases hk : s.state.running.contains ad.key with
  | true => exact .resumeRunning a now ad ha outcome ho hk
  | false =>
    cases outcome with
    | message grant => cases grant <;> exact .resumeParked a now ad ha _ ho hk
    | senderLost => exact .resumeFailOpen a now ad ha (Or.inl ho) hk
    | elapsed => exact .resumeFailOpen a now ad ha (Or.inr ho) hk

/-- Every step is one of the transitions. -/
theorem step_case {s t : System} {e : Event σ} (hs : step sc s e = some t) :
    StepCase sc s e t := by
  cases e with
  | enter key features => cases hs; exact .enter key features
  | expire a =>
    simp only [step] at hs
    split at hs
    · rename_i ad ha
      split at hs
      · rename_i hp; cases hs; exact .expire a ad ha hp.1 hp.2
      · cases hs
    · cases hs
  | resume a now => grind [Option.map_eq_some_iff, resume_case, step]
  | closeReceiver a =>
    simp only [step] at hs
    split at hs
    · rename_i ad ha
      split at hs
      · rename_i hp; cases hs; exact .closeReceiver a ad ha hp
      · cases hs
    · cases hs
  | drop a env =>
    simp only [step] at hs
    split at hs
    · rename_i ad ha
      split at hs
      · rename_i hp; cases hs; exact .dropClosing a env ad ha hp
      · rename_i hp; cases hs; exact .dropParked a env ad ha hp
      · cases hs
    · cases hs
  | release key env => cases hs; exact .release key env
  | releaseThread thread_id env => cases hs; exact .releaseThread thread_id env

end CodexRouter.LocalScheduler
