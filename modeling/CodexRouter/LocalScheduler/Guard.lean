import CodexRouter.LocalScheduler.Capacity
import CodexRouter.LocalScheduler.Distinct

set_option autoImplicit false

/-! # The local tool scheduler: returning and being dropped

An `admit` future that returns tells its caller to run the tool, so its key has to hold a
place in the running map at that moment. A future that is dropped before returns through its
guard: the guard gives back whatever the key held, and the release it performs hands a freed
slot on. Both are proved of every step of a run with distinct keys.
-/

namespace CodexRouter.LocalScheduler

open CodexRouter.Lib Relation

variable {σ : Type}

/-! ## Returning -/

/-- Admission `a`, with record `ad` afterwards, returns in the step from `s` to `t`. -/
def Returns (s t : System) (a : Nat) (ad : Admit) : Prop :=
  t.admits[a]? = some ad ∧ ad.phase = .returned
    ∧ ∀ ad', s.admits[a]? = some ad' → ad'.phase ≠ .returned

variable {s t : System} {a : Nat} {ad : Admit} {sc : Scheduler σ} {w : Waiter}

theorem not_returns_of_standing (hst : SameStanding s.admits t.admits) (a : Nat) (ad : Admit) :
    ¬ Returns s t a ad := by
  grind [Returns, hst.symm.get?]

/-- If a step moves only admission `c` to another phase, nothing else returns in it. -/
theorem Returns.of_setPhase {state : State} {admits : List Admit} {c : Nat} {phase : Phase}
    (hst : SameStanding s.admits admits) (h : Returns s ⟨state, setPhase admits c phase⟩ a ad) :
    a = c ∧ phase = .returned := by
  obtain ⟨hta, hret, hnot⟩ := h
  have hta' : (setPhase admits c phase)[a]? = some ad := hta
  rw [getElem?_setPhase] at hta'
  obtain ⟨ad', ha', hif⟩ := Option.map_eq_some_iff.mp hta'
  by_cases hca : c = a
  · rw [if_pos hca] at hif
    exact ⟨hca.symm, by rw [← hret, ← hif]⟩
  · rw [if_neg hca] at hif
    subst hif
    exact absurd ⟨ha', hret, hnot⟩
      (not_returns_of_standing (t := ⟨state, admits⟩) hst a ad')

theorem sameStanding_failOpen (key : CallKey) (now : Nat) (s : System) :
    SameStanding s.admits (failOpen key now s).admits := by
  intro b
  rw [failOpen]
  split
  · split
    · rw [getElem?_dropSender, Option.map_map]
      congr 1
      funext ad
      split <;> rfl
    · rfl
  · rfl

theorem failOpen_running (key : CallKey) (now : Nat) (s : System) :
    (failOpen key now s).state.running.contains key = true := by
  rw [failOpen]
  cases hf : s.state.waiting.findIdx? fun waiter => waiter.key = key with
  | none => exact contains_start.mpr (Or.inl rfl)
  | some index =>
    have hindex : index < s.state.waiting.length :=
      (List.findIdx?_eq_some_iff_getElem.mp hf).1
    simp [List.getElem?_eq_getElem hindex, contains_start]

theorem admitEnter_returns {key : CallKey} {features : TaskFeatures}
    (h : Returns s (admitEnter sc key features s) a ad) :
    (admitEnter sc key features s).state.running.contains ad.key = true := by
  obtain ⟨hta, hret, hnot⟩ := h
  -- an admission that was there before has kept its record
  have hnew : ∀ new : Admit, (s.admits ++ [new])[a]? = some ad → ad = new := by grind
  rw [admitEnter] at hta ⊢
  by_cases hslot : s.state.running.size < sc.max_concurrent
  · rw [if_pos hslot] at hta ⊢
    rw [hnew _ hta]
    exact contains_start.mpr (Or.inl rfl)
  · grind

/-- An admission returns only with its key in the running map. -/
theorem step_returns {e : Event σ} (hs : step sc s e = some t) (h : Returns s t a ad) :
    t.state.running.contains ad.key = true := by
  -- the key of the admission that returns is the one its step looked at
  have hkey : ∀ {state : State} {admits : List Admit} {c : Nat} {adc : Admit},
      SameStanding s.admits admits → s.admits[c]? = some adc →
      Returns s ⟨state, setPhase admits c .returned⟩ a ad → ad.key = adc.key := by
    intro state admits c adc hst hc hret
    obtain ⟨rfl, _⟩ := hret.of_setPhase hst
    have hget : (setPhase admits a .returned)[a]? = some ad := hret.1
    obtain ⟨adc', hc', hk, _⟩ := hst.get? hc
    rw [getElem?_setPhase_self hc'] at hget
    rw [← Option.some.inj hget]
    exact hk
  have hrefl : SameStanding s.admits s.admits := fun _ => rfl
  cases step_case sc hs with
  | enter key features => exact admitEnter_returns h
  | resumeRunning c now adc hc outcome ho hk => rw [hkey hrefl hc h]; exact hk
  | resumeFailOpen c now adc hc ho hk =>
    rw [hkey (sameStanding_failOpen adc.key now s) hc h]
    exact failOpen_running adc.key now s
  | dropClosing c env adc hc hp => cases (h.of_setPhase (sameStanding_releaseMatching sc _ env s)).2
  | release key env | releaseThread thread_id env =>
    exact absurd h (not_returns_of_standing (sameStanding_releaseMatching sc _ env s) a ad)
  | _ => cases (h.of_setPhase hrefl).2

/-! ## Being dropped -/

/-- A waiter whose admission still listens. -/
def LiveWaiter (s : System) (w : Waiter) : Prop :=
  w ∈ s.state.waiting ∧ ∃ ad, s.admits[w.grant]? = some ad ∧ ad.phase = .awaiting

/-- A former waiter that was started and told so. -/
def GivenSlot (s : System) (w : Waiter) : Prop :=
  s.state.running.contains w.key = true
    ∧ ∃ ad, s.admits[w.grant]? = some ad ∧ ad.phase = .awaiting ∧ ad.grant = .sent .granted

theorem LiveWaiter.of_standing (h : LiveWaiter s w) (hst : SameStanding s.admits t.admits)
    (hm : w ∈ t.state.waiting) : LiveWaiter t w := by
  grind [LiveWaiter, hst.get?]

/-- A cancel round takes no waiter that is not hit. -/
theorem LiveWaiter.cancelRounds {hit : CallKey → Bool} (h : LiveWaiter s w) (hw : hit w.key = false)
    (hr : ReflTransGen (CancelRound hit) s t) : LiveWaiter t w := by
  refine h.of_standing (sameStanding_cancelRounds hr) ?_
  refine reflTransGen_invariant (P := fun t : System => w ∈ t.state.waiting) ?_ hr h.1
  rintro u v hm ⟨index, waiter, hget, hhit⟩
  rcases List.mem_cons.mp ((perm_of_getElem? hget).mem_iff.mpr hm) with rfl | hm'
  · rw [hhit] at hw; cases hw
  · exact hm'

theorem cancelRounds_running {hit : CallKey → Bool} (hr : ReflTransGen (CancelRound hit) s t) :
    t.state.running = s.state.running :=
  reflTransGen_invariant (P := fun t : System => t.state.running = s.state.running)
    (fun _ _ h hr => by cases hr; exact h) hr rfl

/-- Once a waiter was given a slot, later grant rounds leave it alone. -/
theorem GivenSlot.grantRound (h : GivenSlot s w) (hne : ∀ w' ∈ s.state.waiting, w'.grant ≠ w.grant)
    (hr : GrantRound sc s t) : GivenSlot t w ∧ ∀ w' ∈ t.state.waiting, w'.grant ≠ w.grant := by
  obtain ⟨hrun, ad, had, hp, hg⟩ := h
  have hkeep : ∀ waiter ∈ s.state.waiting,
      (send s.admits waiter.grant .granted).1[w.grant]? = some ad := by grind [getElem?_send]
  cases hr with
  | grant index waiter hw hslot hlive =>
    have hm : waiter ∈ s.state.waiting := List.mem_of_getElem? hw
    refine ⟨⟨?_, ad, hkeep waiter hm, hp, hg⟩, fun w' hm' => hne w' ?_⟩
    · exact contains_start.mpr (Or.inr hrun)
    · exact mem_of_mem_swapRemove hw hm'
  | skip index waiter hw hslot hgone =>
    have hm : waiter ∈ s.state.waiting := List.mem_of_getElem? hw
    exact ⟨⟨hrun, ad, hkeep waiter hm, hp, hg⟩,
      fun w' hm' => hne w' (mem_of_mem_swapRemove hw hm')⟩

/-- What grant rounds from `d` have done by the time they reach `t`: nothing but forget
waiters that no longer listen, or give a slot to a live one. -/
structure GrantProgress (d t : System) : Prop where
  distinct : DistinctInv t
  live : ∀ w, LiveWaiter t w → LiveWaiter d w
  progress : (t.state.running = d.state.running ∧ ∀ w, LiveWaiter d w → LiveWaiter t w)
    ∨ ∃ w, LiveWaiter d w ∧ GivenSlot t w ∧ ∀ w' ∈ t.state.waiting, w'.grant ≠ w.grant

theorem GrantProgress.step {d u : System} (h : GrantProgress d t) (hr : GrantRound sc t u) :
    GrantProgress d u := by
  have hst : SameStanding t.admits u.admits := sameStanding_grantRounds (.single hr)
  have hsub : ∀ w ∈ u.state.waiting, w ∈ t.state.waiting := by
    intro w hm
    cases hr with
    | grant index waiter hw | skip index waiter hw => exact mem_of_mem_swapRemove hw hm
  refine ⟨h.distinct.grantRound hr,
    fun w hw => h.live w (hw.of_standing hst.symm (hsub w hw.1)), ?_⟩
  rcases h.progress with ⟨hrun, hkeep⟩ | ⟨w, hd, hgiven, hne⟩
  · cases hr with
    | grant index waiter hw hslot hlive =>
      -- the round starts a live waiter
      obtain ⟨ad, had, hp⟩ := (send_ok_iff _ _ _).mp hlive
      refine Or.inr ⟨waiter, h.live waiter ⟨List.mem_of_getElem? hw, ad, had, hp⟩, ⟨?_, ?_⟩,
        (h.distinct.takeOut_send hw .granted).2⟩
      · exact contains_start.mpr (Or.inl rfl)
      · refine ⟨ad.receive .granted, ?_, by rw [Admit.receive_phase, hp], by
          simp [Admit.receive, hp]⟩
        rw [getElem?_send, had, Option.map_some, if_pos rfl]
    | skip index waiter hw hslot hgone =>
      refine Or.inl ⟨hrun, fun w hd => (hkeep w hd).of_standing hst ?_⟩
      -- the waiter taken out was not live
      rcases List.mem_cons.mp ((perm_of_getElem? hw).mem_iff.mpr (hkeep w hd).1) with rfl | hm
      · rw [(send_ok_iff _ _ _).mpr (hkeep w hd).2] at hgone
        cases hgone
      · exact hm
  · obtain ⟨hgiven', hne'⟩ := hgiven.grantRound hne hr
    exact Or.inr ⟨w, hd, hgiven', hne'⟩

/-- A slot that `release_matching` frees goes to a live waiter, if there is one it does not
cancel. -/
theorem releaseMatching_gives (h : DistinctInv s) (hit : CallKey → Bool) (env : σ)
    (hfree : (s.state.running.filter fun e => !hit e.1).size < sc.max_concurrent)
    (hw : LiveWaiter s w) (hmiss : hit w.key = false) :
    ∃ w', LiveWaiter s w' ∧ hit w'.key = false ∧ GivenSlot (releaseMatching sc hit env s) w' := by
  obtain ⟨c, hcancel, hclean, hgrant, hfull⟩ := releaseMatching_spec sc hit env s
  have hc : DistinctInv c :=
    reflTransGen_invariant (fun _ _ hi hr => hi.cancelRound hr) hcancel h
  have hrun : (dropRunning hit c).state.running = s.state.running.filter fun e => !hit e.1 := by
    rw [← cancelRounds_running hcancel]; rfl
  have hback : ∀ v, LiveWaiter (dropRunning hit c) v → LiveWaiter s v ∧ hit v.key = false := by
    intro v hv
    have hsub : ∀ x ∈ c.state.waiting, x ∈ s.state.waiting :=
      reflTransGen_invariant (P := fun t : System => ∀ x ∈ t.state.waiting, x ∈ s.state.waiting)
        (fun t u hi hr x hx => by
          cases hr with
          | cancel index waiter hget hhit => exact hi x (mem_of_mem_swapRemove hget hx))
        hcancel (fun _ hx => hx)
    exact ⟨LiveWaiter.of_standing (s := c) hv (sameStanding_cancelRounds hcancel).symm
      (hsub v hv.1), hclean v hv.1⟩
  have hprog : GrantProgress (dropRunning hit c) (releaseMatching sc hit env s) :=
    reflTransGen_invariant (fun _ _ hi hr => hi.step hr) hgrant
      ⟨hc.dropRunning hit, fun _ hv => hv, Or.inl ⟨rfl, fun _ hv => hv⟩⟩
  rcases hprog.progress with ⟨hsame, hkeep⟩ | ⟨w', hd, hgiven, _⟩
  · -- nobody was started, so the loop left a slot free with a live waiter in the list
    have hlive : LiveWaiter c w := hw.cancelRounds hmiss hcancel
    have hlive : LiveWaiter (releaseMatching sc hit env s) w := hkeep w hlive
    have := hfull (List.ne_nil_of_mem hlive.1)
    rw [hsame, hrun] at this
    omega
  · exact ⟨w', (hback w' hd).1, (hback w' hd).2, hgiven⟩

/-- What dropping the admission with key `key` has to achieve, from `s` to `t`: the key is
gone, no slot is left idle, and a slot that the key held goes to a live waiter. -/
structure GivenBack (max_concurrent : Nat) (key : CallKey) (s t : System) : Prop where
  waiting : ∀ w ∈ t.state.waiting, w.key ≠ key
  running : t.state.running.contains key = false
  full : t.state.waiting ≠ [] → max_concurrent ≤ t.state.running.size
  handed_on : s.state.running.contains key = true → s.state.running.size ≤ max_concurrent →
    (∃ w, LiveWaiter s w) → ∃ w, LiveWaiter s w ∧ w.key ≠ key ∧ GivenSlot t w

theorem size_filter_lt {K V : Type} [DecidableEq K] {t : Table K V} {k : K}
    (h : t.contains k = true) (p : K × V → Bool) (hp : ∀ v, p (k, v) = false) :
    (t.filter p).size < t.size := by
  obtain ⟨v, hv⟩ := Table.contains_iff.mp h
  exact List.length_filter_lt_length_iff_exists.mpr ⟨(k, v), hv, by simp [hp v]⟩

theorem release_givenBack (h : DistinctInv s) (ha : s.admits[a]? = some ad) (env : σ) :
    GivenBack sc.max_concurrent ad.key s
      ⟨(release sc ad.key env s).state, setPhase (release sc ad.key env s).admits a .dropped⟩ := by
  obtain ⟨hwait, hrun⟩ := releaseMatching_clean sc (fun candidate => candidate = ad.key) env s
  obtain ⟨c, _, _, _, hfull⟩ := releaseMatching_spec sc (fun candidate => candidate = ad.key) env s
  refine ⟨fun w hm => by simpa using hwait w hm, ?_, hfull, ?_⟩
  · cases hk : (release sc ad.key env s).state.running.contains ad.key with
    | false => rfl
    | true => exact absurd (hrun ad.key hk) (by simp)
  · rintro hk hsize ⟨w, hw⟩
    -- a running key has no waiter, so the release cancels none of the live ones
    have hne : ∀ v, LiveWaiter s v → v.key ≠ ad.key := fun v hv hvk =>
      (h.no_waiter_of_running ha hk).2 v hv.1 ((h.waiting_of_grant ha hv.1).mpr hvk)
    have hfree := size_filter_lt hk
      (fun e => !decide (e.1 = ad.key)) (fun v => by simp)
    obtain ⟨w', hlive, hmiss, hkrun, ad', had', hp, hg⟩ :=
      releaseMatching_gives h (fun candidate => candidate = ad.key) env
        (lt_of_lt_of_le hfree hsize) hw (by simpa using hne w hw)
    have hga : a ≠ w'.grant := fun hga =>
      hne w' hlive ((h.waiting_of_grant ha hlive.1).mp hga.symm)
    refine ⟨w', hlive, hne w' hlive, hkrun, ad', ?_, hp, hg⟩
    show (setPhase (release sc ad.key env s).admits a .dropped)[w'.grant]? = some ad'
    rw [getElem?_setPhase]
    have had'' : (release sc ad.key env s).admits[w'.grant]? = some ad' := had'
    rw [had'', Option.map_some, if_neg hga]

/-- A parked admission holds nothing. -/
theorem DistinctInv.parked (h : DistinctInv s) (ha : s.admits[a]? = some ad)
    (hp : ad.phase = .parked) :
    (∀ w ∈ s.state.waiting, w.key ≠ ad.key) ∧ s.state.running.contains ad.key = false := by
  grind [Admit.Holding, DistinctKeys, Admit.Waiting, cases DistinctInv]

theorem drop_givenBack (h : DistinctInv s) (hcap : CapacityInv sc s.state) {env : σ}
    (hs : step sc s (.drop a env) = some t) (ha : s.admits[a]? = some ad) :
    GivenBack sc.max_concurrent ad.key s t := by
  cases step_case sc hs with
  | dropClosing _ _ ad' ha' hp =>
    rw [ha] at ha'
    cases ha'
    exact release_givenBack h ha env
  | dropParked _ _ ad' ha' hp =>
    rw [ha] at ha'
    cases ha'
    obtain ⟨hwait, hrun⟩ := h.parked ha hp
    exact ⟨hwait, hrun, hcap.full, fun hk => by rw [hrun] at hk; cases hk⟩

/-- **Returning and being dropped.** In a run with distinct keys an admission returns only
with its key in the running map, and right after an admission was dropped its key neither
waits nor runs, no slot stands idle while somebody waits, and a slot that it held was given
to a live waiter if there was one. -/
theorem run_admit_guarded (scorer : Scorer σ) (max_concurrent : Nat) (es : List (Event σ))
    (e : Event σ) (s t : System)
    (hf : Along (step (Scheduler.new scorer max_concurrent)) fresh System.init es)
    (hr : run (step (Scheduler.new scorer max_concurrent)) System.init es = some s)
    (hs : step (Scheduler.new scorer max_concurrent) s e = some t) :
    (∀ a ad, Returns s t a ad → t.state.running.contains ad.key = true)
    ∧ ∀ a env ad, e = .drop a env → s.admits[a]? = some ad →
        GivenBack (max max_concurrent 1) ad.key s t := by
  have hdist : DistinctInv s := run_distinct distinctInv_init hf hr
  have hcap : CapacityInv (Scheduler.new scorer max_concurrent) s.state :=
    run_capacityInv hr
  refine ⟨fun a ad hret => step_returns hs hret, ?_⟩
  rintro a env ad rfl ha
  exact drop_givenBack hdist hcap hs ha

/-- With one slot: `b` is granted when `a` is released, and its future is being dropped before
it resumes, while `c` waits. -/
def dropGrantedRun : List (Event Unit) :=
  [.enter ⟨"thread", "turn", "a"⟩ ⟨"/oss", "shell", 0⟩,
    .enter ⟨"thread", "turn", "b"⟩ ⟨"/oss", "shell", 1⟩,
    .enter ⟨"thread", "turn", "c"⟩ ⟨"/oss", "shell", 2⟩,
    .release ⟨"thread", "turn", "a"⟩ (), .closeReceiver 1]

theorem run_admit_guarded_dropGrantedRun :
    ∃ s t, run (step (Scheduler.new Scorer.unknown 1)) System.init dropGrantedRun = some s
      ∧ step (Scheduler.new Scorer.unknown 1) s (.drop 1 ()) = some t
      ∧ s.state.running.contains ⟨"thread", "turn", "b"⟩ = true
      ∧ GivenBack (max 1 1) ⟨"thread", "turn", "b"⟩ s t :=
  ⟨_, _, rfl, rfl, rfl,
    (run_admit_guarded Scorer.unknown 1 dropGrantedRun (.drop 1 ()) _ _
      (by decide +kernel) rfl rfl).2
      1 () ⟨⟨"thread", "turn", "b"⟩, .closing, .sent .granted⟩ rfl rfl⟩

end CodexRouter.LocalScheduler
