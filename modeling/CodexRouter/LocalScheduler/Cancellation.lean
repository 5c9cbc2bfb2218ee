import CodexRouter.LocalScheduler.Guard

set_option autoImplicit false

/-! # The local tool scheduler: cancelling a call whose admission is pending

A release that hits a key whose admission has not resumed yet is meant to cancel the call.
The message it sends reaches every admission that still listens, and such an admission is
`Dead` from then on: no later step starts its key or lets it return. An admission whose timer
has fired before the release listens no more. It resumes with the outcome of the timer, finds
no waiter of its own, and fails open.
-/

namespace CodexRouter.LocalScheduler

open CodexRouter.Lib Relation

variable {σ : Type}

/-- Admission `a` has not resumed, and its key waits or has been granted a slot. -/
def Pending (s : System) (a : Nat) (ad : Admit) : Prop :=
  s.admits[a]? = some ad ∧ ad.phase ≠ .returned
    ∧ ((∃ w ∈ s.state.waiting, w.key = ad.key) ∨ s.state.running.contains ad.key = true)

/-- The event calls `release` or `release_thread` with an argument that `key` matches. The
guard of a future being dropped calls `release` too. -/
def Releases (s : System) : Event σ → CallKey → Prop
  | .release key' _, key => key = key'
  | .releaseThread thread_id _, key => key.thread_id = thread_id
  | .drop a _, key => ∃ ad, s.admits[a]? = some ad ∧ ad.phase = .closing ∧ ad.key = key
  | _, _ => False

/-- The call of admission `a` is not running and cannot start any more. -/
structure Dead (s : System) (a : Nat) (key : CallKey) : Prop where
  not_running : s.state.running.contains key = false
  no_waiter : ∀ w ∈ s.state.waiting, w.grant ≠ a
  record : ∃ ad, s.admits[a]? = some ad ∧ ad.key = key
    ∧ ((ad.phase = .awaiting ∧ ∃ message, ad.grant = .sent message)
      ∨ ad.phase = .closing ∨ ad.phase = .parked ∨ ad.phase = .dropped)

/-! ## Dead calls stay dead -/

variable {s t : System} {a : Nat} {key : CallKey} {sc : Scheduler σ} {e : Event σ} {ad : Admit}

section

variable (h : Dead s a key)

include h

/-- Moving admission `b` to a phase in which a call can be dead. -/
theorem Dead.setPhase (b : Nat) (phase : Phase)
    (hp : b = a → phase = .closing ∨ phase = .parked ∨ phase = .dropped) :
    Dead { s with admits := setPhase s.admits b phase } a key := by
  obtain ⟨ad, ha, hk, hst⟩ := h.record
  refine ⟨h.not_running, h.no_waiter, ?_⟩
  by_cases hba : b = a
  · refine ⟨{ ad with phase := phase }, ?_, hk, Or.inr (hp hba)⟩
    rw [getElem?_setPhase, ha, Option.map_some, if_pos hba]
  · refine ⟨ad, ?_, hk, hst⟩
    rw [getElem?_setPhase, ha, Option.map_some, if_neg hba]

/-- Taking out a waiter, whatever it is sent, leaves the record of `a` alone. -/
theorem Dead.takeOut {index : Nat} {waiter : Waiter} (hw : s.state.waiting[index]? = some waiter)
    (message : Grant) :
    Dead ⟨{ s.state with waiting := swapRemove s.state.waiting index },
      (send s.admits waiter.grant message).1⟩ a key := by
  obtain ⟨ad, ha, hk, hst⟩ := h.record
  refine ⟨h.not_running, fun w hm => h.no_waiter w (mem_of_mem_swapRemove hw hm), ad, ?_, hk, hst⟩
  rw [getElem?_send, ha, Option.map_some,
    if_neg (h.no_waiter waiter (List.mem_of_getElem? hw))]

theorem Dead.start {key' : CallKey} (hne : key' ≠ key) (features : TaskFeatures) (b : Bool) :
    Dead { s with state := s.state.start key' features b } a key := by
  refine ⟨Bool.eq_false_iff.mpr fun hrun => ?_, h.no_waiter, h.record⟩
  rcases contains_start.mp hrun with hk | hrun
  · exact hne hk.symm
  · exact Bool.eq_false_iff.mp h.not_running hrun

theorem Dead.key_ne (hd : DistinctInv s) {w : Waiter} (hm : w ∈ s.state.waiting) : w.key ≠ key := by
  obtain ⟨ad, ha, hk, _⟩ := h.record
  exact fun hwk => h.no_waiter w hm ((hd.waiting_of_grant ha hm).mpr (hwk.trans hk.symm))

theorem Dead.grantRound (hd : DistinctInv s) (hr : GrantRound sc s t) :
    Dead t a key := by
  cases hr with
  | skip index waiter hw hslot hgone => exact h.takeOut hw .granted
  | grant index waiter hw hslot hlive =>
    exact (h.takeOut hw .granted).start (h.key_ne hd (List.mem_of_getElem? hw)) _ _

theorem Dead.releaseMatching (hd : DistinctInv s) (sc : Scheduler σ) (hit : CallKey → Bool)
    (env : σ) : Dead (releaseMatching sc hit env s) a key := by
  refine (releaseMatching_rule sc (P := fun u => Dead u a key ∧ DistinctInv u) ⟨h, hd⟩
    (fun _ _ hi hr => ⟨?_, hi.2.cancelRound hr⟩) (fun c hi => ⟨?_, hi.2.dropRunning hit⟩)
    (fun _ _ hi hr => ⟨hi.1.grantRound hi.2 hr, hi.2.grantRound hr⟩) env).1
  · cases hr with
    | cancel _ _ hw _ => exact hi.1.takeOut hw .cancelled
  · refine ⟨Bool.eq_false_iff.mpr fun hrun => ?_, hi.1.no_waiter, hi.1.record⟩
    obtain ⟨v, hv⟩ := Table.contains_iff.mp hrun
    exact Bool.eq_false_iff.mp hi.1.not_running
      (Table.contains_iff.mpr ⟨v, (List.mem_filter.mp hv).1⟩)

theorem Dead.admitEnter (sc : Scheduler σ) (key' : CallKey) (features : TaskFeatures)
    (hf : ∀ ad ∈ s.admits, ad.key ≠ key') :
    Dead (admitEnter sc key' features s) a key := by
  obtain ⟨ad, ha, hk, hst⟩ := h.record
  have hlt : a < s.admits.length := (List.getElem?_eq_some_iff.mp ha).1
  have hold : ∀ new : Admit, (s.admits ++ [new])[a]? = some ad := fun new => by
    rw [List.getElem?_append_left hlt, ha]
  have hne : key' ≠ key := fun hkk => hf ad (List.mem_of_getElem? ha) (hk.trans hkk.symm)
  rw [LocalScheduler.admitEnter]
  by_cases hslot : s.state.running.size < sc.max_concurrent
  · rw [if_pos hslot]
    exact ⟨(h.start hne features false).not_running, h.no_waiter, ad, hold _, hk, hst⟩
  · rw [if_neg hslot]
    refine ⟨h.not_running, fun w hm => ?_, ad, hold _, hk, hst⟩
    rcases List.mem_append.mp hm with hm | hm
    · exact h.no_waiter w hm
    · rw [List.mem_singleton.mp hm]
      exact Ne.symm (Nat.ne_of_lt hlt)

/-- Another admission fails open. -/
theorem Dead.failOpen {key' : CallKey} (hne : key' ≠ key) (now : Nat) :
    Dead (failOpen key' now s) a key := by
  rw [LocalScheduler.failOpen]
  cases hf : s.state.waiting.findIdx? fun waiter => waiter.key = key' with
  | none => exact h.start hne _ true
  | some index =>
    have hindex : index < s.state.waiting.length :=
      (List.findIdx?_eq_some_iff_getElem.mp hf).1
    have hw := List.getElem?_eq_getElem hindex
    simp only [hw]
    obtain ⟨ad, ha, hk, hst⟩ := h.record
    have htake := h.takeOut hw .cancelled
    refine ⟨(htake.start hne _ true).not_running, htake.no_waiter, ad, ?_, hk, hst⟩
    rw [getElem?_dropSender, ha, Option.map_some,
      if_neg (h.no_waiter _ (List.mem_of_getElem? hw))]

/-- **A dead call stays dead**, whatever step is taken. -/
theorem Dead.step (hd : DistinctInv s) (hf : fresh s e) (hs : step sc s e = some t) :
    Dead t a key := by
  obtain ⟨ad, ha, hk, hst⟩ := h.record
  -- a step of admission `a` itself finds the record the invariant speaks of
  have hself : ∀ {b : Nat} {adb : Admit}, s.admits[b]? = some adb → b = a → adb = ad := by grind
  cases step_case sc hs with
  | enter key' features => exact h.admitEnter sc key' features hf
  | expire b adb hb hp hg => grind [h.setPhase]
  | resumeRunning b now adb hb outcome ho hrun =>
    refine h.setPhase b .returned fun hba => ?_
    rw [hself hb hba, hk, h.not_running] at hrun
    cases hrun
  | resumeParked b now adb hb message ho hrun =>
    exact h.setPhase b .parked fun _ => Or.inr (Or.inl rfl)
  | resumeFailOpen b now adb hb ho hrun =>
    have hba : b ≠ a := by
      intro hba
      rw [hself hb hba] at ho
      rcases hst with ⟨hp, _, hsent⟩ | hp | hp | hp <;>
        simp [Admit.outcome, hp] at ho
      simp [hsent] at ho
    have hne : adb.key ≠ key := fun hkb => hba (hd.keys b a adb ad hb ha (hkb.trans hk.symm))
    exact (h.failOpen hne now).setPhase b .returned fun hba' => absurd hba' hba
  | closeReceiver b adb hb hp => exact h.setPhase b .closing fun _ => Or.inl rfl
  | dropClosing b env adb hb hp =>
    exact (h.releaseMatching hd sc _ env).setPhase b .dropped fun _ => Or.inr (Or.inr rfl)
  | dropParked b env adb hb hp => exact h.setPhase b .dropped fun _ => Or.inr (Or.inr rfl)
  | release key' env => exact h.releaseMatching hd sc _ env
  | releaseThread thread_id env => exact h.releaseMatching hd sc _ env

theorem Dead.run {es : List (Event σ)} (hd : DistinctInv s)
    (hf : Along (LocalScheduler.step sc) fresh s es)
    (hr : Lib.run (LocalScheduler.step sc) s es = some t) : Dead t a key :=
  (run_invariant (P := fun u => Dead u a key ∧ DistinctInv u)
    (fun _ _ _ hi hf hs => ⟨hi.1.step hi.2 hf hs, hi.2.step hf hs⟩) es s t ⟨h, hd⟩ hf hr).1

end

/-! ## What a release does to a pending admission -/

/-- An admission that listens has been sent a message, or still has a waiter that will be. -/
def Reachable (s : System) (a : Nat) : Prop :=
  ∃ ad, s.admits[a]? = some ad
    ∧ (ad.phase = .awaiting → (∃ w ∈ s.state.waiting, w.grant = a) ∨ ∃ m, ad.grant = .sent m)

theorem Reachable.takeOut (h : Reachable s a) {index : Nat} {waiter : Waiter}
    (hw : s.state.waiting[index]? = some waiter) (message : Grant)
    (running : Table CallKey Running) :
    Reachable ⟨⟨running, swapRemove s.state.waiting index⟩,
      (send s.admits waiter.grant message).1⟩ a := by
  obtain ⟨ad, ha, hor⟩ := h
  by_cases hwa : waiter.grant = a
  · refine ⟨ad.receive message, ?_, fun hp => Or.inr ⟨message, ?_⟩⟩
    · rw [getElem?_send, ha, Option.map_some, if_pos hwa]
    · rw [Admit.receive_phase] at hp
      simp [Admit.receive, hp]
  · refine ⟨ad, ?_, fun hp => ?_⟩
    · rw [getElem?_send, ha, Option.map_some, if_neg hwa]
    · rcases hor hp with ⟨w, hm, hg⟩ | hsent
      · rcases List.mem_cons.mp ((perm_of_getElem? hw).mem_iff.mpr hm) with rfl | hm'
        · exact absurd hg hwa
        · exact Or.inl ⟨w, hm', hg⟩
      · exact Or.inr hsent

theorem Reachable.releaseMatching (h : Reachable s a) (sc : Scheduler σ) (hit : CallKey → Bool)
    (env : σ) : Reachable (releaseMatching sc hit env s) a := by
  refine releaseMatching_rule sc (P := fun u => Reachable u a) h (fun _ _ hi hr => ?_)
    (fun _ hi => hi) (fun _ _ hi hr => ?_) env
  · cases hr with
    | cancel _ _ hw _ => exact hi.takeOut hw .cancelled _
  · cases hr with
    | grant _ _ hw _ _ | skip _ _ hw _ _ => exact hi.takeOut hw .granted _

section

variable (hd : DistinctInv s) (h : Pending s a ad)

include hd h

/-- A pending admission can be reached. -/
theorem Pending.reachable : Reachable s a := by
  obtain ⟨ha, hret, ⟨w, hm, hk⟩ | hrun⟩ := h
  · exact ⟨ad, ha, fun _ => Or.inl ⟨w, hm, (hd.waiting_of_grant ha hm).mpr hk⟩⟩
  · refine ⟨ad, ha, fun _ => Or.inr ⟨.granted, ?_⟩⟩
    rcases (hd.no_waiter_of_running ha hrun).1 with hret' | ⟨_, hsent⟩
    · exact absurd hret' hret
    · exact hsent

theorem Pending.phase :
    ad.phase = .awaiting ∨ ad.phase = .expired ∨ ad.phase = .closing := by
  grind [Pending, Admit.Holding, DistinctKeys, Admit.Waiting, cases DistinctInv]

/-- A release that hits the key of a pending admission leaves it dead if its timer has not
fired. -/
theorem Pending.releaseMatching_dead (hexp : ad.phase ≠ .expired) (sc : Scheduler σ)
    (hit : CallKey → Bool) (env : σ) (hhit : hit ad.key = true) :
    Dead (releaseMatching sc hit env s) a ad.key := by
  obtain ⟨hwait, hrun⟩ := releaseMatching_clean sc hit env s
  have hd' := hd.releaseMatching sc hit env
  obtain ⟨ad', ha', hk, hp⟩ := (sameStanding_releaseMatching sc hit env s).get? h.1
  have hno : ∀ w ∈ (releaseMatching sc hit env s).state.waiting, w.grant ≠ a := by
    grind [cases DistinctInv]
  refine ⟨?_, hno, ad', ha', hk, ?_⟩
  · grind
  · rcases h.phase hd with haw | hex | hcl
    · refine Or.inl ⟨hp.trans haw, ?_⟩
      obtain ⟨ad'', ha'', hor⟩ := (h.reachable hd).releaseMatching sc hit env
      rw [ha'] at ha''
      cases ha''
      rcases hor (hp.trans haw) with ⟨w, hm, hwa⟩ | hsent
      · exact absurd hwa (hno w hm)
      · exact hsent
    · exact absurd hex hexp
    · exact Or.inr (Or.inl (hp.trans hcl))

omit hd h in
/-- A step that releases a key is `release_matching` with a predicate that hits it; when the
guard of admission `b` makes the call, `b` is dropped afterwards. -/
theorem Releases.step (hrel : Releases s e key) (hs : step sc s e = some t) :
    ∃ hit env, hit key = true ∧ (t = releaseMatching sc hit env s
      ∨ ∃ b adb, s.admits[b]? = some adb ∧ adb.phase = .closing ∧ adb.key = key
        ∧ t = { releaseMatching sc hit env s with
          admits := setPhase (releaseMatching sc hit env s).admits b .dropped }) := by
  cases step_case sc hs with
  | dropClosing b env adb hb hp =>
    obtain ⟨adb', hb', _, hk⟩ := hrel
    rw [hb] at hb'
    cases hb'
    exact ⟨_, env, by simp [hk], Or.inr ⟨b, adb, hb, hp, hk, rfl⟩⟩
  | dropParked b env adb hb hp =>
    obtain ⟨adb', hb', hcl, _⟩ := hrel
    rw [hb] at hb'
    cases hb'
    rw [hp] at hcl
    cases hcl
  | release key' env | releaseThread thread_id env =>
    exact ⟨_, env, by simpa [Releases] using hrel, Or.inl rfl⟩
  | _ => cases hrel

theorem Pending.release_dead (hexp : ad.phase ≠ .expired) (hrel : Releases s e ad.key)
    (hs : step sc s e = some t) : Dead t a ad.key := by
  obtain ⟨hit, env, hhit, rfl | ⟨b, _, _, _, _, rfl⟩⟩ := hrel.step hs
  · exact h.releaseMatching_dead hd hexp sc hit env hhit
  · exact (h.releaseMatching_dead hd hexp sc hit env hhit).setPhase b .dropped
      fun _ => Or.inr (Or.inr rfl)

end

/-- After a release that came between the timer and the lock, the admission still resumes, and
starts its call. -/
theorem Pending.expired_resumes (h : Pending s a ad) (hd : DistinctInv s)
    (hexp : ad.phase = .expired) (hrel : Releases s e ad.key) (hs : step sc s e = some t)
    (now : Nat) :
    ∃ u, LocalScheduler.step sc t (.resume a now) = some u
      ∧ u.state.running.contains ad.key = true := by
  obtain ⟨hit, env, hhit, rfl | ⟨b, adb, hb, hcl, hk, _⟩⟩ := hrel.step hs
  · obtain ⟨ad', ha', hk, hp⟩ := (sameStanding_releaseMatching sc hit env s).get? h.1
    have hrun : (releaseMatching sc hit env s).state.running.contains ad.key = false := by
      cases hc : (releaseMatching sc hit env s).state.running.contains ad.key with
      | false => rfl
      | true =>
        have := (releaseMatching_clean sc hit env s).2 _ hc
        rw [hhit] at this
        cases this
    have ho : ad'.outcome = some .elapsed := by simp [Admit.outcome, hp, hexp]
    refine ⟨admitResume a ad.key .elapsed now (releaseMatching sc hit env s), ?_, ?_⟩
    · simp only [LocalScheduler.step, ha', ho, Option.map_some, hk]
    · unfold admitResume
      simp only [hrun, Bool.false_eq_true, if_false]
      exact failOpen_running ad.key now _
  · -- a future being dropped is not one whose timer has fired
    have hba : b = a := hd.keys b a adb ad hb h.1 hk
    rw [hba, h.1] at hb
    cases hb
    rw [hexp] at hcl
    cases hcl

/-- **When a release cancels a pending call.** In a run with distinct keys, a release that
hits the key of a pending admission keeps the call from ever running and its future from
returning exactly when the timer of the admission had not fired before the release. -/
theorem release_cancels_iff (scorer : Scorer σ) (max_concurrent : Nat) (es : List (Event σ))
    (e : Event σ) (s t : System) (a : Nat) (ad : Admit)
    (hf : Along (step (Scheduler.new scorer max_concurrent)) fresh System.init es)
    (hr : run (step (Scheduler.new scorer max_concurrent)) System.init es = some s)
    (hp : Pending s a ad) (hrel : Releases s e ad.key)
    (hs : step (Scheduler.new scorer max_concurrent) s e = some t) :
    (∀ es' u, Along (step (Scheduler.new scorer max_concurrent)) fresh t es' →
        run (step (Scheduler.new scorer max_concurrent)) t es' = some u →
        u.state.running.contains ad.key = false
        ∧ ∀ ad', u.admits[a]? = some ad' → ad'.phase ≠ .returned)
      ↔ ad.phase ≠ .expired := by
  have hd : DistinctInv s := run_distinct distinctInv_init hf hr
  constructor
  · intro hall hexp
    obtain ⟨u, hu, hrun⟩ := hp.expired_resumes hd hexp hrel hs 0
    have hnot := (hall [.resume a 0] u ⟨trivial, fun _ _ => trivial⟩ (by simp [run, hu])).1
    rw [hrun] at hnot
    cases hnot
  · intro hexp es' u hf' hr'
    have hfe : fresh s e := by cases e <;> trivial
    have hd' : DistinctInv t := hd.step hfe hs
    have hdead : Dead u a ad.key := (hp.release_dead hd hexp hrel hs).run hd' hf' hr'
    refine ⟨hdead.not_running, fun ad' ha' hret => ?_⟩
    obtain ⟨ad'', ha'', _, hst⟩ := hdead.record
    rw [ha'] at ha''
    cases ha''
    rw [hret] at hst
    rcases hst with ⟨h, _⟩ | h | h | h <;> cases h

/-- With one slot held by `a`, the call `b` waits. -/
def waitingRun : List (Event Unit) :=
  [.enter ⟨"thread", "turn", "a"⟩ ⟨"/oss", "shell", 0⟩,
    .enter ⟨"thread", "turn", "b"⟩ ⟨"/oss", "shell", 1⟩]

theorem release_cancels_iff_waitingRun :
    ∃ s t, run (step (Scheduler.new Scorer.unknown 1)) System.init waitingRun = some s
      ∧ step (Scheduler.new Scorer.unknown 1) s (.release ⟨"thread", "turn", "b"⟩ ()) = some t
      ∧ ∀ es' u, Along (step (Scheduler.new Scorer.unknown 1)) fresh t es' →
          run (step (Scheduler.new Scorer.unknown 1)) t es' = some u →
          u.state.running.contains ⟨"thread", "turn", "b"⟩ = false
          ∧ ∀ ad', u.admits[1]? = some ad' → ad'.phase ≠ .returned :=
  ⟨_, _, rfl, rfl,
    (release_cancels_iff Scorer.unknown 1 waitingRun (.release ⟨"thread", "turn", "b"⟩ ()) _ _ 1
      ⟨⟨"thread", "turn", "b"⟩, .awaiting, .empty⟩ (by decide +kernel) rfl
      ⟨rfl, by decide, Or.inl ⟨_, List.mem_cons_self, rfl⟩⟩ rfl rfl).mpr (by decide)⟩

/-- A release between the timer of `b` and its lock is lost: `b` waits, its timer fires, `b` is
released, and then it resumes, starts and returns. -/
theorem release_after_timer_lost :
    ∃ s t u, Along (step (Scheduler.new Scorer.unknown 1)) fresh System.init
        (waitingRun ++ [.expire 1])
      ∧ run (step (Scheduler.new Scorer.unknown 1)) System.init (waitingRun ++ [.expire 1]) = some s
      ∧ Pending s 1 ⟨⟨"thread", "turn", "b"⟩, .expired, .empty⟩
      ∧ step (Scheduler.new Scorer.unknown 1) s (.release ⟨"thread", "turn", "b"⟩ ()) = some t
      ∧ step (Scheduler.new Scorer.unknown 1) t (.resume 1 2) = some u
      ∧ u.state.running.contains ⟨"thread", "turn", "b"⟩ = true
      ∧ (u.admits[1]?).map Admit.phase = some .returned :=
  ⟨_, _, _, by decide +kernel, rfl, ⟨rfl, by decide, Or.inl ⟨_, List.mem_cons_self, rfl⟩⟩, rfl,
    rfl, rfl, rfl⟩

end CodexRouter.LocalScheduler
