import CodexRouter.LocalScheduler.Rounds

set_option autoImplicit false

/-! # The local tool scheduler with pairwise distinct call keys

When every admission brings a key of its own (`fresh`), a key determines its admission, and
the locked state says where that admission stands: a waiting key belongs to an admission that
has been sent nothing yet, a running key to one that returned or was granted. `DistinctInv`
is this invariant; it holds in every state such a run reaches (`run_distinct`).
-/

namespace CodexRouter.LocalScheduler

open CodexRouter.Lib Relation

variable {σ : Type}

/-- The key of an entering admission has not been used before. -/
def fresh (s : System) : Event σ → Prop
  | .enter key _ => ∀ ad ∈ s.admits, ad.key ≠ key
  | _ => True

instance (s : System) (e : Event σ) : Decidable (fresh s e) := by
  cases e <;> unfold fresh <;> infer_instance

/-- The admission of a waiter: still awaiting with nothing sent, or its receiver is gone. -/
def Admit.Waiting (ad : Admit) : Prop :=
  ad.phase = .awaiting ∧ ad.grant = .empty ∨ ad.phase = .expired ∨ ad.phase = .closing

/-- The admission of a running call: returned, or granted and not yet resumed. -/
def Admit.Holding (ad : Admit) : Prop :=
  ad.phase = .returned
    ∨ (ad.phase = .awaiting ∨ ad.phase = .closing) ∧ ad.grant = .sent .granted

/-- A key names one admission. -/
def DistinctKeys (admits : List Admit) : Prop :=
  ∀ (a b : Nat) (ada adb : Admit), admits[a]? = some ada → admits[b]? = some adb →
    ada.key = adb.key → a = b

structure DistinctInv (s : System) : Prop where
  keys : DistinctKeys s.admits
  grants : (s.state.waiting.map Waiter.grant).Nodup
  waiter : ∀ w ∈ s.state.waiting,
    ∃ ad, s.admits[w.grant]? = some ad ∧ ad.key = w.key ∧ ad.Waiting
  running : ∀ k, s.state.running.contains k = true →
    ∃ a ad, s.admits[a]? = some ad ∧ ad.key = k ∧ ad.Holding
      ∧ ∀ w ∈ s.state.waiting, w.grant ≠ a

/-! ## Small facts about admissions -/

@[simp] theorem Admit.receive_key (ad : Admit) (message : Grant) :
    (ad.receive message).key = ad.key := by
  unfold Admit.receive; split <;> rfl

@[simp] theorem Admit.receive_phase (ad : Admit) (message : Grant) :
    (ad.receive message).phase = ad.phase := by
  unfold Admit.receive; split <;> rfl

theorem getElem?_setPhase (admits : List Admit) (a b : Nat) (phase : Phase) :
    (setPhase admits a phase)[b]?
      = (admits[b]?).map fun ad => if a = b then { ad with phase := phase } else ad :=
  List.getElem?_modify ..

theorem getElem?_dropSender (admits : List Admit) (a b : Nat) :
    (dropSender admits a)[b]?
      = (admits[b]?).map fun ad => if a = b then { ad with grant := .closed } else ad :=
  List.getElem?_modify ..

/-- An update of the admissions that keeps every key. -/
def SameKeys (admits admits' : List Admit) : Prop :=
  ∀ b : Nat, (admits'[b]?).map Admit.key = (admits[b]?).map Admit.key

theorem sameKeys_send (admits : List Admit) (a : Nat) (message : Grant) :
    SameKeys admits (send admits a message).1 := by
  intro b
  rw [getElem?_send]
  cases admits[b]? with
  | none => rfl
  | some ad => by_cases hab : a = b <;> simp [hab]

theorem sameKeys_setPhase (admits : List Admit) (a : Nat) (phase : Phase) :
    SameKeys admits (setPhase admits a phase) := by
  grind [getElem?_setPhase, SameKeys]

theorem sameKeys_dropSender (admits : List Admit) (a : Nat) :
    SameKeys admits (dropSender admits a) := by
  grind [getElem?_dropSender, SameKeys]

variable {admits admits' : List Admit} {s t : System} {sc : Scheduler σ} {a : Nat} {ad : Admit}

theorem getElem?_setPhase_self (ha : admits[a]? = some ad) (phase : Phase) :
    (setPhase admits a phase)[a]? = some { ad with phase := phase } := by
  rw [getElem?_setPhase, ha, Option.map_some, if_pos rfl]

theorem SameKeys.distinctKeys (h : SameKeys admits admits') (hk : DistinctKeys admits) :
    DistinctKeys admits' := by
  grind [DistinctKeys, SameKeys]

/-! ## Rounds -/

/-- Taking a waiter out, whatever becomes of its own admission. -/
theorem DistinctInv.takeOut (h : DistinctInv s) {index : Nat} {waiter : Waiter}
    (hw : s.state.waiting[index]? = some waiter) (hkeys : SameKeys s.admits admits')
    (hother : ∀ (b : Nat) (ad : Admit), b ≠ waiter.grant → s.admits[b]? = some ad →
      admits'[b]? = some ad) :
    DistinctInv ⟨{ s.state with waiting := swapRemove s.state.waiting index }, admits'⟩
    ∧ ∀ w ∈ swapRemove s.state.waiting index, w.grant ≠ waiter.grant := by
  have hperm := perm_of_getElem? hw
  have hnodup : ((waiter :: swapRemove s.state.waiting index).map Waiter.grant).Nodup :=
    (hperm.map Waiter.grant).nodup_iff.mpr h.grants
  rw [List.map_cons, List.nodup_cons] at hnodup
  have hne : ∀ w ∈ swapRemove s.state.waiting index, w.grant ≠ waiter.grant :=
    fun w hm hg => hnodup.1 (hg ▸ List.mem_map_of_mem hm)
  refine ⟨⟨hkeys.distinctKeys h.keys, hnodup.2, ?_, ?_⟩, hne⟩
  · intro w hm
    obtain ⟨ad, had, hk, hwait⟩ := h.waiter w (mem_of_mem_swapRemove hw hm)
    exact ⟨ad, hother _ ad (hne w hm) had, hk, hwait⟩
  · intro k hk
    obtain ⟨a, ad, had, hka, hhold, hno⟩ := h.running k hk
    have hwa : a ≠ waiter.grant :=
      Ne.symm (hno waiter (List.mem_of_getElem? hw))
    exact ⟨a, ad, hother a ad hwa had, hka, hhold,
      fun w hm => hno w (mem_of_mem_swapRemove hw hm)⟩

theorem DistinctInv.takeOut_send (h : DistinctInv s) {index : Nat} {waiter : Waiter}
    (hw : s.state.waiting[index]? = some waiter) (message : Grant) :
    DistinctInv ⟨{ s.state with waiting := swapRemove s.state.waiting index },
      (send s.admits waiter.grant message).1⟩
    ∧ ∀ w ∈ swapRemove s.state.waiting index, w.grant ≠ waiter.grant :=
  h.takeOut hw (sameKeys_send s.admits waiter.grant message) (by grind [getElem?_send])

theorem DistinctInv.cancelRound {hit : CallKey → Bool} (h : DistinctInv s)
    (hr : CancelRound hit s t) : DistinctInv t := by
  cases hr with
  | cancel index waiter hw hhit => exact (h.takeOut_send hw .cancelled).1

theorem DistinctInv.grantRound (h : DistinctInv s) (hr : GrantRound sc s t) : DistinctInv t := by
  cases hr with
  | skip index waiter hw hslot hgone => exact (h.takeOut_send hw .granted).1
  | grant index waiter hw hslot hlive =>
    obtain ⟨htake, hne⟩ := h.takeOut_send hw .granted
    refine ⟨htake.keys, htake.grants, htake.waiter, ?_⟩
    intro k hk
    rcases contains_start.mp hk with rfl | hk
    · -- the waiter that was just started
      obtain ⟨ad, had, hphase⟩ := (send_ok_iff _ _ _).mp hlive
      obtain ⟨ad', had', hkey, _⟩ := h.waiter waiter (List.mem_of_getElem? hw)
      rw [had] at had'
      cases had'
      refine ⟨waiter.grant, ad.receive .granted, ?_, ?_, ?_, hne⟩
      · rw [getElem?_send, had, Option.map_some, if_pos rfl]
      · rw [Admit.receive_key, hkey]
      · exact Or.inr ⟨Or.inl (by rw [Admit.receive_phase, hphase]), by
          simp [Admit.receive, hphase]⟩
    · exact htake.running k hk

theorem DistinctInv.dropRunning (h : DistinctInv s) (hit : CallKey → Bool) :
    DistinctInv (dropRunning hit s) := by
  refine ⟨h.keys, h.grants, h.waiter, fun k hk => h.running k ?_⟩
  rw [Table.contains_iff] at hk ⊢
  obtain ⟨v, hv⟩ := hk
  exact ⟨v, (List.mem_filter.mp hv).1⟩

theorem DistinctInv.releaseMatching (h : DistinctInv s) (sc : Scheduler σ) (hit : CallKey → Bool)
    (env : σ) : DistinctInv (releaseMatching sc hit env s) :=
  releaseMatching_rule sc h (fun _ _ hi hr => hi.cancelRound hr) (fun _ hi => hi.dropRunning hit)
    (fun _ _ hi hr => hi.grantRound hr) env

/-- After `release_matching` no waiting and no running key is hit. -/
theorem releaseMatching_clean (sc : Scheduler σ) (hit : CallKey → Bool) (env : σ) (s : System) :
    (∀ w ∈ (releaseMatching sc hit env s).state.waiting, hit w.key = false)
    ∧ ∀ k, (releaseMatching sc hit env s).state.running.contains k = true → hit k = false := by
  obtain ⟨c, _, hclean, hgrant, _⟩ := releaseMatching_spec sc hit env s
  -- a grant round starts a waiter, and no waiter left is hit
  refine reflTransGen_invariant
    (P := fun t => (∀ w ∈ t.state.waiting, hit w.key = false)
      ∧ ∀ k, t.state.running.contains k = true → hit k = false) ?_ hgrant ⟨hclean, ?_⟩
  · rintro t u ⟨hwait, hrun⟩ hr
    cases hr with
    | skip index waiter hw hslot hgone =>
      exact ⟨fun w hm => hwait w (mem_of_mem_swapRemove hw hm), hrun⟩
    | grant index waiter hw hslot hlive =>
      refine ⟨fun w hm => hwait w (mem_of_mem_swapRemove hw hm), fun k hk => ?_⟩
      rcases contains_start.mp hk with rfl | hk
      · exact hwait waiter (List.mem_of_getElem? hw)
      · exact hrun k hk
  · intro k hk
    obtain ⟨v, hv⟩ := Table.contains_iff.mp hk
    simpa using (List.mem_filter.mp hv).2

/-- What no message changes of an admission. -/
def Admit.standing (ad : Admit) : CallKey × Phase := (ad.key, ad.phase)

/-- An update of the admissions that keeps every key and every phase. -/
def SameStanding (admits admits' : List Admit) : Prop :=
  ∀ b : Nat, (admits'[b]?).map Admit.standing = (admits[b]?).map Admit.standing

theorem SameStanding.trans {l m n : List Admit} (h : SameStanding l m) (h' : SameStanding m n) :
    SameStanding l n :=
  fun b => (h' b).trans (h b)

theorem SameStanding.get? (h : SameStanding admits admits') (ha : admits[a]? = some ad) :
    ∃ ad', admits'[a]? = some ad' ∧ ad'.key = ad.key ∧ ad'.phase = ad.phase := by
  have hb := h a
  rw [ha, Option.map_some] at hb
  obtain ⟨ad', ha', hst⟩ := Option.map_eq_some_iff.mp hb
  exact ⟨ad', ha', congrArg Prod.fst hst, congrArg Prod.snd hst⟩

theorem SameStanding.symm (h : SameStanding admits admits') : SameStanding admits' admits :=
  fun b => (h b).symm

theorem sameStanding_send (admits : List Admit) (a : Nat) (message : Grant) :
    SameStanding admits (send admits a message).1 := by
  intro b
  rw [getElem?_send]
  cases admits[b]? with
  | none => rfl
  | some ad => by_cases hab : a = b <;> simp [hab, Admit.standing]

theorem sameStanding_cancelRounds {hit : CallKey → Bool} (h : ReflTransGen (CancelRound hit) s t) :
    SameStanding s.admits t.admits :=
  reflTransGen_invariant (P := fun t : System => SameStanding s.admits t.admits)
    (fun _ _ hi hr => by cases hr; exact hi.trans (sameStanding_send _ _ _)) h (fun _ => rfl)

theorem sameStanding_grantRounds (h : ReflTransGen (GrantRound sc) s t) :
    SameStanding s.admits t.admits :=
  reflTransGen_invariant (P := fun t : System => SameStanding s.admits t.admits)
    (fun _ _ hi hr => by cases hr <;> exact hi.trans (sameStanding_send _ _ _)) h (fun _ => rfl)

/-- `release_matching` moves no admission to another phase. -/
theorem sameStanding_releaseMatching (sc : Scheduler σ) (hit : CallKey → Bool) (env : σ)
    (s : System) : SameStanding s.admits (releaseMatching sc hit env s).admits := by
  obtain ⟨c, hcancel, _, hgrant, _⟩ := releaseMatching_spec sc hit env s
  have h : SameStanding (LocalScheduler.dropRunning hit c).admits
      (releaseMatching sc hit env s).admits := sameStanding_grantRounds hgrant
  exact (sameStanding_cancelRounds hcancel).trans h

/-! ## Phases -/

section

variable (h : DistinctInv s) (ha : s.admits[a]? = some ad)

include h ha

/-- Moving admission `a` to another phase keeps the invariant if the new phase still suits a
waiter of `a` and a running key of `a`, where there are such. -/
theorem DistinctInv.setPhase (phase : Phase)
    (hwait : ∀ w ∈ s.state.waiting, w.grant = a → ({ ad with phase := phase } : Admit).Waiting)
    (hhold : s.state.running.contains ad.key = true → ad.Holding →
      ({ ad with phase := phase } : Admit).Holding) :
    DistinctInv { s with admits := setPhase s.admits a phase } := by
  have hself := getElem?_setPhase_self ha phase
  have hother : ∀ (b : Nat) (ad' : Admit), b ≠ a → s.admits[b]? = some ad' →
      (LocalScheduler.setPhase s.admits a phase)[b]? = some ad' := by grind [getElem?_setPhase]
  refine ⟨(sameKeys_setPhase s.admits a phase).distinctKeys h.keys, h.grants, ?_, ?_⟩
  · intro w hm
    obtain ⟨adw, hadw, hkw, hwaitw⟩ := h.waiter w hm
    by_cases hwa : w.grant = a
    · have hadeq : adw = ad := by rw [hwa, ha] at hadw; exact (Option.some.inj hadw).symm
      exact ⟨_, hwa ▸ hself, by rw [← hkw, hadeq], hwait w hm hwa⟩
    · exact ⟨adw, hother _ adw hwa hadw, hkw, hwaitw⟩
  · intro k hk
    obtain ⟨b, adb, hadb, hkb, hholdb, hno⟩ := h.running k hk
    by_cases hba : b = a
    · grind
    · exact ⟨b, adb, hother b adb hba hadb, hkb, hholdb, hno⟩

/-- The admission of a key is the one the invariant speaks of. -/
theorem DistinctInv.no_waiter_of_running (hk : s.state.running.contains ad.key = true) :
    ad.Holding ∧ ∀ w ∈ s.state.waiting, w.grant ≠ a := by
  grind [DistinctKeys, cases DistinctInv]

theorem DistinctInv.waiting_of_grant {w : Waiter} (hm : w ∈ s.state.waiting) :
    w.grant = a ↔ w.key = ad.key := by
  obtain ⟨adw, hadw, hkw, _⟩ := h.waiter w hm
  constructor
  · grind
  · intro hk
    exact h.keys _ _ adw ad hadw ha (by rw [hkw, hk])

/-! ## Steps -/

omit h ha in
theorem DistinctInv.admitEnter (h : DistinctInv s) (sc : Scheduler σ) (key : CallKey)
    (features : TaskFeatures) (hf : ∀ ad ∈ s.admits, ad.key ≠ key) :
    DistinctInv (admitEnter sc key features s) := by
  have hold : ∀ (new : Admit) (b : Nat) (ad : Admit), s.admits[b]? = some ad →
      (s.admits ++ [new])[b]? = some ad := by grind
  have hkeys : ∀ new : Admit, new.key = key → DistinctKeys (s.admits ++ [new]) := by
    intro new hnew a b ada adb ha hb hab
    rw [List.getElem?_append] at ha hb
    split at ha
    · grind [DistinctKeys, cases DistinctInv]
    · grind
  have hlt : ∀ w ∈ s.state.waiting, w.grant ≠ s.admits.length := by grind [cases DistinctInv]
  rw [LocalScheduler.admitEnter]
  by_cases hslot : s.state.running.size < sc.max_concurrent
  · rw [if_pos hslot]
    refine ⟨hkeys _ rfl, h.grants, fun w hm => ?_, fun k hk => ?_⟩
    · obtain ⟨ad, had, hkw, hwait⟩ := h.waiter w hm
      exact ⟨ad, hold _ _ ad had, hkw, hwait⟩
    · rcases contains_start.mp hk with rfl | hk
      · exact ⟨s.admits.length, ⟨k, .returned, .empty⟩, by simp, rfl, Or.inl rfl, hlt⟩
      · obtain ⟨a, ad, had, hka, hhold, hno⟩ := h.running k hk
        exact ⟨a, ad, hold _ a ad had, hka, hhold, hno⟩
  · rw [if_neg hslot]
    refine ⟨hkeys _ rfl, ?_, fun w hm => ?_, fun k hk => ?_⟩
    · rw [List.map_append, List.nodup_append]
      refine ⟨h.grants, List.nodup_singleton _, fun x hx y hy => ?_⟩
      obtain ⟨w, hm, rfl⟩ := List.mem_map.mp hx
      rw [List.map_singleton, List.mem_singleton] at hy
      exact hy ▸ hlt w hm
    · rcases List.mem_append.mp hm with hm | hm
      · obtain ⟨ad, had, hkw, hwait⟩ := h.waiter w hm
        exact ⟨ad, hold _ _ ad had, hkw, hwait⟩
      · rw [List.mem_singleton] at hm
        subst hm
        exact ⟨⟨key, .awaiting, .empty⟩, by simp, rfl, Or.inl ⟨rfl, rfl⟩⟩
    · obtain ⟨a, ad, had, hka, hhold, hno⟩ := h.running k hk
      refine ⟨a, ad, hold _ a ad had, hka, hhold, fun w hm => ?_⟩
      rcases List.mem_append.mp hm with hm | hm
      · exact hno w hm
      · grind

/-- An admission without a waiter returns, and its call starts. -/
theorem DistinctInv.startReturned (hno : ∀ w ∈ s.state.waiting, w.grant ≠ a)
    (features : TaskFeatures) (fail_open : Bool) :
    DistinctInv ⟨s.state.start ad.key features fail_open,
      LocalScheduler.setPhase s.admits a .returned⟩ := by
  have hphase := h.setPhase ha .returned (fun w hm hwa => absurd hwa (hno w hm))
    (fun _ _ => Or.inl rfl)
  refine ⟨hphase.keys, hphase.grants, hphase.waiter, fun k hk => ?_⟩
  rcases contains_start.mp hk with rfl | hk
  · exact ⟨a, _, getElem?_setPhase_self ha .returned, rfl, Or.inl rfl, hno⟩
  · exact hphase.running k hk

theorem DistinctInv.failOpen (now : Nat) :
    DistinctInv ⟨(failOpen ad.key now s).state,
      LocalScheduler.setPhase (failOpen ad.key now s).admits a .returned⟩ := by
  rw [LocalScheduler.failOpen]
  cases hf : s.state.waiting.findIdx? fun waiter => waiter.key = ad.key with
  | none =>
    refine h.startReturned ha (fun w hm hwa => ?_) _ _
    exact absurd ((h.waiting_of_grant ha hm).mp hwa)
      (by simpa using List.findIdx?_eq_none_iff.mp hf w hm)
  | some index =>
    obtain ⟨hindex, hkey, -⟩ := List.findIdx?_eq_some_iff_getElem.mp hf
    have hw : s.state.waiting[index]? = some (s.state.waiting[index]) :=
      List.getElem?_eq_getElem hindex
    simp only [hw]
    generalize s.state.waiting[index] = waiter at hw hkey
    have hwk : waiter.key = ad.key := by simpa using hkey
    have hwa : waiter.grant = a :=
      (h.waiting_of_grant ha (List.mem_of_getElem? hw)).mpr hwk
    obtain ⟨htake, hne⟩ := h.takeOut hw (sameKeys_dropSender s.admits waiter.grant)
      (by grind [getElem?_dropSender])
    have hself : (dropSender s.admits waiter.grant)[a]? = some { ad with grant := .closed } := by
      rw [getElem?_dropSender, ha, Option.map_some, if_pos hwa]
    exact htake.startReturned hself (hwa ▸ hne) _ _

end

theorem Admit.outcome_message {message : Grant} (h : ad.outcome = some (.message message)) :
    ad.phase = .awaiting ∧ ad.grant = .sent message := by
  revert h
  unfold Admit.outcome
  split <;> simp_all

/-- **A step keeps the invariant** when an entering admission brings a new key. -/
theorem DistinctInv.step {e : Event σ} (h : DistinctInv s) (hf : fresh s e)
    (hs : step sc s e = some t) : DistinctInv t := by
  cases step_case sc hs with
  | enter key features => exact h.admitEnter sc key features hf
  | expire a ad ha hp hg =>
    refine h.setPhase ha .expired (fun _ _ _ => Or.inr (Or.inl rfl)) (fun _ hhold => ?_)
    rcases hhold with hret | ⟨_, hgrant⟩
    · rw [hp] at hret; cases hret
    · rw [hg] at hgrant; cases hgrant
  | resumeRunning a now ad ha outcome ho hk =>
    exact h.setPhase ha .returned
      (fun w hm hwa => absurd hwa ((h.no_waiter_of_running ha hk).2 w hm))
      (fun _ _ => Or.inl rfl)
  | resumeParked a now ad ha message ho hk =>
    obtain ⟨hp, hg⟩ := Admit.outcome_message ho
    refine h.setPhase ha .parked (fun w hm hwa => ?_) (fun hrun => ?_)
    · grind [Admit.Waiting, cases DistinctInv]
    · rw [hk] at hrun; cases hrun
  | resumeFailOpen a now ad ha ho hk => exact h.failOpen ha now
  | closeReceiver a ad ha hp =>
    refine h.setPhase ha .closing (fun _ _ _ => Or.inr (Or.inr rfl)) (fun _ hhold => ?_)
    rcases hhold with hret | ⟨_, hgrant⟩
    · rw [hp] at hret; cases hret
    · exact Or.inr ⟨Or.inr rfl, hgrant⟩
  | dropClosing a env ad ha hp =>
    have hrel := h.releaseMatching sc (fun candidate => candidate = ad.key) env
    obtain ⟨hwait, hrun⟩ := releaseMatching_clean sc (fun candidate => candidate = ad.key) env s
    obtain ⟨ad', ha', hkey, _⟩ := (sameStanding_releaseMatching sc _ env s).get? ha
    refine hrel.setPhase ha' .dropped (fun w hm hwa => ?_) (fun hk => ?_)
    · grind [cases DistinctInv]
    · grind
  | dropParked a env ad ha hp =>
    refine h.setPhase ha .dropped (fun w hm hwa => ?_) (fun hk hhold => ?_)
    · grind [Admit.Waiting, cases DistinctInv]
    · grind [Admit.Holding]
  | release key env => exact h.releaseMatching sc _ env
  | releaseThread thread_id env => exact h.releaseMatching sc _ env

theorem distinctInv_init : DistinctInv System.init :=
  ⟨fun _ _ _ _ ha _ _ => by simp [System.init] at ha, List.nodup_nil,
    fun _ hm => absurd hm List.not_mem_nil, fun _ hk => by cases hk⟩

/-- **Every run with distinct keys keeps the invariant.** -/
theorem run_distinct {es : List (Event σ)} (h : DistinctInv s) (hf : Along (step sc) fresh s es)
    (hr : run (step sc) s es = some t) : DistinctInv t :=
  run_invariant (fun _ _ _ hi hf hs => hi.step hf hs) es s t h hf hr

end CodexRouter.LocalScheduler
