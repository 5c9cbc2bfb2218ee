import CodexRouter.Ledger.Lifecycle

set_option autoImplicit false

/-! # Who settles an attempt

The steps that write a sample or run a callback, and the fate of an attempt whose reservation
was dropped after it was sent. `observe_epoch` collects identities first and releases them
later, so the fate of an attempt depends on what it had recorded when it was collected.
-/

namespace CodexRouter.Ledger

open CodexRouter.Lib

/-! ## Samples and callbacks -/

/-- The event is a `finish` of that attempt: called for, or by the destructor. -/
def Finishes (e : Event) (id : Nat) (success : Bool) : Prop :=
  ∃ now, e = .finish id success now ∨ success = false ∧ e = .dropFinish id now

/-- The step takes the attempt out of the ledger. -/
def Removes (s t : System) (id : Nat) : Prop :=
  s.attempts.contains id = true ∧ t.attempts.contains id = false

/-- A step that writes a sample is a `finish` that takes out an attempt that was sent; one that
runs a callback is a successful `finish` that takes the attempt out. -/
def settlesByFinish (url : Nat → String) (s : System) (e : Event) : Prop :=
  ∀ t, step url s e = some t → ∀ id,
    (count s.log .sample id < count t.log .sample id →
      ∃ success, Finishes e id success ∧ Removes s t id ∧ .dispatched id ∈ s.log)
    ∧ (count s.log .callback id < count t.log .callback id →
      Finishes e id true ∧ Removes s t id)

section Settles

variable {url : Nat → String} {s t : System} {e : Event} {id : Nat} {success : Bool}
  {l : List Effect}

theorem Settling.sample (h : Settling s id success e l) (hcount : 0 < count l .sample id) :
    Finishes e id success ∧ ∃ r, s.reservations[id]? = some r ∧ r.dispatched_at.isSome := by
  obtain ⟨x, hx, hkind⟩ := List.countP_pos_iff.mp hcount
  cases h with
  | nothing => cases hx
  | finish r now hr =>
    rcases List.mem_append.mp hx with hx | hx
    · simp [(mem_callbacks hx).1] at hkind
    · exact ⟨⟨now, Or.inl rfl⟩, r, hr, (mem_samples hx).2.2⟩
  | dropFinish r now hr hsuccess =>
    exact ⟨⟨now, Or.inr ⟨hsuccess, rfl⟩⟩, r, hr, (mem_samples hx).2.2⟩

theorem Settling.callback (h : Settling s id success e l) (hcount : 0 < count l .callback id) :
    Finishes e id true := by
  obtain ⟨x, hx, hkind⟩ := List.countP_pos_iff.mp hcount
  cases h with
  | nothing => cases hx
  | finish r now hr =>
    rcases List.mem_append.mp hx with hx | hx
    · exact ⟨now, Or.inl (by rw [(mem_callbacks hx).2.2])⟩
    · simp [(mem_samples hx).1] at hkind
  | dropFinish r now hr => simp [(mem_samples hx).1] at hkind

/-- A count of samples or callbacks that grows does so by the log of a release. -/
theorem Once.grows (h : Once s) (hstep : Ledger.step url s e = some t) {kind : Kind}
    (hkind : kind = .sample ∨ kind = .callback)
    (hgrow : count s.log kind id < count t.log kind id) :
    Removes s t id ∧ ∃ success l, Settling s id success e l ∧ 0 < count l kind id := by
  have hne : kind ≠ .dispatched := by rcases hkind with rfl | rfl <;> simp
  rcases h.count_step hstep hne id with hsame | ⟨hin, hout, _⟩
  · omega
  refine ⟨⟨hin, hout⟩, ?_⟩
  cases (step_case hstep).change with
  | kept _ _ hlog => simp [hlog] at hgrow
  | reserved _ _ _ _ hlog => simp [hlog] at hgrow
  | amended _ _ _ _ _ _ _ _ hlog hdis => simp [hlog, count_dispatched hdis hne] at hgrow
  | released j a success settled _ _ _ hlog hset =>
    have hrel : count (released url j a success) kind id = 0 := by
      rcases hkind with rfl | rfl <;> simp [released, Effect.kind]
    rw [hlog, count_append, count_append, hrel] at hgrow
    have hpos : 0 < count settled kind id := by omega
    obtain ⟨x, hx, hxid⟩ := List.countP_pos_iff.mp hpos
    have hj : id = j := by
      rw [decide_eq_true_iff] at hxid
      exact hxid.2.symm.trans (hset.mem hx).2
    exact ⟨success, settled, hj ▸ hset, hpos⟩
  | reset _ _ hlog => simp [hlog] at hgrow

theorem Once.settlesByFinish (h : Once s) : settlesByFinish url s e := by
  intro t hstep id
  constructor
  · intro hgrow
    obtain ⟨hrem, success, l, hset, hpos⟩ := h.grows hstep (Or.inl rfl) hgrow
    obtain ⟨hfin, r, hr, hsent⟩ := hset.sample hpos
    exact ⟨success, hfin, hrem, h.sent id r hr hsent⟩
  · intro hgrow
    obtain ⟨hrem, success, l, hset, hpos⟩ := h.grows hstep (Or.inr rfl) hgrow
    exact ⟨hset.callback hpos, hrem⟩

end Settles

/-! ## Collected identities -/

/-- In the run `es`, `observe_epoch` was called for that URL while the attempt `id`, of a worker
with that URL, had recorded another epoch. -/
def Collected (url : Nat → String) (es : List Event) (id : Nat) (worker_url : String) : Prop :=
  ∃ pre epoch post s a old, es = pre ++ .observeEpoch worker_url epoch :: post
    ∧ run (step url) System.init pre = some s ∧ s.attempts.get? id = some a
    ∧ url a.worker = worker_url ∧ a.epoch = some old ∧ old ≠ epoch

theorem Collected.append {url : Nat → String} {es : List Event} {id : Nat} {worker_url : String}
    (h : Collected url es id worker_url) (fs : List Event) :
    Collected url (es ++ fs) id worker_url := by
  obtain ⟨pre, epoch, post, s, a, old, rfl, hrest⟩ := h
  exact ⟨pre, epoch, post ++ fs, s, a, old, by simp, hrest⟩

theorem mem_collectIds {url : Nat → String} {worker_url epoch old : String}
    {attempts : Table Nat Attempt} {id : Nat} :
    (id, old) ∈ collectIds url worker_url epoch attempts
      ↔ ∃ a, attempts.get? id = some a ∧ url a.worker = worker_url ∧ a.epoch = some old
        ∧ old ≠ epoch := by
  simp only [collectIds, List.mem_filterMap]
  constructor
  · grind [Table.get?_eq_some_iff]
  · rintro ⟨a, ha, hurl, hepoch, hne⟩
    exact ⟨(id, a), Table.get?_eq_some_iff.mp ha, by simp [hepoch, hurl, hne]⟩

/-- The reservation of an attempt names the worker of the attempt. -/
def SameWorker (s : System) : Prop :=
  ∀ id a, s.attempts.get? id = some a →
    ∃ r, s.reservations[id]? = some r ∧ r.worker = a.worker

theorem SameWorker.init : SameWorker System.init := by
  intro id a ha
  simp [System.init, Table.get?] at ha

section SameWorker

variable {url : Nat → String} {s t : System} {e : Event}

theorem SameWorker.step (h : SameWorker s) (hstep : step url s e = some t) : SameWorker t := by
  intro id a ha
  -- an attempt that was there keeps its worker, and so does its reservation
  have hold : ∀ b, s.attempts.get? id = some b → b.worker = a.worker →
      ∃ r, t.reservations[id]? = some r ∧ r.worker = a.worker := by
    intro b hb hw
    obtain ⟨r, hr, hrw⟩ := h id b hb
    obtain ⟨r', hr', hev⟩ := (step_case hstep).evolves hr
    exact ⟨r', hr', by rw [hev.worker, hrw, hw]⟩
  cases (step_case hstep).change with
  | kept _ hattempts => exact hold a (hattempts ▸ ha) rfl
  | reserved b r _ hattempts _ hres hrw => grind [Table.get?_insert]
  | amended j old b _ hget hw _ hattempts => grind [Table.get?_insert]
  | released j old _ _ _ _ hattempts => grind [Table.get?_erase]
  | reset _ hattempts => exact hold a (hattempts ▸ ha) rfl

end SameWorker

/-- What an observer of a run still has to release was collected in it. -/
def Observed (url : Nat → String) (es : List Event) (s : System) : Prop :=
  ∀ ob ∈ s.observers, ∀ id old, (id, old) ∈ ob.ids →
    Collected url es id ob.url ∧ ∃ r, s.reservations[id]? = some r ∧ url r.worker = ob.url

section Observed

variable {url : Nat → String} {es : List Event} {s t : System} {e : Event}

/-- The observers after a step are the old ones, perhaps with fewer identities, and the one of
an `observe_epoch` just called. -/
theorem StepCase.observers (h : StepCase url s e t) {ob : Observer} (hob : ob ∈ t.observers) :
    (∃ old ∈ s.observers, ob.url = old.url ∧ ob.ids ⊆ old.ids)
      ∨ e = .observeEpoch ob.url ob.epoch
        ∧ ob.ids = collectIds url ob.url ob.epoch s.attempts := by
  have hmodify : ∀ o i, ob ∈ s.observers.modify o (fun ob => { ob with ids := ob.ids.eraseIdx i }) →
      ∃ old ∈ s.observers, ob.url = old.url ∧ ob.ids ⊆ old.ids := by grind [List.mem_iff_getElem?]
  have hkept : ob ∈ s.observers → ∃ old ∈ s.observers, ob.url = old.url ∧ ob.ids ⊆ old.ids :=
    fun h => ⟨ob, h, rfl, fun _ h => h⟩
  cases h with
  | observeEpoch worker_url epoch => grind
  | observeRelease o i => exact Or.inl (hmodify o i hob)
  | observeMissed o i => exact Or.inl (hmodify o i hob)
  | _ => exact Or.inl (hkept hob)

theorem Observed.step (h : Observed url es s) (hw : SameWorker s)
    (hr : run (step url) System.init es = some s) (hstep : step url s e = some t) :
    Observed url (es ++ [e]) t := by
  intro ob hob id old hid
  have hlater : ∀ r, s.reservations[id]? = some r → url r.worker = ob.url →
      ∃ r', t.reservations[id]? = some r' ∧ url r'.worker = ob.url := by
    intro r hr hurl
    obtain ⟨r', hr', hev⟩ := (step_case hstep).evolves hr
    exact ⟨r', hr', by rw [hev.worker, hurl]⟩
  rcases (step_case hstep).observers hob with ⟨ob', hob', hurl, hsub⟩ | ⟨he, hids⟩
  · obtain ⟨hcol, r, hr, hrurl⟩ := h ob' hob' id old (hsub hid)
    exact ⟨hurl ▸ hcol.append [e], hlater r hr (hrurl.trans hurl.symm)⟩
  · rw [hids] at hid
    obtain ⟨a, ha, hurl, hepoch, hne⟩ := mem_collectIds.mp hid
    obtain ⟨r, hr', hrw⟩ := hw id a ha
    refine ⟨⟨es, ob.epoch, [], s, a, old, by rw [he], hr, ha, hurl, hepoch, hne⟩, ?_⟩
    exact hlater r hr' (by rw [hrw, hurl])

theorem run_observed (es : List Event) (s : System)
    (hr : run (step url) System.init es = some s) :
    Observed url es s ∧ SameWorker s := by
  refine run_history (P := fun es s => Observed url es s ∧ SameWorker s) ?_ ?_ es s hr
  · exact ⟨fun ob hob => by simp [System.init] at hob, SameWorker.init⟩
  · intro es t e u hr h hs
    exact ⟨h.1.step h.2 hr hs, h.2.step hs⟩

end Observed

/-! ## Abandoned attempts -/

/-- The reservation of the attempt is gone, the attempt is still in the ledger. -/
structure Abandoned (id : Nat) (a : Attempt) (s : System) : Prop where
  attempt : s.attempts.get? id = some a
  reservation : ∃ r, s.reservations[id]? = some r ∧ r.phase = .dropped

section Abandoned

variable {url : Nat → String} {s t : System} {e : Event} {id : Nat} {a : Attempt}

/-- Only an observer that holds its identity takes an abandoned attempt out; no step changes
it. -/
theorem Abandoned.step (h : Abandoned id a s) (hf : Fresh s) (hstep : step url s e = some t) :
    Abandoned id a t
      ∨ ∃ ob old, ob ∈ s.observers ∧ (id, old) ∈ ob.ids := by
  obtain ⟨r, hr, hphase⟩ := h.reservation
  obtain ⟨r', hr', hev⟩ := (step_case hstep).evolves hr
  have hstay : t.attempts.get? id = some a → Abandoned id a t :=
    fun ha => ⟨ha, r', hr', hev.dropped hphase⟩
  -- a method needs a reservation that is not dropped, so it is about another attempt
  have hother : ∀ {j : Nat} {q : Reservation}, s.reservations[j]? = some q →
      q.phase ≠ .dropped → id ≠ j := by grind
  have hinsert : ∀ {j : Nat} {b : Attempt}, id ≠ j →
      (s.attempts.insert j b).get? id = some a := fun hj => by
    rw [Table.get?_insert, if_neg hj, h.attempt]
  have herase : ∀ {j : Nat}, id ≠ j → (s.attempts.erase j).get? id = some a := fun hj => by
    rw [Table.get?_erase, if_neg hj, h.attempt]
  cases step_case hstep with
  | reserve =>
    have hlt := hf id (by simp [Table.contains, h.attempt])
    exact Or.inl (hstay (hinsert (by omega)))
  | dispatched j now q b hq hlive | setEpoch j epoch q b hq hlive =>
    exact Or.inl (hstay (hinsert (hother hq (by simp [hlive]))))
  | finish j success now q b hq hlive => exact Or.inl (hstay (herase (hother hq (by simp [hlive]))))
  | orphan j q b hq hlive => exact Or.inl (hstay (hinsert (hother hq (by simp [hlive]))))
  | dropFinish j now q b hq hdropping =>
    exact Or.inl (hstay (herase (hother hq (by simp [hdropping]))))
  | observeRelease o i j old ob b ho hi =>
    by_cases hj : id = j
    · exact Or.inr ⟨ob, old, List.mem_of_getElem? ho, hj ▸ List.mem_of_getElem? hi⟩
    · exact Or.inl (hstay (herase hj))
  | _ => exact Or.inl (hstay h.attempt)

/-- Dropping the reservation of an attempt that was sent makes it unknown and keeps it. -/
theorem abandoned_of_drop (hstep : step url s (.drop id) = some t)
    (ha : s.attempts.get? id = some a) (hstate : a.state ≠ .reserved) :
    Abandoned id { a with state := .unknown } t := by
  simp only [step, Option.ite_none_right_eq_some, Option.some.injEq] at hstep
  obtain ⟨hlive, rfl⟩ := hstep
  obtain ⟨r, hr, -⟩ := inPhase_iff.mp hlive
  simp only [dropEnter, ha, if_neg hstate, updateAttempt_of_get? ha]
  exact ⟨by simp [Table.get?_insert], { r with phase := .dropped }, by simp [hr], rfl⟩

/-- **Until collected.** From the drop on, the attempt stays as it is, or it had been collected
by an `observe_epoch` of the run. -/
theorem run_abandoned {pre : List Event} (hpre : run (step url) System.init pre = some s)
    (h : Abandoned id a s) (post : List Event) (t : System)
    (hpost : run (step url) s post = some t) :
    t.attempts.get? id = some a ∨ Collected url (pre ++ post) id (url a.worker) := by
  have hreach : ∀ fs u, run (step url) s fs = some u →
      run (step url) System.init (pre ++ fs) = some u := by
    intro fs u hu
    rw [run_append, hpre, Option.bind_some, hu]
  have hmain : Abandoned id a t ∨ Collected url (pre ++ post) id (url a.worker) := by
    refine run_history (P := fun fs u => Abandoned id a u
      ∨ Collected url (pre ++ fs) id (url a.worker)) (Or.inl h) ?_ post t hpost
    intro fs u e v hu hP hs
    rw [← List.append_assoc]
    rcases hP with hab | hcol
    · have hinit := hreach fs u hu
      have hf := run_invariant_of_step (P := Fresh) (fun _ _ _ h hs => h.step hs) _ _ u
        fresh_init hinit
      obtain ⟨hobs, hworker⟩ := run_observed _ u hinit
      rcases hab.step hf hs with hstay | ⟨ob, old, hob, hid⟩
      · exact Or.inl hstay
      · -- the observer was called for the worker of the attempt
        obtain ⟨hcol, r, hr, hurl⟩ := hobs ob hob id old hid
        obtain ⟨r', hr', hrw⟩ := hworker id a hab.attempt
        rw [hr, Option.some.injEq] at hr'
        have hsame : ob.url = url a.worker := by rw [← hurl, hr', hrw]
        exact Or.inr ((hsame ▸ hcol).append [e])
    · exact Or.inr (hcol.append [e])
  exact hmain.imp_left Abandoned.attempt

end Abandoned

/-! ## The life of an attempt -/

theorem run_once {url : Nat → String} {es : List Event} {s : System}
    (hr : run (step url) System.init es = some s) : Once s :=
  run_invariant_of_step (fun _ _ _ h hs => h.step hs) es System.init s Once.init hr

/-- **The life of an attempt.** In every run of the ledger, each attempt lowers the load, tells
its policy, writes its sample and runs its callback at most once. A sample is written and a
callback runs only in a `finish` that takes the attempt out itself, the callback only for a
success and the sample only for an attempt sent while it was outstanding. An attempt dropped
after it was sent stays in the ledger as unknown, unless an `observe_epoch` for the URL of its
worker found it recorded under another epoch. -/
theorem run_attempt_life (url : Nat → String) (es : List Event) (s : System)
    (hr : run (step url) System.init es = some s) :
    (∀ id kind, kind ≠ .dispatched → count s.log kind id ≤ 1)
    ∧ Along (step url) (settlesByFinish url) System.init es
    ∧ ∀ pre id post u a, es = pre ++ .drop id :: post →
      run (step url) System.init pre = some u →
      .dispatched id ∈ u.log → u.attempts.get? id = some a →
      s.attempts.get? id = some { a with state := .unknown }
        ∨ Collected url es id (url a.worker) := by
  refine ⟨fun id kind hkind => (run_once hr).atMost id kind hkind, ?_, ?_⟩
  · have hall : Along (step url) (fun _ _ => True) System.init es :=
      along_of_forall (fun _ _ => trivial) es System.init
    exact along_of_invariant (fun _ _ _ h _ hs => Once.step h hs)
      (fun _ _ _ h _ _ => Once.settlesByFinish h) es System.init s Once.init hr hall
  · intro pre id post u a hes hu hsent ha
    subst hes
    rw [run_append, hu, Option.bind_some] at hr
    obtain ⟨v, hv, hpost⟩ := run_cons hr
    have hstate := (run_once hu).state id a hsent ha
    have hpre : run (step url) System.init (pre ++ [.drop id]) = some v := by
      simp [run_append, hu, run, hv]
    have hlife := run_abandoned hpre (abandoned_of_drop hv ha hstate) post s hpost
    simpa using hlife

/-- One attempt is sent and finished twice; another one is sent and dropped. -/
def twoAttempts : List Event :=
  [.reserve [0] 0 (some 0), .onSuccess 0 7, .setSampleContext 0 (.obj []), .dispatched 0 10,
    .finish 0 true 15, .finish 0 true 16, .reserve [0] 0 (some 0), .setEpoch 1 "e1",
    .dispatched 1 20] ++ .drop 1 :: [.observeEpoch "w" "e1"]

theorem run_attempt_life_twoAttempts :
    ∃ s, run (step fun _ => "w") System.init twoAttempts = some s
      ∧ (∀ id kind, kind ≠ .dispatched → count s.log kind id ≤ 1)
      ∧ (s.attempts.get? 1 = some ⟨0, 0, .unknown, some "e1"⟩
        ∨ Collected (fun _ => "w") twoAttempts 1 "w") :=
  ⟨_, rfl, (run_attempt_life _ twoAttempts _ rfl).1,
    (run_attempt_life (fun _ => "w") twoAttempts _ rfl).2.2 _ 1 _ _
      ⟨0, 0, .dispatched, some "e1"⟩ rfl rfl (by simp) rfl⟩

/-- The attempt records `e1`, an observer collects it for `e2`, and it records `e2` before it is
sent and dropped. -/
def collectedEarly : List Event :=
  [.reserve [0] 0 (some 0), .setEpoch 0 "e1", .observeEpoch "w" "e2", .setEpoch 0 "e2",
    .dispatched 0 1, .drop 0]

/-- The observer of `e2` releases an attempt whose own epoch is `e2`. -/
theorem observer_releases_own_epoch :
    (run (step fun _ => "w") System.init collectedEarly).map
        (fun s => s.attempts.get? 0) = some (some ⟨0, 0, .unknown, some "e2"⟩)
    ∧ (run (step fun _ => "w") System.init (collectedEarly ++ [.observeRelease 0 0])).map
        (fun s => s.attempts.get? 0) = some none := by
  refine ⟨?_, ?_⟩ <;> decide +kernel

end CodexRouter.Ledger
