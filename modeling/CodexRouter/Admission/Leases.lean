import CodexRouter.Admission.Ownership

set_option autoImplicit false

/-! # The admission service: connections that hold a grant

The invariants of `Ownership` over whole runs. A run takes only own calls out of the table
exactly when it is `orderly` throughout, and in an orderly run at most `slots` connections
hold a grant at any time.
-/

namespace CodexRouter.Admission

open CodexRouter.Lib

variable {cfg : Config}

/-! ## One round of a handler -/

section Round

variable {c : Nat} {conn : Conn} {loads : Except Exn Json} {env : Env} {s t : System}
  {exn : Option Exn}

section

variable (hc : s.conns[c]? = some conn) (hrun : conn.running = true)

include hc hrun

theorem ServiceInv.handled (h : ServiceInv cfg s) (hh : Handled cfg c conn loads env s t exn) :
    ServiceInv cfg t := by
  refine hh.rule h ?_ ?_ ?_ fun u hu => hu.dispatch env
  · exact fun _ _ _ _ _ => h.write c _
  · exact fun request queued_at howned hnew => h.entered hc hrun howned hnew queued_at
  · exact fun _ _ _ _ howned => h.released hc howned

/-- An orderly release concerns a call of the connection's own, if any. -/
theorem writer_of_orderly (h : AllLeases s) {message : Json} {queued_at : ℚ} {env' : Env}
    (hord : orderly s (.line c (.ok message) queued_at env env'))
    (hop : operation message = .ok .cancelOrRelease) {key : Identity}
    (howned : conn.owned = some key) {call : Call} (hget : s.calls.get? key = some call) :
    call.writer = c := by
  cases hterm : conn.terminal with
  | false =>
    refine h.writer_of_owns ⟨conn, hc, howned, hterm⟩ (fun conn' hc' => ?_) hget
    rw [hc] at hc'
    cases hc'
    exact hrun
  | true =>
    obtain ⟨owned, terminal, running, replies⟩ := conn
    cases howned
    cases hterm
    simp only [orderly, hop, hc] at hord
    rw [Calls.get?_eq_none_iff.mpr hord] at hget
    cases hget

theorem LeaseInv.handled (h : AllLeases s) (ho : ServiceInv cfg s) {queued_at : ℚ} {env' : Env}
    (hord : orderly s (.line c loads queued_at env env'))
    (hh : Handled cfg c conn loads env s t exn) : AllLeases t := by
  refine (hh.rule (P := fun t => AllLeases t ∧ ServiceInv cfg t) ⟨h, ho⟩ ?_ ?_ ?_
    fun u hu => ⟨hu.1.dispatch hu.2 env, hu.2.dispatch env⟩).1
  · intro key existing howned hterm hget
    refine ⟨h.write c _ fun hstate => ⟨conn, key, existing, hc, howned, hterm, hget, ?_⟩,
      ho.write c _⟩
    exact Reply.status.inj hstate
  · intro request queued_at howned hnew
    exact ⟨h.entered hc howned hnew (ho.started c conn hc howned) queued_at,
      ho.entered hc hrun howned hnew queued_at⟩
  · rintro message key rfl hop howned
    exact ⟨LeaseInv.released h fun call hget => writer_of_orderly hc hrun h hord hop howned hget,
      ho.released hc howned⟩

/-- Until it ends, the handler runs. -/
theorem Handled.running (hh : Handled cfg c conn loads env s t exn) :
    ∀ conn', t.conns[c]? = some conn' → conn'.running = true := by
  have hs : ∀ conn', s.conns[c]? = some conn' → conn'.running = true := fun conn' h => by
    rw [hc] at h; cases h; exact hrun
  refine hh.rule (P := fun t => ∀ conn', t.conns[c]? = some conn' → conn'.running = true) hs ?_ ?_
    ?_ fun u hu conn' hc' => ?_
  · exact fun _ _ _ _ _ => running_write hs _
  · grind [getElem?_entered]
  · grind [getElem?_released]
  · obtain ⟨conn₁, hc₁, _, _, hr⟩ := (sameHandlers_dispatch cfg env u).symm.get? hc'
    exact hr.symm.trans (hu conn₁ hc₁)

end

/-- A round keeps every call, except that a release takes out the key of its connection. -/
theorem Handled.kept (hh : Handled cfg c conn loads env s t exn) {key : Identity} {call : Call}
    (hget : s.calls.get? key = some call) :
    (∃ call', t.calls.get? key = some call' ∧ call'.writer = call.writer)
    ∨ ∃ message, loads = .ok message ∧ operation message = .ok .cancelOrRelease
      ∧ conn.owned = some key := by
  refine hh.rule (P := fun t =>
    (∃ call', t.calls.get? key = some call' ∧ call'.writer = call.writer) ∨ _)
    (Or.inl ⟨call, hget, rfl⟩) ?_ ?_ ?_ fun u hu => ?_
  · exact fun _ _ _ _ _ => Or.inl ⟨call, hget, rfl⟩
  · intro request queued_at _ hnew
    have hk : key ≠ request.key := by
      rintro rfl
      rw [Calls.get?_eq_none_iff.mpr hnew] at hget
      cases hget
    exact Or.inl ⟨call, by rw [get?_entered, if_neg hk, hget], rfl⟩
  · intro message key' hloads hop howned
    grind [get?_released]
  · refine hu.imp_left fun ⟨call', hget', hwriter⟩ => ?_
    rcases dispatch_get? cfg env u key with hsame | ⟨call'', hu', hgranted⟩
    · exact ⟨call', hsame.trans hget', hwriter⟩
    · obtain rfl : call'' = call' := Option.some.inj (hu'.symm.trans hget')
      exact ⟨_, hgranted, hwriter⟩

end Round

/-! ## Steps -/

variable {s t : System} {e : Event} {c : Nat} {conn : Conn} {env : Env} {key : Identity}

theorem ServiceInv.step (h : ServiceInv cfg s) (hstep : step cfg s e = some t) :
    ServiceInv cfg t := by
  cases step_case hstep with
  | connect =>
    refine ⟨fun key call hget => ?_, ?_, h.bound⟩
    · obtain ⟨conn, hc, hrest⟩ := h.owner key call hget
      exact ⟨conn, by rw [List.getElem?_append_left (List.getElem?_eq_some_iff.mp hc).1, hc], hrest⟩
    · grind [Conn.init, cases ServiceInv]
  | dispatch env => exact h.dispatch env
  | handled c _ _ env env' conn hc hrun _ hh => exact h.handled hc hrun hh
  | aborted c _ _ env env' conn hc hrun u exn hh => exact (h.handled hc hrun hh).abort c exn env'
  | eof c env => exact h.finish c env
  | fail c exn env => exact h.abort c exn env

theorem running_of_get? (hc : s.conns[c]? = some conn) (hrun : conn.running = true) (conn' : Conn)
    (hc' : s.conns[c]? = some conn') : conn'.running = true := by
  rw [hc] at hc'
  cases hc'
  exact hrun

theorem LeaseInv.step (h : AllLeases s) (ho : ServiceInv cfg s) (hord : orderly s e)
    (hstep : step cfg s e = some t) : AllLeases t := by
  cases step_case hstep with
  | connect =>
    have hnew : ∀ (c : Nat) (conn : Conn), (s.conns ++ [Conn.init])[c]? = some conn →
        s.conns[c]? = some conn ∨ conn = Conn.init := by grind
    constructor
    · intro c conn key hskip hc hrun howned hterm
      rcases hnew c conn hc with hc' | rfl
      · exact h.lease c conn key hskip hc' hrun howned hterm
      · cases howned
    · intro c conn hskip hc hrun hidle
      rcases hnew c conn hc with hc' | rfl
      · exact h.idle c conn hskip hc' hrun hidle
      · simp [Conn.verdict, Conn.init]
  | dispatch env => exact h.dispatch ho env
  | handled c _ _ env env' conn hc hrun _ hh => exact h.handled hc hrun ho hord hh
  | aborted c _ _ env env' conn hc hrun u exn hh =>
    exact LeaseInv.abort (h.handled hc hrun ho hord hh) (ho.handled hc hrun hh)
      (hh.running hc hrun) exn env'
  | eof c env conn hc hrun => exact LeaseInv.finish h ho (running_of_get? hc hrun) env
  | fail c exn env conn hc hrun => exact LeaseInv.abort h ho (running_of_get? hc hrun) exn env

section

variable (h : AllLeases s) (hrun : ∀ conn, s.conns[c]? = some conn → conn.running = true)
  {call : Call} (hget : s.calls.get? key = some call)

include h hrun hget

/-- The end of a handler takes out only its connection's call. -/
theorem finish_removes (hgone : (finish cfg c env s).calls.get? key = none) :
    call.writer = c := by
  rcases finish_cases cfg c env s with ⟨key', howns, heq⟩ | ⟨_, heq⟩
  · rw [heq] at hgone
    have hpop := dispatch_get?_none env hgone
    rw [System.pop, Calls.get?_erase] at hpop
    by_cases hk : key = key'
    · exact h.writer_of_owns howns hrun (hk ▸ hget)
    · rw [if_neg hk, hget] at hpop; cases hpop
  · rw [heq, updateConn_calls, hget] at hgone
    cases hgone

theorem abort_removes {exn : Exn} (hgone : (abort cfg c exn env s).calls.get? key = none) :
    call.writer = c := by
  unfold abort at hgone
  split at hgone
  · exact finish_removes (h.write c .error nofun) (running_write hrun .error) hget hgone
  · exact finish_removes h hrun hget hgone

end

theorem removesOwn_of_orderly (h : AllLeases s) (ho : ServiceInv cfg s) (hord : orderly s e) :
    removesOwn cfg s e := by
  intro t hstep key call hget hgone
  -- a round of a handler that drops the call is a release of the connection's own
  have hround : ∀ {c : Nat} {conn : Conn} {loads : Except Exn Json} {queued_at : ℚ}
      {env env' : Env} {u : System} {exn : Option Exn}, s.conns[c]? = some conn →
      conn.running = true → orderly s (.line c loads queued_at env env') →
      Handled cfg c conn loads env s u exn →
      (∃ call', u.calls.get? key = some call' ∧ call'.writer = call.writer) ∨ call.writer = c := by
    intro c conn loads queued_at env env' u exn hc hrun hord hh
    rcases hh.kept hget with hkept | ⟨message, rfl, hop, howned⟩
    · exact Or.inl hkept
    · exact Or.inr (writer_of_orderly hc hrun h hord hop howned hget)
  cases step_case hstep with
  | connect => rw [hget] at hgone; cases hgone
  | dispatch env => rw [dispatch_get?_none env hgone] at hget; cases hget
  | handled c loads queued_at env env' conn hc hrun _ hh =>
    rcases hround hc hrun hord hh with ⟨call', hget', _⟩ | hw
    · rw [hget'] at hgone; cases hgone
    · rw [hw]; rfl
  | aborted c loads queued_at env env' conn hc hrun u exn hh =>
    rcases hround hc hrun hord hh with ⟨call', hget', hsame⟩ | hw
    · have hw := abort_removes (h.handled hc hrun ho hord hh) (hh.running hc hrun) hget' hgone
      rw [← hsame, hw]; rfl
    · rw [hw]; rfl
  | eof c env conn hc hrun => rw [finish_removes h (running_of_get? hc hrun) hget hgone]; rfl
  | fail c exn env conn hc hrun => rw [abort_removes h (running_of_get? hc hrun) hget hgone]; rfl

/-! ## Stray releases -/

theorem get?_dispatch_released (cfg : Config) (env : Env) (c : Nat) (key : Identity)
    (s : System) : (dispatch cfg env (released c key s)).1.calls.get? key = none := by
  grind [dispatch_get?, get?_released]

theorem not_owns_dispatch_released (cfg : Config) (env : Env) (c : Nat) (key key' : Identity)
    (s : System) : ¬ Owns (dispatch cfg env (released c key s)).1 c key' := by
  rintro ⟨conn', hc', _, ht'⟩
  obtain ⟨conn₁, hc₁, _, ht₁, _⟩ :=
    (sameHandlers_dispatch cfg env (released c key s)).symm.get? hc'
  rcases updated_cases (getElem?_released c c key s) hc₁ with ⟨conn₂, _, _, rfl⟩ | ⟨hne, _⟩
  · rw [ht'] at ht₁; cases ht₁
  · exact hne rfl

/-- A handler without a call ends without touching the table. -/
theorem abort_calls (h : ∀ key, ¬ Owns s c key) (exn : Exn) (env : Env) :
    (abort cfg c exn env s).calls = s.calls := by
  have hfinish : ∀ u : System, (∀ key, ¬ Owns u c key) → (finish cfg c env u).calls = u.calls := by
    intro u hu
    rcases finish_cases cfg c env u with ⟨key, howns, _⟩ | ⟨_, heq⟩
    · exact absurd howns (hu key)
    · rw [heq]; rfl
  unfold abort
  split
  · exact hfinish _ fun key howns =>
      h key (owns_of_sameHandlers (sameHandlers_write s c .error) howns)
  · exact hfinish s h

/-- After a `cancel` or `release` the key of the connection is not in the table. -/
theorem step_release_get? {message : Json} {queued_at : ℚ} {env' : Env}
    (hc : s.conns[c]? = some conn) (howned : conn.owned = some key)
    (hop : operation message = .ok .cancelOrRelease)
    (hstep : step cfg s (.line c (.ok message) queued_at env env') = some t) :
    t.calls.get? key = none := by
  simp only [step, hc] at hstep
  split at hstep
  · simp only [handleLine, handleMessage, hop, howned] at hstep
    have hgone := get?_dispatch_released cfg env c key s
    have hnot := fun key' => not_owns_dispatch_released cfg env c key key' s
    rcases hd : dispatch cfg env (released c key s) with ⟨u, _ | exn⟩
    · grind
    · rw [hd] at hstep hgone hnot
      cases hstep
      rw [abort_calls hnot]
      exact hgone
  · cases hstep

/-- A stray release takes out the call of another connection. -/
theorem orderly_of_removesOwn (ho : ServiceInv cfg s) (hstep : step cfg s e = some t)
    (hrem : removesOwn cfg s e) : orderly s e := by
  unfold orderly
  split
  · rename_i c message queued_at env env'
    split
    · rename_i key running replies hop hc
      cases hcontains : s.calls.contains key with
      | false => rfl
      | true =>
        -- the call would be the connection's own, but that one has released it
        obtain ⟨call, hget⟩ := Option.isSome_iff_exists.mp hcontains
        have hgone := step_release_get? hc rfl hop hstep
        have hwriter := Option.some.inj (hrem t hstep key call hget hgone)
        obtain ⟨conn, hc', _, ht, _⟩ := ho.owner key call hget
        rw [← hwriter, hc] at hc'
        cases hc'
        cases ht
    · trivial
  · trivial

/-! ## Counting -/

/-- Each connection that holds a grant has a granted call of its own. -/
theorem holders_le (h : AllLeases s) : (holders s).length ≤ s.calls.granted := by
  have hnodup : (holders s).Nodup := List.nodup_range.filter _
  have hsub : holders s ⊆
      (s.calls.values.filter fun call => call.state = .granted).map Call.writer := by
    intro c hc
    obtain ⟨conn, hget, hholding⟩ := (Option.any_eq_true _ _).mp (List.mem_filter.mp hc).2
    rw [Conn.holding, Bool.and_eq_true, decide_eq_true_iff] at hholding
    obtain ⟨hrun, hverdict⟩ := hholding
    have hactive : ¬ (conn.owned = none ∨ conn.terminal = true) := fun hidle =>
      h.idle c conn id hget hrun hidle hverdict
    rw [not_or, Bool.not_eq_true] at hactive
    obtain ⟨key, howned⟩ := Option.ne_none_iff_exists'.mp hactive.1
    obtain ⟨call, hcall, hw, hg⟩ := h.lease c conn key id hget hrun howned hactive.2
    refine List.mem_map.mpr ⟨call, List.mem_filter.mpr ⟨?_, by simp [hg hverdict]⟩, hw⟩
    exact Calls.mem_values.mpr (Calls.identity_of_get? hcall ▸ hcall)
  have hlen := (List.subperm_of_subset hnodup hsub).length_le
  rwa [List.length_map, ← List.countP_eq_length_filter] at hlen

theorem serviceInv_init (cfg : Config) : ServiceInv cfg System.init :=
  ⟨nofun, fun c conn hc => by simp [System.init] at hc, Nat.zero_le _⟩

theorem allLeases_init : AllLeases System.init :=
  ⟨fun c conn key _ hc => by simp [System.init] at hc,
    fun c conn _ hc => by simp [System.init] at hc⟩

/-- **Whose call a connection removes.** A run takes only calls out of the table that the
acting connection enqueued itself exactly when none of its steps is a stray release, and then
at most `slots` connections hold a grant at its end. -/
theorem run_ownership (cfg : Config) (es : List Event) (s : System)
    (hr : run (step cfg) System.init es = some s) :
    (Along (step cfg) (removesOwn cfg) System.init es ↔ Along (step cfg) orderly System.init es)
    ∧ (Along (step cfg) orderly System.init es → (holders s).length ≤ cfg.slots) := by
  have hstep : ∀ s e t, ServiceInv cfg s ∧ AllLeases s → orderly s e → step cfg s e = some t →
      ServiceInv cfg t ∧ AllLeases t := fun s e t h hord hs =>
    ⟨h.1.step hs, LeaseInv.step h.2 h.1 hord hs⟩
  have hinit : ServiceInv cfg System.init ∧ AllLeases System.init :=
    ⟨serviceInv_init cfg, allLeases_init⟩
  refine ⟨⟨fun hal => ?_, fun hal => ?_⟩, fun hal => ?_⟩
  · exact along_of_invariant (P := ServiceInv cfg) (fun _ _ _ h _ hs => h.step hs)
      (fun _ _ _ h hs hrem => orderly_of_removesOwn h hs hrem) es System.init s hinit.1 hr hal
  · exact along_of_invariant hstep
      (fun _ _ _ h _ hord => removesOwn_of_orderly h.2 h.1 hord) es System.init s hinit hr hal
  · obtain ⟨hinv, hleases⟩ := run_invariant hstep es System.init s hinit hal hr
    exact le_trans (holders_le hleases) hinv.bound

/-- The first of three connections enqueues a call and releases it, and the second enqueues
under the same identity. -/
def identityReused : List Event :=
  [.connect, .connect, .connect,
    .line 0 (.ok (enqueueMessage "a")) 0 (noSnapshot 0) (noSnapshot 0),
    .line 0 (.ok releaseMessage) 1 (noSnapshot 1) (noSnapshot 1),
    .line 1 (.ok (enqueueMessage "a")) 2 (noSnapshot 2) (noSnapshot 2)]

theorem run_ownership_identityReused :
    ∃ s, run (step oneSlot) System.init identityReused = some s
      ∧ Along (step oneSlot) (removesOwn oneSlot) System.init identityReused
      ∧ (holders s).length ≤ 1 :=
  have hord : Along (step oneSlot) orderly System.init identityReused := by decide +kernel
  ⟨_, rfl, (run_ownership oneSlot identityReused _ rfl).1.mpr hord,
    (run_ownership oneSlot identityReused _ rfl).2 hord⟩

/-- The first connection releases once more: this takes out the call of the second, and when a
third connection enqueues, two hold a grant for one slot. -/
theorem stray_release_overcommits :
    (run (step oneSlot) System.init identityReused).map
        (fun s => (s.calls.values.map Call.writer, holders s)) = some ([1], [1])
    ∧ (run (step oneSlot) System.init (identityReused
        ++ [.line 0 (.ok releaseMessage) 3 (noSnapshot 3) (noSnapshot 3)])).map
        (fun s => (s.calls.values.map Call.writer, holders s)) = some ([], [1])
    ∧ (run (step oneSlot) System.init (identityReused
        ++ [.line 0 (.ok releaseMessage) 3 (noSnapshot 3) (noSnapshot 3),
          .line 2 (.ok (enqueueMessage "c")) 4 (noSnapshot 4) (noSnapshot 4)])).map
        (fun s => (s.calls.values.map Call.writer, holders s)) = some ([2], [1, 2]) := by
  refine ⟨?_, ?_, ?_⟩ <;> decide +kernel

end CodexRouter.Admission
