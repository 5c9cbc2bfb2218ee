import CodexRouter.Admission.Settled

set_option autoImplicit false

/-! # The admission service: whose call a connection removes

A connection remembers the key it enqueued after it has released the call. From then on the
key may belong to another connection, and a second `release` of the first one removes that
connection's call. `ServiceInv` holds in every run: a call in the table belongs to a connection
that has not released. `LeaseInv`, that a connection which has not released has its call in
the table, is what a stray release breaks; it holds in every run without one (`orderly`), and
bounds the connections that hold a grant by the slots.
-/

namespace CodexRouter.Admission

open CodexRouter.Lib

/-- The last thing that a connection was told apart from being queued. -/
def Conn.verdict (conn : Conn) : Option Reply :=
  conn.replies.find? fun reply => reply ≠ .status .queued

/-- The connection was sent `granted` and has not released, failed or ended since. -/
def Conn.holding (conn : Conn) : Bool :=
  conn.running && decide (conn.verdict = some (.status .granted))

/-- The connections that hold a grant. -/
def holders (s : System) : List Nat :=
  (List.range s.conns.length).filter fun c => (s.conns[c]?).any Conn.holding

/-- The step takes no call out of the table that another connection enqueued. -/
def removesOwn (cfg : Config) (s : System) (e : Event) : Prop :=
  ∀ t, step cfg s e = some t → ∀ key call, s.calls.get? key = some call →
    t.calls.get? key = none → e.conn = some call.writer

/-- The step is not a `cancel` or `release` on a connection that has released already and whose
former key is in use again. -/
def orderly (s : System) : Event → Prop
  | .line c (.ok message) _ _ _ =>
    match operation message, s.conns[c]? with
    | .ok .cancelOrRelease, some ⟨some key, true, _, _⟩ => s.calls.contains key = false
    | _, _ => True
  | _ => True

instance (s : System) (e : Event) : Decidable (orderly s e) := by
  unfold orderly
  split
  · split <;> infer_instance
  · infer_instance

/-- A call in the table belongs to a running connection that has not released it, a connection
that has enqueued nothing has released nothing, and the granted calls fit into the slots. -/
structure ServiceInv (cfg : Config) (s : System) : Prop where
  owner : ∀ key call, s.calls.get? key = some call → ∃ conn, s.conns[call.writer]? = some conn
    ∧ conn.owned = some key ∧ conn.terminal = false ∧ conn.running = true
  started : ∀ (c : Nat) (conn : Conn), s.conns[c]? = some conn → conn.owned = none →
    conn.terminal = false
  bound : s.calls.granted ≤ cfg.slots

/-- A running connection that has not released its call has it in the table, granted if it was
told so; any other holds no grant. Connections in `skip` are not spoken of. -/
structure LeaseInv (skip : Nat → Prop) (s : System) : Prop where
  lease : ∀ c conn key, ¬ skip c → s.conns[c]? = some conn → conn.running = true →
    conn.owned = some key → conn.terminal = false →
    ∃ call, s.calls.get? key = some call ∧ call.writer = c
      ∧ (conn.verdict = some (.status .granted) → call.state = .granted)
  idle : ∀ c conn, ¬ skip c → s.conns[c]? = some conn → conn.running = true →
    conn.owned = none ∨ conn.terminal = true → conn.verdict ≠ some (.status .granted)

variable {cfg : Config}

/-! ## Dispatching -/

theorem dispatch_get? (cfg : Config) (env : Env) (s : System) (key : Identity) :
    (dispatch cfg env s).1.calls.get? key = s.calls.get? key
    ∨ ∃ call, s.calls.get? key = some call
      ∧ (dispatch cfg env s).1.calls.get? key = some { call with state := .granted } := by
  rcases hd : dispatch cfg env s with ⟨t, _ | exn⟩
  · rcases (dispatch_servesFirst hd).change key with hsame | ⟨call, hq, hid, hgranted⟩
    · exact Or.inl hsame
    · exact Or.inr ⟨call, hid ▸ (Calls.mem_queued.mp hq).1, hgranted⟩
  · exact Or.inl (by rw [(dispatch_raises hd).1])

variable {s : System} {key : Identity} {c : Nat} {skip : Nat → Prop} {conn : Conn}

theorem dispatch_get?_none (env : Env) (h : (dispatch cfg env s).1.calls.get? key = none) :
    s.calls.get? key = none := by
  grind [dispatch_get?]

theorem verdict_foldl_grant (chosen : List Call) :
    ∀ (s : System) (c : Nat) (conn' : Conn), (chosen.foldl grant s).conns[c]? = some conn' →
      ∃ conn, s.conns[c]? = some conn ∧ conn'.handler = conn.handler
        ∧ (conn'.verdict = conn.verdict
          ∨ conn'.verdict = some (.status .granted) ∧ ∃ call ∈ chosen, call.writer = c) := by
  induction chosen with
  | nil => intro s c conn' h; exact ⟨conn', h, rfl, Or.inl rfl⟩
  | cons call chosen ih =>
    intro s c conn' h
    obtain ⟨conn₁, h₁, hh₁, hv₁⟩ := ih (grant s call) c conn' h
    have hwrite : (grant s call).conns[c]? = (s.conns[c]?).map fun conn =>
        if call.writer = c then { conn with replies := .status .granted :: conn.replies }
        else conn := getElem?_updateConn _ _ _ _
    rw [hwrite] at h₁
    obtain ⟨conn, hc, hif⟩ := Option.map_eq_some_iff.mp h₁
    refine ⟨conn, hc, ?_, ?_⟩
    · rw [hh₁, ← hif]
      split <;> rfl
    · rcases hv₁ with hsame | ⟨hgranted, call', hmem, hw⟩
      · by_cases hw : call.writer = c
        · refine Or.inr ⟨?_, call, List.mem_cons_self, hw⟩
          rw [hsame, ← hif, if_pos hw]
          simp [Conn.verdict]
        · rw [if_neg hw] at hif
          exact Or.inl (by rw [hsame, hif])
      · exact Or.inr ⟨hgranted, call', List.mem_cons_of_mem _ hmem, hw⟩

/-- A dispatch tells a connection `granted` when it grants a call of that connection, and
nothing else. -/
theorem dispatch_conn (env : Env) {conn' : Conn}
    (h : (dispatch cfg env s).1.conns[c]? = some conn') :
    ∃ conn, s.conns[c]? = some conn ∧ conn'.handler = conn.handler
      ∧ (conn'.verdict = conn.verdict ∨ ∃ call, call.writer = c
        ∧ s.calls.get? call.identity = some call ∧ (dispatch cfg env s).1.calls.get? call.identity
          = some { call with state := .granted }) := by
  obtain ⟨known, ⟨exn, hraise⟩ | ⟨waiting, hrank, hok⟩⟩ := dispatch_cases cfg env s
  · rw [hraise] at h
    exact ⟨conn', h, rfl, Or.inl rfl⟩
  · rw [hok] at h ⊢
    obtain ⟨conn, hc, hh, hv⟩ := verdict_foldl_grant _ { s with known := known } c conn' h
    refine ⟨conn, hc, hh, ?_⟩
    rcases hv with hsame | ⟨_, call, hmem, hw⟩
    · exact Or.inl hsame
    · obtain ⟨hnodup, hqueued⟩ := rank_take_spec hrank (cfg.slots - s.calls.granted)
      exact Or.inr ⟨call, hw, (Calls.mem_queued.mp (hqueued call hmem)).1,
        get?_foldl_grant_of_mem hnodup hmem⟩

theorem ServiceInv.dispatch (h : ServiceInv cfg s) (env : Env) :
    ServiceInv cfg (dispatch cfg env s).1 := by
  have hsame := sameHandlers_dispatch cfg env s
  have hkeep : ∀ key call, s.calls.get? key = some call →
      ∃ conn, (Admission.dispatch cfg env s).1.conns[call.writer]? = some conn
        ∧ conn.owned = some key ∧ conn.terminal = false ∧ conn.running = true := by
    grind [cases ServiceInv, hsame.get?]
  refine ⟨fun key call hget => ?_, ?_, dispatch_bound h.bound env⟩
  · rcases dispatch_get? cfg env s key with hsame | ⟨call', hget', hgranted⟩
    · exact hkeep key call (hsame ▸ hget)
    · grind
  · grind [cases ServiceInv, hsame.symm.get?]

theorem LeaseInv.dispatch (h : LeaseInv skip s) (ho : ServiceInv cfg s) (env : Env) :
    LeaseInv skip (dispatch cfg env s).1 := by
  constructor
  · intro c conn' key hskip hc' hrun howned hterm
    obtain ⟨conn, hc, hh, hv⟩ := dispatch_conn env hc'
    simp only [Conn.handler, Prod.mk.injEq] at hh
    rw [hh.1] at howned
    rw [hh.2.1] at hterm
    rw [hh.2.2] at hrun
    obtain ⟨call, hget, hw, hg⟩ := h.lease c conn key hskip hc hrun howned hterm
    rcases dispatch_get? cfg env s key with hsame | ⟨call', hget', hgranted⟩
    · grind [cases ServiceInv]
    · grind
  · grind [dispatch_conn, Conn.handler, cases LeaseInv, cases ServiceInv]

/-! ## Entering and releasing -/

/-- Two updates of one connection. -/
theorem getElem?_updateConn_twice (c b : Nat) (s : System) (f g : Conn → Conn) :
    ((s.updateConn c f).updateConn c g).conns[b]?
      = (s.conns[b]?).map fun conn => if c = b then g (f conn) else conn := by
  rw [getElem?_updateConn, getElem?_updateConn, Option.map_map]
  congr 1
  funext conn
  by_cases hcb : c = b <;> simp [hcb]

theorem getElem?_entered (c b : Nat) (request : Enqueue) (queued_at : ℚ) (s : System) :
    (entered c request queued_at s).conns[b]? = (s.conns[b]?).map fun conn =>
      if c = b then
        { conn with owned := some request.key, replies := .status .queued :: conn.replies }
      else conn :=
  getElem?_updateConn_twice c b s _ _

theorem get?_entered (c : Nat) (request : Enqueue) (queued_at : ℚ) (s : System)
    (key : Identity) : (entered c request queued_at s).calls.get? key
      = if key = request.key then
          some ⟨request.key, request.cwd, request.tool, c, queued_at, .queued⟩
        else s.calls.get? key :=
  Calls.get?_insert _ _ _

theorem getElem?_released (c b : Nat) (key : Identity) (s : System) :
    (released c key s).conns[b]? = (s.conns[b]?).map fun conn =>
      if c = b then { conn with terminal := true, replies := .released :: conn.replies }
      else conn :=
  getElem?_updateConn_twice c b (s.pop key) _ _

theorem get?_released (c : Nat) (key key' : Identity) (s : System) :
    (released c key s).calls.get? key' = if key' = key then none else s.calls.get? key' :=
  Calls.get?_erase _ _ _

theorem ServiceInv.entered (h : ServiceInv cfg s) (hc : s.conns[c]? = some conn)
    (hrun : conn.running = true) (howned : conn.owned = none) {request : Enqueue}
    (hnew : s.calls.contains request.key = false) (queued_at : ℚ) :
    ServiceInv cfg (entered c request queued_at s) := by
  refine ⟨fun key call hget => ?_, fun b conn' hb hnone => ?_, entered_bound h.bound hnew⟩
  · rw [get?_entered] at hget
    by_cases hk : key = request.key
    · rw [if_pos hk] at hget
      cases hget
      have hget : (Admission.entered c request queued_at s).conns[c]? = some { conn with
          owned := some request.key, replies := .status .queued :: conn.replies } := by
        rw [getElem?_entered, hc, Option.map_some, if_pos rfl]
      exact ⟨_, hget, by rw [hk], h.started c conn hc howned, hrun⟩
    · rw [if_neg hk] at hget
      obtain ⟨conn', hc', ho', ht', hr'⟩ := h.owner key call hget
      have hne : c ≠ call.writer := by grind
      exact ⟨conn', by rw [getElem?_entered, hc', Option.map_some, if_neg hne], ho', ht', hr'⟩
  · rcases updated_cases (getElem?_entered c b request queued_at s) hb with
      ⟨conn₁, rfl, _, rfl⟩ | ⟨_, hb₁⟩
    · cases hnone
    · exact h.started b conn' hb₁ hnone

theorem LeaseInv.entered (h : LeaseInv skip s) (hc : s.conns[c]? = some conn)
    (howned : conn.owned = none) {request : Enqueue} (hnew : s.calls.contains request.key = false)
    (hterm : conn.terminal = false) (queued_at : ℚ) :
    LeaseInv skip (entered c request queued_at s) := by
  constructor
  · intro b conn' key hskip hb hrun howned' hterm'
    rcases updated_cases (getElem?_entered c b request queued_at s) hb with
      ⟨conn₁, rfl, hb₁, rfl⟩ | ⟨_, hb₁⟩
    · rw [hc] at hb₁
      cases hb₁
      cases howned'
      refine ⟨_, by rw [get?_entered, if_pos rfl], rfl, fun hv => ?_⟩
      have hv' : conn.verdict = some (.status .granted) := by simpa [Conn.verdict] using hv
      exact absurd hv' (h.idle c conn hskip hc hrun (Or.inl howned))
    · obtain ⟨call, hget, hw, hg⟩ := h.lease b conn' key hskip hb₁ hrun howned' hterm'
      have hk : key ≠ request.key := by
        rintro rfl
        rw [Calls.get?_eq_none_iff.mpr hnew] at hget
        cases hget
      exact ⟨call, by rw [get?_entered, if_neg hk, hget], hw, hg⟩
  · intro b conn' hskip hb hrun hidle
    rcases updated_cases (getElem?_entered c b request queued_at s) hb with
      ⟨conn₁, rfl, hb₁, rfl⟩ | ⟨_, hb₁⟩
    · grind
    · exact h.idle b conn' hskip hb₁ hrun hidle

theorem ServiceInv.released (h : ServiceInv cfg s) (hc : s.conns[c]? = some conn)
    (howned : conn.owned = some key) : ServiceInv cfg (released c key s) := by
  refine ⟨fun key' call hget => ?_, fun b conn' hb hnone => ?_, pop_bound h.bound key⟩
  · rw [get?_released] at hget
    by_cases hk : key' = key
    · rw [if_pos hk] at hget; cases hget
    · rw [if_neg hk] at hget
      obtain ⟨conn', hc', ho', ht', hr'⟩ := h.owner key' call hget
      have hne : c ≠ call.writer := by grind
      exact ⟨conn', by rw [getElem?_released, hc', Option.map_some, if_neg hne], ho', ht', hr'⟩
  · rcases updated_cases (getElem?_released c b key s) hb with ⟨conn₁, rfl, hb₁, rfl⟩ | ⟨_, hb₁⟩
    · grind
    · exact h.started b conn' hb₁ hnone

/-- Releasing a key that no other connection uses. -/
theorem LeaseInv.released (h : LeaseInv skip s)
    (hown : ∀ call, s.calls.get? key = some call → call.writer = c) :
    LeaseInv skip (released c key s) := by
  constructor
  · intro b conn' key' hskip hb hrun howned hterm
    rcases updated_cases (getElem?_released c b key s) hb with
      ⟨conn₁, _, _, rfl⟩ | ⟨hcb, hb₁⟩
    · cases hterm
    · obtain ⟨call, hget, hw, hg⟩ := h.lease b conn' key' hskip hb₁ hrun howned hterm
      have hk : key' ≠ key := by grind
      exact ⟨call, by rw [get?_released, if_neg hk, hget], hw, hg⟩
  · intro b conn' hskip hb hrun hidle
    rcases updated_cases (getElem?_released c b key s) hb with
      ⟨conn₁, _, _, rfl⟩ | ⟨_, hb₁⟩
    · simp [Conn.verdict]
    · exact h.idle b conn' hskip hb₁ hrun hidle

/-! ## Replies -/

theorem ServiceInv.write (h : ServiceInv cfg s) (c : Nat) (reply : Reply) :
    ServiceInv cfg (s.write c reply) := by
  have hsame := sameHandlers_write s c reply
  refine ⟨fun key call hget => ?_, ?_, h.bound⟩
  · obtain ⟨conn, hc, ho, ht, hr⟩ := h.owner key call hget
    obtain ⟨conn', hc', ho', ht', hr'⟩ := hsame.get? hc
    exact ⟨conn', hc', ho'.trans ho, ht'.trans ht, hr'.trans hr⟩
  · grind [cases ServiceInv, hsame.symm.get?]

/-- A reply to `c`; `granted` only if the call of `c` is. -/
theorem LeaseInv.write (h : LeaseInv skip s) (c : Nat) (reply : Reply)
    (hreply : reply = .status .granted → ∃ conn key call, s.conns[c]? = some conn
      ∧ conn.owned = some key ∧ conn.terminal = false ∧ s.calls.get? key = some call
      ∧ call.state = .granted) : LeaseInv skip (s.write c reply) := by
  have hget : ∀ b, (s.write c reply).conns[b]? = (s.conns[b]?).map fun conn =>
      if c = b then { conn with replies := reply :: conn.replies } else conn :=
    fun b => getElem?_updateConn _ _ _ _
  -- being queued leaves the verdict as it was, any other reply is the new one
  have hverdict : ∀ conn : Conn, ({ conn with replies := reply :: conn.replies } : Conn).verdict
      = some (.status .granted) → conn.verdict = some (.status .granted)
        ∨ reply = .status .granted := by grind [Conn.verdict]
  constructor
  · intro b conn' key hskip hb hrun howned hterm
    rcases updated_cases (hget b) hb with ⟨conn₁, hcb, hb₁, rfl⟩ | ⟨_, hb₁⟩
    · obtain ⟨call, hcall, hw, hg⟩ := h.lease b conn₁ key hskip hb₁ hrun howned hterm
      refine ⟨call, hcall, hw, fun hv => ?_⟩
      rcases hverdict conn₁ hv with hv | hr
      · exact hg hv
      · grind
    · exact h.lease b conn' key hskip hb₁ hrun howned hterm
  · intro b conn' hskip hb hrun hidle
    rcases updated_cases (hget b) hb with ⟨conn₁, hcb, hb₁, rfl⟩ | ⟨_, hb₁⟩
    · intro hv
      rcases hverdict conn₁ hv with hv | hr
      · exact h.idle b conn₁ hskip hb₁ hrun hidle hv
      · grind
    · exact h.idle b conn' hskip hb₁ hrun hidle

/-! ## The end of a handler -/

theorem ServiceInv.pop (h : ServiceInv cfg s) (key : Identity) : ServiceInv cfg (s.pop key) := by
  refine ⟨fun key' call hget => ?_, h.started, pop_bound h.bound key⟩
  rw [System.pop, Calls.get?_erase] at hget
  by_cases hk : key' = key
  · rw [if_pos hk] at hget; cases hget
  · rw [if_neg hk] at hget
    exact h.owner key' call hget

/-- The handler of a connection without a call in the table ends. -/
theorem ServiceInv.stop (h : ServiceInv cfg s)
    (hno : ∀ key call, s.calls.get? key = some call → call.writer ≠ c) :
    ServiceInv cfg (s.updateConn c fun conn => { conn with running := false }) := by
  refine ⟨fun key call hget => ?_, ?_, h.bound⟩
  · obtain ⟨conn, hc, ho, ht, hr⟩ := h.owner key call hget
    exact ⟨conn, by rw [getElem?_updateConn, hc, Option.map_some,
      if_neg (Ne.symm (hno key call hget))], ho, ht, hr⟩
  · grind [getElem?_updateConn, cases ServiceInv]

theorem ServiceInv.owns (h : ServiceInv cfg s) {call : Call} (hget : s.calls.get? key = some call) :
    Owns s call.writer key := by
  obtain ⟨conn, hc, ho, ht, _⟩ := h.owner key call hget
  exact ⟨conn, hc, ho, ht⟩

theorem Owns.unique {key' : Identity} (h : Owns s c key) (h' : Owns s c key') : key = key' := by
  grind [Owns]

theorem ServiceInv.finish (h : ServiceInv cfg s) (c : Nat) (env : Env) :
    ServiceInv cfg (finish cfg c env s) := by
  rcases finish_cases cfg c env s with ⟨key, howns, heq⟩ | ⟨hnone, heq⟩
  · rw [heq]
    refine ((h.pop key).dispatch env).stop fun key' call hget hw => ?_
    -- the only call of `c` was taken out
    obtain ⟨call₀, hget₀, hw₀⟩ : ∃ call₀, (s.pop key).calls.get? key' = some call₀
        ∧ call₀.writer = c := by
      rcases dispatch_get? cfg env (s.pop key) key' with hsame | ⟨call₀, hget₀, hgranted⟩
      · exact ⟨call, hsame ▸ hget, hw⟩
      · grind
    rw [System.pop, Calls.get?_erase] at hget₀
    by_cases hk : key' = key
    · rw [if_pos hk] at hget₀; cases hget₀
    · rw [if_neg hk] at hget₀
      exact hk ((hw₀ ▸ h.owns hget₀).unique howns)
  · rw [heq]
    exact h.stop fun key call hget hw => hnone key (hw ▸ h.owns hget)

theorem ServiceInv.abort (h : ServiceInv cfg s) (c : Nat) (exn : Exn) (env : Env) :
    ServiceInv cfg (abort cfg c exn env s) := by
  unfold Admission.abort
  split
  · exact (h.write c .error).finish c env
  · exact h.finish c env

/-- Leases in a state in which every connection is spoken of. -/
abbrev AllLeases (s : System) : Prop := LeaseInv (fun _ => False) s

/-- A call under the key of a connection that has not released is that connection's. -/
theorem LeaseInv.writer_of_owns (h : AllLeases s) (howns : Owns s c key)
    (hrun : ∀ conn, s.conns[c]? = some conn → conn.running = true) {call : Call}
    (hget : s.calls.get? key = some call) : call.writer = c := by
  grind [Owns, cases LeaseInv]

theorem LeaseInv.stop (h : LeaseInv (fun b => b = c) s) :
    AllLeases (s.updateConn c fun conn => { conn with running := false }) := by
  constructor
  · intro b conn' key _ hb hrun howned hterm
    rcases updated_cases (getElem?_updateConn s c b _) hb with ⟨conn, _, _, rfl⟩ | ⟨hcb, hb'⟩
    · cases hrun
    · exact h.lease b conn' key (Ne.symm hcb) hb' hrun howned hterm
  · grind [getElem?_updateConn, cases LeaseInv]

theorem LeaseInv.finish (h : AllLeases s) (ho : ServiceInv cfg s)
    (hrun : ∀ conn, s.conns[c]? = some conn → conn.running = true) (env : Env) :
    AllLeases (finish cfg c env s) := by
  rcases finish_cases cfg c env s with ⟨key, howns, heq⟩ | ⟨_, heq⟩
  · rw [heq]
    have hpop : LeaseInv (fun b => b = c) (s.pop key) := by
      refine ⟨fun b conn key' hb hc hr ho' ht => ?_, fun b conn _ hc hr hidle =>
        h.idle b conn id hc hr hidle⟩
      obtain ⟨call, hget, hw, hg⟩ := h.lease b conn key' id hc hr ho' ht
      have hk : key' ≠ key := by
        rintro rfl
        exact hb (hw.symm.trans (h.writer_of_owns howns hrun hget))
      exact ⟨call, by rw [System.pop, Calls.get?_erase, if_neg hk, hget], hw, hg⟩
    exact (hpop.dispatch (ho.pop key) env).stop
  · rw [heq]
    exact LeaseInv.stop
      ⟨fun b conn key _ => h.lease b conn key id, fun b conn _ => h.idle b conn id⟩

theorem running_write (h : ∀ conn, s.conns[c]? = some conn → conn.running = true) (reply : Reply)
    (conn' : Conn) (hc : (s.write c reply).conns[c]? = some conn') : conn'.running = true := by
  obtain ⟨conn, hc', _, _, hr⟩ := (sameHandlers_write s c reply).symm.get? hc
  exact hr.symm.trans (h conn hc')

theorem LeaseInv.abort (h : AllLeases s) (ho : ServiceInv cfg s)
    (hrun : ∀ conn, s.conns[c]? = some conn → conn.running = true) (exn : Exn) (env : Env) :
    AllLeases (abort cfg c exn env s) := by
  unfold Admission.abort
  split
  · exact LeaseInv.finish (h.write c .error nofun) (ho.write c .error)
      (running_write hrun .error) env
  · exact h.finish ho hrun env

end CodexRouter.Admission
