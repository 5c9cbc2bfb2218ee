import CodexRouter.Admission.Handler

set_option autoImplicit false

/-! # The admission service: no slot idle, none given twice

Every path through a handler that changes the table ends in a dispatch. As long as no dispatch
raises, the table is `Settled` after every step. A dispatch raises when the snapshot file makes
`refresh` raise what its `except` clause does not name, or when the directory of a waiting call
does not resolve; after a `release` nothing makes up for it, since the `finally` block leaves a
connection alone that has released.
-/

namespace CodexRouter.Admission

open CodexRouter.Lib

/-- The granted calls fit into the slots, and a call waits only while all slots are taken. -/
structure Settled (cfg : Config) (calls : Calls) : Prop where
  bound : calls.granted ≤ cfg.slots
  full : calls.queued ≠ [] → calls.granted = cfg.slots

variable {cfg : Config}

/-! ## Queued calls come from queued calls -/

/-- Every queued call of `t` is a queued call of `s`. -/
def QueuedFrom (s t : System) : Prop := ∀ call ∈ t.calls.queued, call ∈ s.calls.queued

variable {s t : System} {c : Nat} {request : Enqueue} {queued_at : ℚ} {call : Call} {env : Env}
  {conn : Conn} {loads : Except Exn Json} {e : Event}

theorem QueuedFrom.trans {u : System} (h : QueuedFrom s t) (h' : QueuedFrom t u) : QueuedFrom s u :=
  fun call hc => h call (h' call hc)

theorem queuedFrom_pop (s : System) (key : Identity) : QueuedFrom s (s.pop key) := by
  intro call hc
  obtain ⟨hget, hq⟩ := Calls.mem_queued.mp hc
  rw [System.pop, Calls.get?_erase] at hget
  by_cases hk : call.identity = key
  · rw [if_pos hk] at hget; cases hget
  · rw [if_neg hk] at hget
    exact Calls.mem_queued.mpr ⟨hget, hq⟩

theorem queuedFrom_dispatch (cfg : Config) (env : Env) (s : System) :
    QueuedFrom s (dispatch cfg env s).1 := by
  intro call hc
  rcases hd : dispatch cfg env s with ⟨t, _ | exn⟩
  · rw [hd] at hc
    obtain ⟨hget, hq⟩ := Calls.mem_queued.mp hc
    rcases (dispatch_servesFirst hd).change call.identity with hsame | ⟨call', _, _, hgranted⟩
    · exact Calls.mem_queued.mpr ⟨hsame ▸ hget, hq⟩
    · grind
  · rw [hd] at hc
    rwa [← (dispatch_raises hd).1]

theorem queuedFrom_finish (c : Nat) (env : Env) (s : System) :
    QueuedFrom s (finish cfg c env s) := by
  rcases finish_cases cfg c env s with ⟨key, _, heq⟩ | ⟨_, heq⟩
  · rw [heq]
    exact (queuedFrom_pop s key).trans (queuedFrom_dispatch cfg env (s.pop key))
  · rw [heq]
    exact fun call hc => hc

/-- The calls queued after a new one has entered. -/
theorem mem_queued_entered (hc : call ∈ (entered c request queued_at s).calls.queued) :
    call = ⟨request.key, request.cwd, request.tool, c, queued_at, .queued⟩
      ∨ call ∈ s.calls.queued := by
  obtain ⟨hget, hq⟩ := Calls.mem_queued.mp hc
  have hget' : (s.calls.insert
      ⟨request.key, request.cwd, request.tool, c, queued_at, .queued⟩).get? call.identity
      = some call := hget
  rw [Calls.get?_insert] at hget'
  split at hget'
  · exact Or.inl (Option.some.inj hget').symm
  · exact Or.inr (Calls.mem_queued.mpr ⟨hget', hq⟩)

/-! ## Dispatching -/

section

variable (hb : s.calls.granted ≤ cfg.slots)

include hb

theorem dispatch_settled (h : dispatch cfg env s = (t, none)) :
    Settled cfg t.calls := by
  have hs := dispatch_servesFirst h
  have hcount := hs.count
  have hsize := hs.size
  rw [← Calls.queued_add_granted, ← Calls.queued_add_granted] at hsize
  refine ⟨by omega, fun hne => ?_⟩
  have hpos := List.length_pos_iff.mpr hne
  omega

theorem dispatch_bound (env : Env) :
    (dispatch cfg env s).1.calls.granted ≤ cfg.slots := by
  rcases hd : dispatch cfg env s with ⟨t, _ | exn⟩
  · exact (dispatch_settled hb hd).bound
  · rw [(dispatch_raises hd).1]; exact hb

theorem pop_bound (key : Identity) :
    (s.pop key).calls.granted ≤ cfg.slots :=
  le_trans (Calls.granted_erase_le _ _) hb

theorem entered_bound (hnew : s.calls.contains request.key = false) :
    (entered c request queued_at s).calls.granted ≤ cfg.slots :=
  (Calls.granted_insert_queued
    ⟨request.key, request.cwd, request.tool, c, queued_at, .queued⟩ hnew rfl).trans_le hb

end

/-- A dispatch in `env` raises nothing. -/
def Env.Clean (cfg : Config) (env : Env) (calls : Calls) : Prop :=
  env.Readable cfg ∧ env.Resolves calls

instance (env : Env) (calls : Calls) : Decidable (env.Clean cfg calls) := by
  unfold Env.Clean; infer_instance

theorem Env.Clean.mono (h : env.Clean cfg s.calls) (hq : QueuedFrom s t) : env.Clean cfg t.calls :=
  ⟨h.1, fun call hc => h.2 call (hq call hc)⟩

theorem Env.Clean.entered (c : Nat) (queued_at : ℚ) (h : env.Clean cfg s.calls)
    (hcwd : (env.resolve request.cwd).isOk = true) :
    env.Clean cfg (entered c request queued_at s).calls := by
  refine ⟨h.1, fun call hq => ?_⟩
  rcases mem_queued_entered hq with rfl | hmem
  · exact hcwd
  · exact h.2 call hmem

/-- In a clean environment a dispatch returns. -/
theorem Env.Clean.returns (h : env.Clean cfg s.calls) :
    ∃ t, dispatch cfg env s = (t, none) ∧ ServesFirst cfg env s t := by
  obtain ⟨t, hd⟩ := dispatch_ok h.1 h.2
  exact ⟨t, hd, dispatch_servesFirst hd⟩

theorem Env.Clean.dispatch_settled (h : env.Clean cfg s.calls) (hb : s.calls.granted ≤ cfg.slots) :
    Settled cfg (dispatch cfg env s).1.calls := by
  obtain ⟨t, hd, _⟩ := h.returns
  rw [hd]
  exact Admission.dispatch_settled hb hd

/-! ## Steps -/

/-- No dispatch of the step raises: `refresh` lets nothing through, and the directories of the
waiting calls resolve, that of a new call included. -/
def clean (cfg : Config) (s : System) : Event → Prop
  | .connect => True
  | .line c loads _ env env' => env.Clean cfg s.calls ∧ env'.Clean cfg s.calls
      ∧ ∀ conn ∈ s.conns[c]?, ∀ request ∈ newCall conn loads s,
        (env.resolve request.cwd).isOk = true
  | .eof _ env | .fail _ _ env | .dispatch env => env.Clean cfg s.calls

instance (s : System) (e : Event) : Decidable (clean cfg s e) := by
  cases e <;> unfold clean <;> infer_instance

section

variable (h : Settled cfg s.calls) (hclean : env.Clean cfg s.calls)

include h hclean

theorem finish_settled (c : Nat) : Settled cfg (finish cfg c env s).calls := by
  rcases finish_cases cfg c env s with ⟨key, _, heq⟩ | ⟨_, heq⟩
  · rw [heq]
    exact (hclean.mono (queuedFrom_pop s key)).dispatch_settled (pop_bound h.bound key)
  · rw [heq]
    exact h

theorem abort_settled (c : Nat) (exn : Exn) : Settled cfg (abort cfg c exn env s).calls := by
  unfold abort
  split
  · exact finish_settled (s := s.write c .error) h hclean c
  · exact finish_settled h hclean c

end

theorem handled_settled (h : Settled cfg s.calls) (hh : Handled cfg c conn loads env s t none) :
    Settled cfg t.calls := by
  cases hh with
  | again key existing howned hterm hget => exact h
  | enqueued request queued_at hcall _ _ hd =>
    exact dispatch_settled (entered_bound h.bound (newCall_eq_some hcall).2.1) hd
  | released _ _ _ key howned _ _ hd =>
    exact dispatch_settled (s := released c key s) (pop_bound h.bound key) hd

/-- In a clean environment a round raises only before it has changed anything. -/
theorem Handled.eq_of_raises {exn : Exn} (hh : Handled cfg c conn loads env s t (some exn))
    (hclean : env.Clean cfg s.calls)
    (hnew : ∀ request ∈ newCall conn loads s, (env.resolve request.cwd).isOk = true) : t = s := by
  cases hh with
  | refused => rfl
  | enqueued request queued_at hcall _ _ hd =>
    obtain ⟨u, hok, _⟩ := (hclean.entered c queued_at (hnew request hcall)).returns
    rw [hok] at hd
    cases hd
  | unresolved request queued_at hcall hcwd =>
    rw [hnew request hcall] at hcwd
    cases hcwd
  | released _ _ _ key howned _ _ hd =>
    obtain ⟨u, hok, _⟩ :=
      Env.Clean.returns (s := Admission.released c key s) (hclean.mono (queuedFrom_pop s key))
    rw [hok] at hd
    cases hd

theorem step_settled (h : Settled cfg s.calls) (hclean : clean cfg s e)
    (hstep : step cfg s e = some t) : Settled cfg t.calls := by
  cases step_case hstep with
  | connect => exact h
  | dispatch env => exact hclean.dispatch_settled h.bound
  | handled c loads queued_at env env' conn hc hrun _ hh => exact handled_settled h hh
  | aborted c loads queued_at env env' conn hc hrun u exn hh =>
    obtain rfl := hh.eq_of_raises hclean.1 (hclean.2.2 conn hc)
    exact abort_settled h hclean.2.1 c exn
  | eof c env => exact finish_settled h hclean c
  | fail c exn env => exact abort_settled h hclean c exn

/-! ## The dispatches of a step -/

/-- What `handle` tells the connection about an exception. -/
def told (c : Nat) (exn : Exn) (s : System) : System :=
  if exn.caughtByHandle then s.write c .error else s

@[simp] theorem told_calls (c : Nat) (exn : Exn) (s : System) : (told c exn s).calls = s.calls := by
  unfold told
  split <;> rfl

/-- The handler of `c` ends in the step; its `finally` block finds an environment and a state. -/
inductive Ends (cfg : Config) (s : System) : Event → Nat → Env → System → Prop
  | eof (c : Nat) (env : Env) : Ends cfg s (.eof c env) c env s
  | fail (c : Nat) (exn : Exn) (env : Env) : Ends cfg s (.fail c exn env) c env (told c exn s)
  | unread (c : Nat) (exn : Exn) (queued_at : ℚ) (env env' : Env) :
      Ends cfg s (.line c (.error exn) queued_at env env') c env' (told c exn s)
  | raised (c : Nat) (message : Json) (queued_at : ℚ) (env env' : Env) (conn : Conn)
      (hc : s.conns[c]? = some conn) (u : System) (exn : Exn)
      (h : handleMessage cfg c conn message queued_at env s = (u, some exn)) :
      Ends cfg s (.line c (.ok message) queued_at env env') c env' (told c exn u)

/-- The step calls `dispatch`, in an environment and on a state. -/
inductive Dispatches (cfg : Config) (s : System) : Event → Env → System → Prop
  | outside (env : Env) : Dispatches cfg s (.dispatch env) env s
  | enqueue (c : Nat) (loads : Except Exn Json) (queued_at : ℚ) (env env' : Env) (conn : Conn)
      (hc : s.conns[c]? = some conn) (request : Enqueue)
      (hcall : newCall conn loads s = some request) :
      Dispatches cfg s (.line c loads queued_at env env') env (entered c request queued_at s)
  | release (c : Nat) (message : Json) (queued_at : ℚ) (env env' : Env) (conn : Conn)
      (hc : s.conns[c]? = some conn) (hop : operation message = .ok .cancelOrRelease)
      (key : Identity) (howned : conn.owned = some key) :
      Dispatches cfg s (.line c (.ok message) queued_at env env') env (released c key s)
  | finish (e : Event) (c : Nat) (env : Env) (u : System) (hends : Ends cfg s e c env u)
      (key : Identity) (howns : Owns u c key) : Dispatches cfg s e env (u.pop key)

theorem step_line {queued_at : ℚ} {env' : Env} (hc : s.conns[c]? = some conn)
    (hs : step cfg s (.line c loads queued_at env env') = some t) :
    t = handleLine cfg c conn loads queued_at env env' s := by
  simp only [step, hc] at hs
  split at hs
  · exact (Option.some.inj hs).symm
  · cases hs

theorem Ends.step {u : System} (h : Ends cfg s e c env u) (hs : step cfg s e = some t) :
    t = finish cfg c env u := by
  cases h with
  | eof => cases step_case hs; rfl
  | fail => cases step_case hs; rfl
  | unread c exn queued_at env =>
    simp only [Admission.step] at hs
    split at hs
    · split at hs
      · exact (Option.some.inj hs).symm
      · cases hs
    · cases hs
  | raised c message queued_at env _ conn hc u exn hraise =>
    rw [step_line hc hs, handleLine, hraise]
    rfl

theorem Ends.clean {u : System} (h : Ends cfg s e c env u) (hclean : clean cfg s e) :
    env.Clean cfg u.calls := by
  cases h with
  | eof => exact hclean
  | fail c exn => rw [told_calls]; exact hclean
  | unread c exn queued_at env => rw [told_calls]; exact hclean.2.1
  | raised c message queued_at env _ conn hc u exn hraise =>
    obtain rfl := (handleMessage_handled hraise).eq_of_raises hclean.1 (hclean.2.2 conn hc)
    rw [told_calls]
    exact hclean.2.1

/-- Every dispatch of a clean step returns, and its table is the table after the step. -/
theorem Dispatches.returns {u : System} (h : Dispatches cfg s e env u) (hclean : clean cfg s e)
    (hs : step cfg s e = some t) :
    ∃ v, dispatch cfg env u = (v, none) ∧ ServesFirst cfg env u v ∧ t.calls = v.calls := by
  cases h with
  | outside =>
    obtain ⟨v, hd, hserves⟩ := Env.Clean.returns hclean
    refine ⟨v, hd, hserves, ?_⟩
    cases hs
    rw [hd]
  | enqueue c loads queued_at _ env' conn hc request hcall =>
    have hcwd := hclean.2.2 conn hc request hcall
    obtain ⟨v, hd, hserves⟩ := (hclean.1.entered c queued_at hcwd).returns
    refine ⟨v, hd, hserves, ?_⟩
    obtain ⟨_, _, _, message, rfl, _⟩ := newCall_eq_some hcall
    rw [step_line hc hs, handleLine, handleMessage_newCall hcall hd hcwd]
  | release c message queued_at _ env' conn hc hop key howned =>
    obtain ⟨v, hd, hserves⟩ :=
      Env.Clean.returns (s := released c key s) (hclean.1.mono (queuedFrom_pop s key))
    refine ⟨v, hd, hserves, ?_⟩
    rw [step_line hc hs, handleLine, handleMessage, hop]
    simp only [howned, hd]
  | finish _ c env u hends key howns =>
    obtain ⟨v, hd, hserves⟩ :=
      Env.Clean.returns (s := u.pop key) ((hends.clean hclean).mono (queuedFrom_pop u key))
    refine ⟨v, hd, hserves, ?_⟩
    rw [hends.step hs]
    rcases finish_cases cfg c env u with ⟨key', howns', heq⟩ | ⟨hnone, _⟩
    · obtain rfl : key' = key := by grind [Owns]
      rw [heq, hd]
      rfl
    · exact absurd howns (hnone key)

/-! ## Granted calls -/

theorem queuedFrom_abort (c : Nat) (exn : Exn) (env : Env) (s : System) :
    QueuedFrom s (abort cfg c exn env s) := by
  unfold abort
  split
  · exact queuedFrom_finish c env (s.write c .error)
  · exact queuedFrom_finish c env s

/-- A call that is queued after a message was queued before, or its identity is new. -/
theorem Handled.queued {exn : Option Exn} (hh : Handled cfg c conn loads env s t exn) :
    call ∈ t.calls.queued → s.calls.contains call.identity = false ∨ call ∈ s.calls.queued := by
  refine hh.rule (P := fun t => call ∈ t.calls.queued → _) Or.inr (fun _ _ _ _ _ => Or.inr) ?_
    (fun _ key _ _ _ hq => Or.inr (queuedFrom_pop s key call hq))
    fun u hu hq => hu (queuedFrom_dispatch cfg env u call hq)
  intro request queued_at _ hnew hq
  rcases mem_queued_entered hq with rfl | hmem
  · exact Or.inl hnew
  · exact Or.inr hmem

/-- A granted call is never queued again. -/
theorem step_keeps_granted (hs : step cfg s e = some t) {key : Identity} {call' : Call}
    (hget : s.calls.get? key = some call) (hgranted : call.state = .granted)
    (hget' : t.calls.get? key = some call') : call'.state = .granted := by
  have hfrom : ∀ call ∈ t.calls.queued,
      s.calls.contains call.identity = false ∨ call ∈ s.calls.queued := by
    cases step_case hs with
    | connect => exact fun _ hq => Or.inr hq
    | dispatch env => exact fun call hq => Or.inr (queuedFrom_dispatch cfg env s call hq)
    | handled c _ _ env env' conn hc _ _ hh => exact fun _ hq => hh.queued hq
    | aborted c _ _ env env' conn hc _ u exn hh =>
      exact fun call hq => hh.queued (queuedFrom_abort c exn env' u call hq)
    | eof c env => exact fun call hq => Or.inr (queuedFrom_finish c env s call hq)
    | fail c exn env => exact fun call hq => Or.inr (queuedFrom_abort c exn env s call hq)
  cases hstate : call'.state with
  | granted => rfl
  | queued =>
    have hid := Calls.identity_of_get? hget'
    rcases hfrom call' (Calls.mem_queued.mpr ⟨hid.symm ▸ hget', hstate⟩) with hnew | hq
    · rw [← hid, Calls.get?_eq_none_iff.mpr hnew] at hget
      cases hget
    · grind [Calls.mem_queued]

/-! ## Runs -/

/-- **No slot idle, none given twice.** In every run of clean steps, after every step at most
`slots` calls are granted, and exactly `slots` while a call waits; no step puts a granted call
back into the queue; and every dispatch of a clean step returns, gives the free slots to the
waiting calls of highest score plus aging, the earlier arrival first, and leaves the table that
the step leaves. -/
theorem run_settled (cfg : Config) (es : List Event) (s : System)
    (hclean : Along (step cfg) (clean cfg) System.init es)
    (hr : run (step cfg) System.init es = some s) :
    s.calls.granted ≤ cfg.slots ∧ (s.calls.queued ≠ [] → s.calls.granted = cfg.slots)
    ∧ (∀ e t, step cfg s e = some t → ∀ key call call', s.calls.get? key = some call →
        call.state = .granted → t.calls.get? key = some call' → call'.state = .granted)
    ∧ ∀ e t, step cfg s e = some t → clean cfg s e → ∀ env u, Dispatches cfg s e env u →
        ∃ v, dispatch cfg env u = (v, none) ∧ ServesFirst cfg env u v ∧ t.calls = v.calls := by
  have hinit : Settled cfg System.init.calls := ⟨Nat.zero_le _, fun hne => absurd rfl hne⟩
  have hset : Settled cfg s.calls := run_invariant (P := fun s => Settled cfg s.calls)
    (fun s e t h hc hs => step_settled h hc hs) es System.init s hinit hclean hr
  refine ⟨hset.bound, hset.full, ?_, ?_⟩
  · exact fun e t hs key call call' hget hg hget' => step_keeps_granted hs hget hg hget'
  · exact fun e t hs hc env u hd => hd.returns hc hs

/-! ## A snapshot nested too deep -/

/-- One slot, no aging, a configured snapshot. -/
def oneSlot : Config := ⟨1, 0, true, le_refl 1, le_refl 0⟩

/-- A missing snapshot, every directory its own path. -/
def noSnapshot (now : ℚ) : Env := ⟨.error .osError, fun cwd => .ok [cwd], now⟩

/-- A snapshot file of 100000 opening brackets. -/
def deepSnapshot (now : ℚ) : Env :=
  ⟨.ok ⟨100000, .error .recursionError⟩, fun cwd => .ok [cwd], now⟩

def enqueueMessage (client_id : String) : Json :=
  .obj [("op", .str "enqueue"), ("client_id", .str client_id), ("thread_id", .str "thread"),
    ("turn_id", .str "turn"), ("call_id", .str "call"), ("cwd", .str "/repo"),
    ("tool", .str "shell")]

def releaseMessage : Json := .obj [("op", .str "release")]

/-- Two connections enqueue a call each; the first is granted. -/
def twoCalls : List Event :=
  [.connect, .connect, .line 0 (.ok (enqueueMessage "a")) 0 (noSnapshot 0) (noSnapshot 0),
    .line 1 (.ok (enqueueMessage "b")) 1 (noSnapshot 1) (noSnapshot 1)]

/-- The first connection releases its call. -/
def firstReleased : Event := .line 0 (.ok releaseMessage) 2 (noSnapshot 2) (noSnapshot 2)

theorem run_settled_twoCalls :
    ∃ s t v, run (step oneSlot) System.init twoCalls = some s ∧ s.calls.queued ≠ []
      ∧ s.calls.granted ≤ 1 ∧ (s.calls.queued ≠ [] → s.calls.granted = 1)
      ∧ step oneSlot s firstReleased = some t
      ∧ dispatch oneSlot (noSnapshot 2) (released 0 ⟨"a", "thread", "turn", "call"⟩ s) = (v, none)
      ∧ v.calls.granted = 1 ∧ t.calls = v.calls := by
  have h := run_settled oneSlot twoCalls _ (by decide +kernel) rfl
  obtain ⟨v, hd, _, hcalls⟩ := h.2.2.2 firstReleased _ rfl (by decide +kernel) _ _
    (.release 0 _ 2 _ _ _ rfl rfl _ rfl)
  refine ⟨_, _, v, rfl, ?_, h.1, h.2.1, rfl, hd, ?_, hcalls⟩
  · exact fun h => absurd (congrArg List.length h) (by decide +kernel)
  · rw [← hcalls]
    decide +kernel

/-- The first call is released while the snapshot is nested too deep: the slot stays free
although the second call waits. -/
theorem deepSnapshot_idles_slot :
    (run (step oneSlot) System.init
        (twoCalls ++ [.line 0 (.ok releaseMessage) 2 (deepSnapshot 2) (deepSnapshot 2)])).map
      (fun s => (s.calls.granted, s.calls.queued.length)) = some (0, 1) := by
  decide +kernel

end CodexRouter.Admission
