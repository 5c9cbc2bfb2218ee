import CodexRouter.Admission.Dispatch

set_option autoImplicit false

/-! # The admission service: what a handler does with one line

`Handled` lists the ways through one round of `handle`, and `finish_cases` those through its
`finally` block. What a step keeps is proved from these, not from the code of the handler. A
dispatch writes replies to connections and changes nothing else of them (`SameHandlers`).
-/

namespace CodexRouter.Admission

open CodexRouter.Lib

/-! ## Connections -/

/-- The part of a connection that is its handler's own. -/
def Conn.handler (conn : Conn) : Option Identity × Bool × Bool :=
  (conn.owned, conn.terminal, conn.running)

def SameHandlers (s t : System) : Prop :=
  ∀ c : Nat, (t.conns[c]?).map Conn.handler = (s.conns[c]?).map Conn.handler

theorem SameHandlers.refl (s : System) : SameHandlers s s := fun _ => rfl

variable {s t : System} {c : Nat} {conn : Conn} {env : Env} {exn : Option Exn}

theorem SameHandlers.trans {u : System} (h : SameHandlers s t) (h' : SameHandlers t u) :
    SameHandlers s u :=
  fun c => (h' c).trans (h c)

theorem SameHandlers.symm (h : SameHandlers s t) : SameHandlers t s :=
  fun c => (h c).symm

theorem SameHandlers.get? (h : SameHandlers s t) (hc : s.conns[c]? = some conn) :
    ∃ conn', t.conns[c]? = some conn' ∧ conn'.owned = conn.owned
      ∧ conn'.terminal = conn.terminal ∧ conn'.running = conn.running := by
  grind [Conn.handler, SameHandlers]

theorem getElem?_updateConn (s : System) (c b : Nat) (f : Conn → Conn) :
    (s.updateConn c f).conns[b]?
      = (s.conns[b]?).map fun conn => if c = b then f conn else conn := by
  grind [System.updateConn]

/-- A connection after `c` was updated with `f`: it is `c`, or it is as before. -/
theorem updated_cases {l l' : List Conn} {b : Nat} {f : Conn → Conn} {conn' : Conn}
    (h : l'[b]? = (l[b]?).map fun conn => if c = b then f conn else conn)
    (hb : l'[b]? = some conn') :
    (∃ conn, c = b ∧ l[b]? = some conn ∧ conn' = f conn) ∨ c ≠ b ∧ l[b]? = some conn' := by
  grind

@[simp] theorem updateConn_calls (s : System) (c : Nat) (f : Conn → Conn) :
    (s.updateConn c f).calls = s.calls := rfl

theorem sameHandlers_write (s : System) (c : Nat) (reply : Reply) :
    SameHandlers s (s.write c reply) := by
  intro b
  rw [System.write, getElem?_updateConn]
  cases s.conns[b]? with
  | none => rfl
  | some conn => by_cases hcb : c = b <;> simp [hcb, Conn.handler]

theorem sameHandlers_foldl_grant (chosen : List Call) :
    ∀ s : System, SameHandlers s (chosen.foldl grant s) := by
  induction chosen with
  | nil => exact SameHandlers.refl
  | cons call chosen ih =>
    intro s
    have hgrant : SameHandlers s (grant s call) :=
      sameHandlers_write { s with calls := _ } call.writer _
    exact hgrant.trans (ih _)

theorem sameHandlers_dispatch (cfg : Config) (env : Env) (s : System) :
    SameHandlers s (dispatch cfg env s).1 := by
  obtain ⟨known, ⟨exn, hraise⟩ | ⟨waiting, _, hok⟩⟩ := dispatch_cases cfg env s
  · rw [hraise]; exact SameHandlers.refl s
  · rw [hok]; exact sameHandlers_foldl_grant _ { s with known := known }

/-! ## One round of the loop -/

variable {cfg : Config}

/-- The call that a line enters into the table. -/
def newCall (conn : Conn) (loads : Except Exn Json) (s : System) : Option Enqueue :=
  match loads with
  | .error _ => none
  | .ok message =>
    match operation message, parseEnqueue message, conn.owned with
    | .ok .enqueue, .ok request, none =>
      if s.calls.contains request.key ∨ 4096 ≤ s.calls.table.size then none else some request
    | _, _, _ => none

theorem newCall_eq_some {loads : Except Exn Json} {request : Enqueue}
    (h : newCall conn loads s = some request) :
    conn.owned = none ∧ s.calls.contains request.key = false ∧ s.calls.table.size < 4096
      ∧ ∃ message, loads = .ok message ∧ operation message = .ok .enqueue
        ∧ parseEnqueue message = .ok request := by
  unfold newCall at h
  split at h
  · cases h
  · next message =>
    split at h
    · next hop hrequest howned =>
      split at h
      · cases h
      · next hfree =>
        cases h
        rw [not_or, Bool.not_eq_true, Nat.not_le] at hfree
        exact ⟨howned, hfree.1, hfree.2, message, rfl, hop, hrequest⟩
    · cases h

theorem keyFor_isOk (env : Env) (known : Scores) (cwd : String) :
    (keyFor env known cwd).isOk = (env.resolve cwd).isOk := by
  rw [keyFor]
  cases env.resolve cwd <;> rfl

theorem handleMessage_newCall {message : Json} {request : Enqueue} {queued_at : ℚ}
    (h : newCall conn (.ok message) s = some request)
    (hd : dispatch cfg env (entered c request queued_at s) = (t, none))
    (hcwd : (env.resolve request.cwd).isOk = true) :
    handleMessage cfg c conn message queued_at env s = (t, none) := by
  obtain ⟨howned, hnew, hsize, _, ⟨⟩, hop, hrequest⟩ := newCall_eq_some h
  have hfree : ¬ (s.calls.contains request.key = true ∨ 4096 ≤ s.calls.table.size) := by
    simp [hnew, hsize]
  have hkey := keyFor_isOk env t.known request.cwd
  simp only [handleMessage, hop, hrequest, howned, enqueueNew, if_neg hfree, hd]
  -- the learner finds the directory that the dispatch has found
  split
  · next hraise =>
    rw [hraise, hcwd] at hkey
    cases hkey
  · rfl

/-- The ways through one round for connection `c` with record `conn`. -/
inductive Handled (cfg : Config) (c : Nat) (conn : Conn) (loads : Except Exn Json) (env : Env)
    (s : System) : System → Option Exn → Prop
  /-- The message is refused before it changes anything. -/
  | refused (exn : Exn) : Handled cfg c conn loads env s s (some exn)
  /-- The status of the connection's call is repeated. -/
  | again (key : Identity) (existing : Call) (howned : conn.owned = some key)
      (hterminal : conn.terminal = false) (hget : s.calls.get? key = some existing) :
      Handled cfg c conn loads env s (s.write c (.status existing.state)) none
  /-- A new call enters; the dispatch may raise. -/
  | enqueued (request : Enqueue) (queued_at : ℚ) (hcall : newCall conn loads s = some request)
      (t : System) (exn : Option Exn)
      (hd : dispatch cfg env (entered c request queued_at s) = (t, exn)) :
      Handled cfg c conn loads env s t exn
  /-- A new call enters and is dispatched, but its directory does not resolve for the learner. -/
  | unresolved (request : Enqueue) (queued_at : ℚ) (hcall : newCall conn loads s = some request)
      (hcwd : (env.resolve request.cwd).isOk = false) (t : System) (exn : Exn)
      (hd : dispatch cfg env (entered c request queued_at s) = (t, none)) :
      Handled cfg c conn loads env s t (some exn)
  /-- The key of the connection is released; the dispatch may raise. -/
  | released (message : Json) (hloads : loads = .ok message)
      (hop : operation message = .ok .cancelOrRelease) (key : Identity)
      (howned : conn.owned = some key) (t : System) (exn : Option Exn)
      (hd : dispatch cfg env (Admission.released c key s) = (t, exn)) :
      Handled cfg c conn loads env s t exn

/-- **Rule for a round**: what holds before it, once a call has entered and once a key is
released, and is kept by a repeated status and by a dispatch, holds after it. -/
theorem Handled.rule {loads : Except Exn Json} {P : System → Prop}
    (hh : Handled cfg c conn loads env s t exn) (hsame : P s)
    (hagain : ∀ key existing, conn.owned = some key → conn.terminal = false →
      s.calls.get? key = some existing → P (s.write c (.status existing.state)))
    (hentered : ∀ request queued_at, conn.owned = none → s.calls.contains request.key = false →
      P (entered c request queued_at s))
    (hreleased : ∀ message key, loads = .ok message → operation message = .ok .cancelOrRelease →
      conn.owned = some key → P (Admission.released c key s))
    (hdispatch : ∀ u, P u → P (dispatch cfg env u).1) : P t := by
  cases hh with
  | refused => exact hsame
  | again key existing howned hterm hget => exact hagain key existing howned hterm hget
  | enqueued request queued_at hcall _ _ hd
  | unresolved request queued_at hcall _ _ _ hd =>
    obtain ⟨howned, hnew, _⟩ := newCall_eq_some hcall
    have ht := hdispatch _ (hentered request queued_at howned hnew)
    rwa [hd] at ht
  | released message hloads hop key howned _ _ hd =>
    have ht := hdispatch _ (hreleased message key hloads hop howned)
    rwa [hd] at ht

theorem enqueueNew_handled {message : Json} {request : Enqueue} {queued_at : ℚ}
    (hop : operation message = .ok .enqueue) (hrequest : parseEnqueue message = .ok request)
    (howned : conn.owned = none) (h : enqueueNew cfg c request queued_at env s = (t, exn)) :
    Handled cfg c conn (.ok message) env s t exn := by
  rw [enqueueNew] at h
  by_cases hbusy : s.calls.contains request.key = true ∨ 4096 ≤ s.calls.table.size
  · rw [if_pos hbusy] at h
    cases h
    exact .refused _
  · rw [if_neg hbusy] at h
    have hcall : newCall conn (.ok message) s = some request := by
      simp only [newCall, hop, hrequest, howned, if_neg hbusy]
    rcases hd : dispatch cfg env (entered c request queued_at s) with ⟨u, _ | exn'⟩
    · simp only [hd] at h
      have hkey := keyFor_isOk env u.known request.cwd
      split at h
      · next hraise =>
        rw [hraise] at hkey
        cases h
        exact .unresolved request queued_at hcall hkey.symm _ _ hd
      · cases h; exact .enqueued request queued_at hcall _ _ hd
    · simp only [hd] at h
      cases h
      exact .enqueued request queued_at hcall _ _ hd

theorem enqueueAgain_handled {loads : Except Exn Json} {key : Identity}
    (howned : conn.owned = some key) {request : Enqueue}
    (h : enqueueAgain c conn key request s = (t, exn)) : Handled cfg c conn loads env s t exn := by
  rw [enqueueAgain] at h
  by_cases hkey : request.key ≠ key ∨ conn.terminal = true
  · rw [if_pos hkey] at h
    cases h
    exact .refused _
  · rw [if_neg hkey] at h
    rw [not_or, not_not, Bool.not_eq_true] at hkey
    rw [hkey.1] at h
    cases hget : s.calls.get? key with
    | none => rw [hget] at h; cases h; exact .refused _
    | some existing =>
      simp only [hget] at h
      split at h
      · cases h; exact .refused _
      · cases h; exact .again key existing howned hkey.2 hget

/-- Every round is one of the ways. -/
theorem handleMessage_handled {message : Json} {queued_at : ℚ}
    (h : handleMessage cfg c conn message queued_at env s = (t, exn)) :
    Handled cfg c conn (.ok message) env s t exn := by
  unfold handleMessage at h
  split at h
  · cases h; exact .refused _
  · next hop =>
    split at h
    · cases h; exact .refused _
    · next request hrequest =>
      split at h
      · next key howned => exact enqueueAgain_handled howned h
      · next howned => exact enqueueNew_handled hop hrequest howned h
  · split at h
    · rename_i hop _ key howned; exact .released message rfl hop key howned t exn h
    · cases h; exact .refused _
  · cases h; exact .refused _

/-! ## The end of a handler -/

/-- The connection has a call that it has not released. -/
def Owns (s : System) (c : Nat) (key : Identity) : Prop :=
  ∃ conn, s.conns[c]? = some conn ∧ conn.owned = some key ∧ conn.terminal = false

theorem owns_of_sameHandlers (h : SameHandlers s t) {key : Identity} :
    Owns t c key → Owns s c key := by
  grind [Owns, h.symm.get?]

/-- The `finally` block drops the call of a connection that has one, and dispatches. -/
theorem finish_cases (cfg : Config) (c : Nat) (env : Env) (s : System) :
    (∃ key, Owns s c key ∧ finish cfg c env s
      = (dispatch cfg env (s.pop key)).1.updateConn c fun conn => { conn with running := false })
    ∨ (∀ key, ¬ Owns s c key) ∧ finish cfg c env s
      = s.updateConn c fun conn => { conn with running := false } := by
  unfold finish
  cases hc : s.conns[c]? with
  | none => exact Or.inr ⟨fun key ⟨conn, hconn, _⟩ => (by rw [hc] at hconn; cases hconn), rfl⟩
  | some conn => grind [Owns]

/-! ## Steps -/

/-- The transitions of the service. -/
inductive StepCase (cfg : Config) (s : System) : Event → System → Prop
  | connect : StepCase cfg s .connect { s with conns := s.conns ++ [Conn.init] }
  | dispatch (env : Env) : StepCase cfg s (.dispatch env) (dispatch cfg env s).1
  /-- A line is handled, and the handler goes on. -/
  | handled (c : Nat) (loads : Except Exn Json) (queued_at : ℚ) (env env' : Env) (conn : Conn)
      (hc : s.conns[c]? = some conn) (hrun : conn.running = true) (t : System)
      (h : Handled cfg c conn loads env s t none) :
      StepCase cfg s (.line c loads queued_at env env') t
  /-- A line makes the handler raise. -/
  | aborted (c : Nat) (loads : Except Exn Json) (queued_at : ℚ) (env env' : Env) (conn : Conn)
      (hc : s.conns[c]? = some conn) (hrun : conn.running = true) (u : System) (exn : Exn)
      (h : Handled cfg c conn loads env s u (some exn)) :
      StepCase cfg s (.line c loads queued_at env env') (abort cfg c exn env' u)
  | eof (c : Nat) (env : Env) (conn : Conn) (hc : s.conns[c]? = some conn)
      (hrun : conn.running = true) : StepCase cfg s (.eof c env) (finish cfg c env s)
  | fail (c : Nat) (exn : Exn) (env : Env) (conn : Conn) (hc : s.conns[c]? = some conn)
      (hrun : conn.running = true) : StepCase cfg s (.fail c exn env) (abort cfg c exn env s)

theorem handleLine_case (loads : Except Exn Json) (queued_at : ℚ) (env env' : Env)
    (hc : s.conns[c]? = some conn) (hrun : conn.running = true) :
    StepCase cfg s (.line c loads queued_at env env')
      (handleLine cfg c conn loads queued_at env env' s) := by
  unfold handleLine
  cases loads with
  | error exn => exact .aborted c _ _ env env' conn hc hrun s exn (.refused exn)
  | ok message =>
    rcases hm : handleMessage cfg c conn message queued_at env s with ⟨t, _ | exn⟩
    · simp only [hm]
      exact .handled c _ _ env env' conn hc hrun t (handleMessage_handled hm)
    · simp only [hm]
      exact .aborted c _ _ env env' conn hc hrun t exn (handleMessage_handled hm)

/-- Every step is one of the transitions. -/
theorem step_case {e : Event} (hs : step cfg s e = some t) : StepCase cfg s e t := by
  cases e with
  | connect => cases hs; exact .connect
  | dispatch env => cases hs; exact .dispatch env
  | line c loads queued_at env env' =>
    simp only [step] at hs
    split at hs
    · rename_i conn hc
      split at hs
      · rename_i hrun; cases hs; exact handleLine_case loads queued_at env env' hc hrun
      · cases hs
    · cases hs
  | eof c env =>
    simp only [step] at hs
    split at hs
    · rename_i conn hc
      split at hs
      · rename_i hrun; cases hs; exact .eof c env conn hc hrun
      · cases hs
    · cases hs
  | fail c exn env =>
    simp only [step] at hs
    split at hs
    · rename_i conn hc
      split at hs
      · rename_i hrun; cases hs; exact .fail c exn env conn hc hrun
      · cases hs
    · cases hs

end CodexRouter.Admission
