import CodexRouter.Lib.Run
import CodexRouter.Lib.Table

set_option autoImplicit false

/-! # The registry of sessions

`attach` and the expiry of a detached session work under the lock of the registry, `detach` only
under the lock of its session. The call that holds the lock of the registry stands at a point
between two uses of other locks or of the clock; in between, a session may be detached and time
may pass. A timer started by a `detach` runs on after the session was attached again.
-/

namespace CodexRouter.ExecServer

open Lib

abbrev SessionId := String
abbrev ConnectionId := Nat

/-- In milliseconds. -/
def detachedSessionTtl : Nat := 30000

/-! ## One session -/

structure AttachmentState where
  currentConnectionId : Option ConnectionId
  detachedConnectionId : Option ConnectionId
  detachedExpiresAt : Option Nat
deriving DecidableEq

/-- `notifications` is the connection that the process handler sends to. -/
structure SessionEntry where
  notifications : Option ConnectionId
  attachment : AttachmentState
deriving DecidableEq

namespace SessionEntry

variable (entry : SessionEntry) (connectionId : ConnectionId) (now : Nat)

def new : SessionEntry :=
  ⟨some connectionId, ⟨some connectionId, none, none⟩⟩

def setNotificationSender (notifications : Option ConnectionId) : SessionEntry :=
  { entry with notifications := notifications }

def attach : SessionEntry :=
  { entry with attachment := ⟨some connectionId, none, none⟩ }

/-- The entry after a `detach` that returns `true`. -/
def detach : Option SessionEntry :=
  if entry.attachment.currentConnectionId ≠ some connectionId then none
  else some { entry.setNotificationSender none with
    attachment := ⟨none, some connectionId, some (now + detachedSessionTtl)⟩ }

def hasActiveConnection : Bool :=
  entry.attachment.currentConnectionId.isSome

/-- `is_some_and(|deadline| now >= deadline)` -/
def deadlinePassed (deadline : Option Nat) (now : Nat) : Bool :=
  deadline.any fun deadline => deadline ≤ now

def isExpired : Bool :=
  deadlinePassed entry.attachment.detachedExpiresAt now

def isDetachedConnectionExpired : Bool :=
  entry.attachment.currentConnectionId.isNone
    && entry.attachment.detachedConnectionId == some connectionId
    && deadlinePassed entry.attachment.detachedExpiresAt now

end SessionEntry

/-! ## The registry -/

/-- Where the call that holds the lock of the registry stands. -/
inductive Held
  -- attach
  | resuming (sessionId : SessionId) (connectionId : ConnectionId)
  | checkingExpired (sessionId : SessionId) (connectionId : ConnectionId) (now : Nat)
  | removingExpired (sessionId : SessionId)
  | checkingActive (sessionId : SessionId) (connectionId : ConnectionId)
  | settingSender (sessionId : SessionId) (connectionId : ConnectionId)
  | attaching (sessionId : SessionId) (connectionId : ConnectionId)
  -- expire_if_detached
  | expiring (sessionId : SessionId) (connectionId : ConnectionId)
  | checkingDetached (sessionId : SessionId) (connectionId : ConnectionId) (now : Nat)
  | removingDetached (sessionId : SessionId)
deriving DecidableEq

/-- A task of `expire_if_detached` before it takes the lock; it sleeps from its first poll on. -/
structure ExpiryTimer where
  sessionId : SessionId
  connectionId : ConnectionId
  sleepsUntil : Option Nat
deriving DecidableEq

inductive AttachError
  | invalidRequest (message : String)
  | sessionAlreadyAttached (message : String)
deriving DecidableEq

structure SessionHandle where
  sessionId : SessionId
  connectionId : ConnectionId
deriving DecidableEq

structure SessionRegistry where
  clock : Nat
  -- the sessions in the registry; a handle keeps its entry when the session has left
  sessions : List SessionId
  entries : Table SessionId SessionEntry
  held : Option Held
  timers : List ExpiryTimer
  -- the connection ids drawn so far
  drawn : List ConnectionId
  -- the connections that were attached and have not called `detach` since
  attached : List SessionHandle
  replies : List (Except AttachError SessionHandle)

namespace SessionRegistry

def new (clock : Nat) : SessionRegistry := ⟨clock, [], .empty, none, [], [], [], []⟩

inductive Event
  | tick (elapsed : Nat)
  -- a call of `attach` gets the lock; `sessionId` is the id that a new session would get
  | attach (resumeSessionId : Option SessionId) (connectionId : ConnectionId)
    (sessionId : SessionId)
  -- the call that holds the lock goes on
  | advance
  | detach (handle : SessionHandle)
  | poll (timer : Nat)
  -- a timer that has slept long enough gets the lock
  | expire (timer : Nat)

def unknownSessionId (sessionId : SessionId) : AttachError :=
  .invalidRequest ("unknown session id " ++ sessionId)

def alreadyAttached (sessionId : SessionId) : AttachError :=
  .sessionAlreadyAttached ("session " ++ sessionId ++ " is already attached to another connection")

variable (s : SessionRegistry)

def goOn (point : Held) : SessionRegistry := { s with held := some point }

/-- Release the lock. -/
def release : SessionRegistry := { s with held := none }

/-- Release the lock and return from `attach`. -/
def fail (error : AttachError) : SessionRegistry :=
  { s with held := none, replies := s.replies ++ [.error error] }

def attachedTo (handle : SessionHandle) : SessionRegistry :=
  { s with
    held := none
    attached := s.attached ++ [handle]
    replies := s.replies ++ [.ok handle] }

def setEntry (sessionId : SessionId) (entry : SessionEntry) : SessionRegistry :=
  { s with entries := s.entries.insert sessionId entry }

def remove (sessionId : SessionId) : SessionRegistry :=
  { s with sessions := s.sessions.erase sessionId }

/-- The next section of the call that holds the lock. -/
def advance : Held → Option SessionRegistry
  | .resuming sessionId connectionId =>
    some (s.goOn (.checkingExpired sessionId connectionId s.clock))
  | .checkingExpired sessionId connectionId now =>
    (s.entries.get? sessionId).map fun entry =>
      if entry.isExpired now then s.goOn (.removingExpired sessionId)
      else s.goOn (.checkingActive sessionId connectionId)
  | .removingExpired sessionId => some ((s.remove sessionId).fail (unknownSessionId sessionId))
  | .checkingActive sessionId connectionId =>
    (s.entries.get? sessionId).map fun entry =>
      if entry.hasActiveConnection then s.fail (alreadyAttached sessionId)
      else s.goOn (.settingSender sessionId connectionId)
  | .settingSender sessionId connectionId =>
    (s.entries.get? sessionId).map fun entry =>
      (s.setEntry sessionId (entry.setNotificationSender (some connectionId))).goOn
        (.attaching sessionId connectionId)
  | .attaching sessionId connectionId =>
    (s.entries.get? sessionId).map fun entry =>
      (s.setEntry sessionId (entry.attach connectionId)).attachedTo ⟨sessionId, connectionId⟩
  | .expiring sessionId connectionId =>
    some (s.goOn (.checkingDetached sessionId connectionId s.clock))
  | .checkingDetached sessionId connectionId now =>
    (s.entries.get? sessionId).map fun entry =>
      if !entry.isDetachedConnectionExpired connectionId now then s.release
      else s.goOn (.removingDetached sessionId)
  | .removingDetached sessionId => some (s.remove sessionId).release

/-- The lock is got: look the session up, or insert a new one. -/
def enter (connectionId : ConnectionId) (sessionId : SessionId) :
    Option SessionId → Option SessionRegistry
  | some resumed =>
    if resumed ∈ s.sessions then some (s.goOn (.resuming resumed connectionId))
    else some (s.fail (unknownSessionId resumed))
  | none =>
    if s.entries.contains sessionId then none
    else some (({ s with sessions := s.sessions ++ [sessionId] }.setEntry sessionId
      (.new connectionId)).attachedTo ⟨sessionId, connectionId⟩)

/-- `SessionHandle::detach`. It starts a timer if the connection was attached. -/
def detach (handle : SessionHandle) (entry : SessionEntry) : SessionRegistry :=
  let s := { s with attached := s.attached.filter (· ≠ handle) }
  match entry.detach handle.connectionId s.clock with
  | none => s
  | some entry =>
    { s.setEntry handle.sessionId entry with
      timers := s.timers ++ [⟨handle.sessionId, handle.connectionId, none⟩] }

def poll (i : Nat) (timer : ExpiryTimer) : Option SessionRegistry :=
  if timer.sleepsUntil.isSome then none
  else
    let asleep := { timer with sleepsUntil := some (s.clock + detachedSessionTtl) }
    some { s with timers := s.timers.set i asleep }

/-- The timer's task gets the lock and looks its session up. -/
def expire (i : Nat) (timer : ExpiryTimer) : Option SessionRegistry :=
  if SessionEntry.deadlinePassed timer.sleepsUntil s.clock ∧ s.held = none then
    let s := { s with timers := s.timers.eraseIdx i }
    if timer.sessionId ∈ s.sessions then
      some (s.goOn (.expiring timer.sessionId timer.connectionId))
    else some s
  else none

def step : Event → Option SessionRegistry
  | .tick elapsed => some { s with clock := s.clock + elapsed }
  | .attach resumeSessionId connectionId sessionId =>
    if s.held ≠ none ∨ connectionId ∈ s.drawn then none
    else
      { s with drawn := s.drawn ++ [connectionId] }.enter connectionId sessionId resumeSessionId
  | .advance => s.held.bind s.advance
  | .detach handle => (s.entries.get? handle.sessionId).map (s.detach handle)
  | .poll i => s.timers[i]?.bind (s.poll i)
  | .expire i => s.timers[i]?.bind (s.expire i)

/-! ## What holds in every state -/

/-- Nobody is attached to the session. -/
def Detached (sessionId : SessionId) : Prop :=
  ∃ entry, s.entries.get? sessionId = some entry ∧ entry.attachment.currentConnectionId = none

/-- The session is detached until a deadline. -/
def Expires (sessionId : SessionId) (deadline : Nat) : Prop :=
  ∃ entry, s.entries.get? sessionId = some entry
    ∧ entry.attachment.detachedExpiresAt = some deadline

/-- What a call that holds the lock knows where it stands. -/
def Knows : Held → Prop
  | .checkingExpired _ _ now => now ≤ s.clock
  | .checkingDetached _ _ now => now ≤ s.clock
  | .removingExpired sessionId => s.Detached sessionId
  | .removingDetached sessionId => s.Detached sessionId
  | .settingSender sessionId _ => s.Detached sessionId
  | .attaching sessionId connectionId =>
    ∃ entry, s.entries.get? sessionId = some entry
      ∧ entry.attachment.currentConnectionId = none ∧ entry.notifications = some connectionId
  | _ => True

structure Inv : Prop where
  knows : ∀ point, s.held = some point → s.Knows point
  sender : ∀ sessionId entry, s.entries.get? sessionId = some entry →
    (∃ connectionId, s.held = some (.attaching sessionId connectionId))
      ∨ entry.notifications = entry.attachment.currentConnectionId
  expires : ∀ sessionId deadline, s.Expires sessionId deadline → s.Detached sessionId
  attached : ∀ handle, handle ∈ s.attached
    ↔ ∃ entry, s.entries.get? handle.sessionId = some entry
      ∧ entry.attachment.currentConnectionId = some handle.connectionId

variable {s} {t u : SessionRegistry} {e : Event}

theorem inv_new (clock : Nat) : (new clock).Inv where
  knows := nofun
  sender := nofun
  expires := nofun
  attached := fun _ => ⟨nofun, nofun⟩

variable {sessionId : SessionId} {point : Held} {entry : SessionEntry} {connectionId : ConnectionId}
  {now : Nat}

section

variable
  (hkept : ∀ other entry, s.entries.get? other = some entry →
    entry.attachment.currentConnectionId = none → t.entries.get? other = some entry)

include hkept

theorem Detached.kept (h : s.Detached sessionId) :
    t.Detached sessionId := by
  obtain ⟨entry, hentry, hcurrent⟩ := h
  exact ⟨entry, hkept sessionId entry hentry hcurrent, hcurrent⟩

/-- What a call knows is about sessions that nobody is attached to. -/
theorem Knows.kept (h : s.Knows point) (hclock : s.clock ≤ t.clock) :
    t.Knows point := by
  cases point with
  | resuming sessionId connectionId => trivial
  | checkingExpired sessionId connectionId now => exact Nat.le_trans h hclock
  | checkingActive sessionId connectionId => trivial
  | attaching sessionId connectionId =>
    obtain ⟨entry, hentry, hcurrent, hsender⟩ := h
    exact ⟨entry, hkept sessionId entry hentry hcurrent, hcurrent, hsender⟩
  | expiring sessionId connectionId => trivial
  | checkingDetached sessionId connectionId now => exact Nat.le_trans h hclock
  | _ => exact Detached.kept hkept h

end

section

variable (h : s.Inv) (hentries : t.entries = s.entries) (hattached : t.attached = s.attached)

include h hentries hattached

/-- A step that leaves the entries as they are. -/
theorem Inv.quiet (hknows : ∀ point, t.held = some point → t.Knows point)
    (hkeep : ∀ sessionId connectionId, s.held = some (.attaching sessionId connectionId) →
      t.held = some (.attaching sessionId connectionId)) : t.Inv where
  knows := hknows
  sender := by
    intro sessionId entry hentry
    rw [hentries] at hentry
    rcases h.sender sessionId entry hentry with ⟨connectionId, hheld⟩ | hsender
    · exact Or.inl ⟨connectionId, hkeep sessionId connectionId hheld⟩
    · exact Or.inr hsender
  expires := by
    simpa only [Expires, Detached, hentries] using h.expires
  attached := by
    rw [hattached, hentries]
    exact h.attached

/-- A step that leaves the lock as it is. -/
theorem Inv.aside (hclock : s.clock ≤ t.clock) (hheld : t.held = s.held) : t.Inv := by
  refine h.quiet hentries hattached (fun point hpoint => ?_) fun sessionId connectionId hs => ?_
  · refine (h.knows point (hheld ▸ hpoint)).kept (fun other entry hentry _ => ?_) hclock
    rw [hentries, hentry]
  · rw [hheld, hs]

/-- The call that holds the lock goes on or releases it. -/
theorem Inv.onward (hknows : ∀ point, t.held = some point → t.Knows point)
    (hnot : ∀ sessionId connectionId, s.held ≠ some (.attaching sessionId connectionId)) :
    t.Inv :=
  h.quiet hentries hattached hknows fun sessionId connectionId hs =>
    absurd hs (hnot sessionId connectionId)

end

theorem Inv.goOn (h : s.Inv)
    (hnot : ∀ sessionId connectionId, s.held ≠ some (.attaching sessionId connectionId))
    (hknows : s.Knows point) : (s.goOn point).Inv := by
  refine h.onward rfl rfl (fun next hnext => ?_) hnot
  cases hnext
  exact hknows.kept (fun _ _ hentry _ => hentry) le_rfl

/-! ### The steps that change an entry -/

theorem get?_setEntry (s : SessionRegistry) (sessionId other : SessionId) (entry : SessionEntry) :
    (s.setEntry sessionId entry).entries.get? other
      = if other = sessionId then some entry else s.entries.get? other :=
  Table.get?_insert _ _ _ _

theorem get?_setEntry_self (s : SessionRegistry) (sessionId : SessionId) (entry : SessionEntry) :
    (s.setEntry sessionId entry).entries.get? sessionId = some entry := by
  rw [get?_setEntry, if_pos rfl]

/-- A step that sets one entry. -/
theorem Inv.update (h : s.Inv) (hentries : t.entries = (s.setEntry sessionId entry).entries)
    (hknows : ∀ point, t.held = some point → t.Knows point)
    (hkeep : ∀ other connectionId, other ≠ sessionId →
      s.held = some (.attaching other connectionId) →
        t.held = some (.attaching other connectionId))
    (hsender : (∃ connectionId, t.held = some (.attaching sessionId connectionId))
      ∨ entry.notifications = entry.attachment.currentConnectionId)
    (hexpires : ∀ deadline, entry.attachment.detachedExpiresAt = some deadline →
      entry.attachment.currentConnectionId = none) (hattached : ∀ handle, handle ∈ t.attached
      ↔ if handle.sessionId = sessionId
        then entry.attachment.currentConnectionId = some handle.connectionId
        else handle ∈ s.attached) : t.Inv where
  knows := hknows
  sender := by
    intro other found hfound
    rw [hentries, get?_setEntry] at hfound
    split at hfound
    · next hsame => grind
    · next hother =>
      rcases h.sender other found hfound with ⟨connectionId, hheld⟩ | hold
      · exact Or.inl ⟨connectionId, hkeep other connectionId hother hheld⟩
      · exact Or.inr hold
  expires := by
    simp only [Expires, Detached, hentries, get?_setEntry]
    rintro other deadline ⟨found, hfound, hdeadline⟩
    split at hfound
    · next hsame =>
      cases hfound
      exact ⟨entry, if_pos hsame, hexpires deadline hdeadline⟩
    · next hother =>
      rw [if_neg hother]
      exact h.expires other deadline ⟨found, hfound, hdeadline⟩
  attached := by
    intro handle
    rw [hattached, hentries, get?_setEntry]
    split
    · simp
    · exact h.attached handle

/-- The connection that is attached is the only one. -/
theorem Inv.mem_attached (h : s.Inv) (hentry : s.entries.get? sessionId = some entry)
    (connectionId : ConnectionId) :
    ⟨sessionId, connectionId⟩ ∈ s.attached
      ↔ entry.attachment.currentConnectionId = some connectionId := by
  rw [h.attached, hentry]
  simp

/-- The sender is set under the lock of the registry, before the session is attached. -/
theorem Inv.settingSender (h : s.Inv)
    (hheld : s.held = some (.settingSender sessionId connectionId))
    (hentry : s.entries.get? sessionId = some entry) :
    ((s.setEntry sessionId (entry.setNotificationSender (some connectionId))).goOn
      (.attaching sessionId connectionId)).Inv := by
  obtain ⟨known, hknown, hcurrent⟩ := h.knows _ hheld
  obtain rfl : known = entry := Option.some.inj (hknown.symm.trans hentry)
  refine h.update rfl (fun point hpoint => ?_) (fun other waiting _ hwaiting => ?_)
    (Or.inl ⟨connectionId, rfl⟩) (fun _ _ => hcurrent) fun handle => ?_
  · cases hpoint
    exact ⟨_, get?_setEntry_self s sessionId _, hcurrent, rfl⟩
  · rw [hheld] at hwaiting
    cases hwaiting
  · split
    · next hsame =>
      obtain ⟨other, otherConnection⟩ := handle
      obtain rfl : other = sessionId := hsame
      exact h.mem_attached hentry otherConnection
    · exact Iff.rfl

theorem mem_attachedTo {handle attachedHandle : SessionHandle} :
    handle ∈ (s.attachedTo attachedHandle).attached
      ↔ handle ∈ s.attached ∨ handle = attachedHandle := by
  simp [attachedTo]

/-- A session that nobody is attached to is attached. -/
theorem Inv.attachedTo (h : s.Inv) (hentries : t.entries = (s.setEntry sessionId entry).entries)
    (hattached : t.attached = s.attached) (hsender : entry.notifications = some connectionId)
    (hattachment : entry.attachment = ⟨some connectionId, none, none⟩)
    (hfree : ∀ handle ∈ s.attached, handle.sessionId ≠ sessionId)
    (hkeep : ∀ other waiting, s.held = some (.attaching other waiting) → other = sessionId) :
    (t.attachedTo ⟨sessionId, connectionId⟩).Inv := by
  refine h.update hentries (fun point hpoint => by cases hpoint)
    (fun other waiting hother hwaiting => absurd (hkeep other waiting hwaiting) hother)
    (Or.inr (by rw [hsender, hattachment])) (fun deadline hdeadline => ?_) fun handle => ?_
  · rw [hattachment] at hdeadline
    cases hdeadline
  · rw [mem_attachedTo, hattached, hattachment]
    obtain ⟨other, otherConnection⟩ := handle
    split
    · next hsame => grind
    · next hother => grind

/-! ## How long a session has been detached -/

/-- The session that a call is about to remove. -/
def removes : Held → Option SessionId
  | .removingExpired sessionId => some sessionId
  | .removingDetached sessionId => some sessionId
  | _ => none

def Removing (s : SessionRegistry) (sessionId : SessionId) : Prop :=
  s.held.bind removes = some sessionId

theorem Inv.detached_of_removing (h : s.Inv) (hremoving : s.Removing sessionId) :
    s.Detached sessionId := by
  obtain ⟨point, hheld, hremoves⟩ := Option.bind_eq_some_iff.mp hremoving
  have hknows := h.knows point hheld
  cases point with
  | removingExpired other =>
    cases hremoves
    exact hknows
  | removingDetached other =>
    cases hremoves
    exact hknows
  | _ => cases hremoves

/-- What a step does to the deadlines and to the sessions. -/
structure Effect (s t : SessionRegistry) : Prop where
  clock : s.clock ≤ t.clock
  expires : ∀ sessionId deadline, t.Expires sessionId deadline →
    s.Expires sessionId deadline ∨ deadline = t.clock + detachedSessionTtl
  removing : ∀ sessionId, t.Removing sessionId →
    s.Removing sessionId ∨ ∃ deadline ≤ t.clock, s.Expires sessionId deadline
  leaves : ∀ sessionId ∈ s.sessions, sessionId ∉ t.sessions → s.Removing sessionId

/-- A step that leaves the entries and the sessions as they are. -/
theorem Effect.plain (hclock : s.clock ≤ t.clock) (hentries : t.entries = s.entries)
    (hsessions : t.sessions = s.sessions)
    (hremoving : ∀ sessionId, t.Removing sessionId →
      s.Removing sessionId ∨ ∃ deadline ≤ t.clock, s.Expires sessionId deadline) :
    Effect s t where
  clock := hclock
  expires := by
    rintro sessionId deadline ⟨entry, hentry, hdeadline⟩
    exact Or.inl ⟨entry, hentries ▸ hentry, hdeadline⟩
  removing := hremoving
  leaves := by
    intro sessionId hmem hnot
    rw [hsessions] at hnot
    exact absurd hmem hnot

/-- Such a step that is not about to remove a session. -/
theorem effect_quiet (hclock : s.clock ≤ t.clock) (hentries : t.entries = s.entries)
    (hsessions : t.sessions = s.sessions) (hnot : t.held.bind removes = none) : Effect s t := by
  refine .plain hclock hentries hsessions fun sessionId hremoving => ?_
  rw [Removing, hnot] at hremoving
  cases hremoving

/-- A step that sets one entry and removes no session. -/
theorem Effect.update (hclock : s.clock = t.clock)
    (hentries : t.entries = (s.setEntry sessionId entry).entries)
    (hsessions : s.sessions ⊆ t.sessions) (hremoving : ∀ other, t.Removing other → s.Removing other)
    (hexpires : ∀ deadline, entry.attachment.detachedExpiresAt = some deadline →
      s.Expires sessionId deadline ∨ deadline = t.clock + detachedSessionTtl) : Effect s t where
  clock := hclock.le
  expires := by
    rintro other deadline ⟨found, hfound, hdeadline⟩
    rw [hentries, get?_setEntry] at hfound
    split at hfound
    · next hsame => grind
    · exact Or.inl ⟨found, hfound, hdeadline⟩
  removing := fun other hother => Or.inl (hremoving other hother)
  leaves := by
    intro other hmem hnot
    exact absurd (hsessions hmem) hnot

theorem effect_remove (hremoving : s.Removing sessionId) (hclock : t.clock = s.clock)
    (hentries : t.entries = s.entries) (hsessions : t.sessions = s.sessions.erase sessionId)
    (hnot : ∀ other, ¬ t.Removing other) : Effect s t where
  clock := hclock.ge
  expires := by
    rintro other deadline ⟨entry, hentry, hdeadline⟩
    exact Or.inl ⟨entry, hentries ▸ hentry, hdeadline⟩
  removing := fun other hother => absurd hother (hnot other)
  leaves := by
    intro other hmem hleft
    by_cases hsame : other = sessionId
    · rw [hsame]
      exact hremoving
    · rw [hsessions] at hleft
      exact absurd ((List.mem_erase_of_ne hsame).mpr hmem) hleft

theorem deadlinePassed_iff (deadline : Option Nat) (now : Nat) :
    SessionEntry.deadlinePassed deadline now = true
      ↔ ∃ time, deadline = some time ∧ time ≤ now := by
  cases deadline <;> simp [SessionEntry.deadlinePassed]

theorem expires_of_isExpired (hentry : s.entries.get? sessionId = some entry)
    (hexpired : entry.isExpired now = true) : ∃ deadline ≤ now, s.Expires sessionId deadline := by
  obtain ⟨deadline, hdeadline, hle⟩ := (deadlinePassed_iff _ _).mp hexpired
  exact ⟨deadline, hle, entry, hentry, hdeadline⟩

/-- A session that has expired is detached. -/
theorem Inv.detached_of_expired (h : s.Inv) (hentry : s.entries.get? sessionId = some entry)
    (hexpired : entry.isExpired now = true) : s.Detached sessionId := by
  obtain ⟨deadline, _, hexpires⟩ := expires_of_isExpired hentry hexpired
  exact h.expires sessionId deadline hexpires

theorem isExpired_of_isDetachedConnectionExpired
    (h : entry.isDetachedConnectionExpired connectionId now = true) :
    entry.isExpired now = true := by
  rw [SessionEntry.isDetachedConnectionExpired, Bool.and_eq_true] at h
  exact h.2

/-- A check under the lock that finds the session expired. -/
theorem effect_check (hentry : s.entries.get? sessionId = some entry) (hnow : now ≤ s.clock)
    (hexpired : entry.isExpired now = true) (hpoint : removes point = some sessionId) :
    Effect s (s.goOn point) := by
  refine .plain le_rfl rfl rfl fun other hother => Or.inr ?_
  obtain rfl : sessionId = other := Option.some.inj (hpoint.symm.trans hother)
  obtain ⟨deadline, hle, hexpires⟩ := expires_of_isExpired hentry hexpired
  exact ⟨deadline, hle.trans hnow, hexpires⟩

/-- A connection that is attached detaches. -/
theorem Inv.detach (h : s.Inv) (handle : SessionHandle)
    (hentry : s.entries.get? handle.sessionId = some entry) :
    (s.detach handle entry).Inv ∧ Effect s (s.detach handle entry) := by
  have hmem := h.mem_attached hentry handle.connectionId
  unfold SessionRegistry.detach
  dsimp only
  split
  · next hnone =>
    -- the connection is not attached any more
    have hcurrent : entry.attachment.currentConnectionId ≠ some handle.connectionId := by
      intro hcurrent
      rw [SessionEntry.detach, if_neg (not_not.mpr hcurrent)] at hnone
      cases hnone
    refine ⟨h.aside rfl ?_ le_rfl rfl, .plain le_rfl rfl rfl fun _ => Or.inl⟩
    refine List.filter_eq_self.mpr fun other hother => ?_
    rw [decide_eq_true_eq]
    rintro rfl
    exact hcurrent (hmem.mp hother)
  · next detached hdetached =>
    rw [SessionEntry.detach] at hdetached
    split at hdetached
    · cases hdetached
    · next hcurrent =>
      rw [not_not] at hcurrent
      cases hdetached
      -- the call that holds the lock knows nothing about a session that is attached
      have hother : ∀ sessionId found, s.entries.get? sessionId = some found →
          found.attachment.currentConnectionId = none → sessionId ≠ handle.sessionId := by grind
      refine ⟨h.update rfl (fun point hpoint => ?_) (fun _ _ _ hwaiting => hwaiting)
          (Or.inr rfl) (fun _ _ => rfl) fun other => ?_,
        .update rfl rfl (List.Subset.refl _) (fun _ => id) fun _ hdeadline => ?_⟩
      · refine (h.knows point hpoint).kept (fun sessionId found hfound hnone => ?_) le_rfl
        exact (get?_setEntry _ _ _ _).trans
          ((if_neg (hother sessionId found hfound hnone)).trans hfound)
      · obtain ⟨sessionId, connectionId⟩ := other
        have hiff : ⟨sessionId, connectionId⟩ ∈ s.attached.filter (· ≠ handle)
            ↔ ⟨sessionId, connectionId⟩ ∈ s.attached
              ∧ (⟨sessionId, connectionId⟩ : SessionHandle) ≠ handle := by
          simp [List.mem_filter]
        refine hiff.trans ?_
        split
        · next hsame =>
          obtain rfl : sessionId = handle.sessionId := hsame
          rw [h.mem_attached hentry connectionId, hcurrent]
          refine iff_of_false ?_ (by simp)
          rintro ⟨hsame, hne⟩
          cases hsame
          exact hne rfl
        · next hne => grind
      · cases hdeadline
        exact Or.inr rfl

/-! ### Every step -/

theorem Inv.advance (h : s.Inv) (hheld : s.held = some point)
    (hadvance : s.advance point = some t) : t.Inv ∧ Effect s t := by
  -- every point but `attaching` lets go of what it knew
  have hnot (hpoint : ∀ sessionId connectionId, point ≠ .attaching sessionId connectionId) :
      ∀ sessionId connectionId, s.held ≠ some (.attaching sessionId connectionId) :=
    fun sessionId connectionId heq =>
      hpoint sessionId connectionId (Option.some.inj (hheld.symm.trans heq))
  cases point with
  | resuming sessionId connectionId | expiring sessionId connectionId =>
    cases hadvance
    exact ⟨h.goOn (hnot nofun) (Nat.le_refl s.clock), effect_quiet le_rfl rfl rfl rfl⟩
  | checkingExpired sessionId connectionId now =>
    obtain ⟨entry, hentry, rfl⟩ := Option.map_eq_some_iff.mp hadvance
    split
    · next hexpired =>
      exact ⟨h.goOn (hnot nofun) (h.detached_of_expired hentry hexpired),
        effect_check hentry (h.knows _ hheld) hexpired rfl⟩
    · exact ⟨h.goOn (hnot nofun) trivial, effect_quiet le_rfl rfl rfl rfl⟩
  | removingExpired sessionId | removingDetached sessionId =>
    cases hadvance
    have hremoving : s.Removing sessionId := by rw [Removing, hheld]; rfl
    exact ⟨h.onward rfl rfl nofun (hnot nofun), effect_remove hremoving rfl rfl rfl nofun⟩
  | checkingActive sessionId connectionId =>
    obtain ⟨entry, hentry, rfl⟩ := Option.map_eq_some_iff.mp hadvance
    split
    · exact ⟨h.onward rfl rfl nofun (hnot nofun), effect_quiet le_rfl rfl rfl rfl⟩
    · next hactive =>
      rw [SessionEntry.hasActiveConnection, Option.not_isSome_iff_eq_none] at hactive
      exact ⟨h.goOn (hnot nofun) ⟨entry, hentry, hactive⟩, effect_quiet le_rfl rfl rfl rfl⟩
  | settingSender sessionId connectionId =>
    obtain ⟨entry, hentry, rfl⟩ := Option.map_eq_some_iff.mp hadvance
    exact ⟨h.settingSender hheld hentry, .update rfl rfl (List.Subset.refl _) nofun
      fun deadline hdeadline => Or.inl ⟨entry, hentry, hdeadline⟩⟩
  | attaching sessionId connectionId =>
    obtain ⟨entry, hentry, rfl⟩ := Option.map_eq_some_iff.mp hadvance
    obtain ⟨known, hknown, hcurrent, hsender⟩ := h.knows _ hheld
    obtain rfl : known = entry := Option.some.inj (hknown.symm.trans hentry)
    refine ⟨h.attachedTo rfl rfl hsender rfl ?_ fun other waiting hwaiting => ?_,
      .update rfl rfl (List.Subset.refl _) nofun nofun⟩
    · rintro ⟨other, otherConnection⟩ hmem rfl
      rw [h.mem_attached hentry otherConnection, hcurrent] at hmem
      cases hmem
    · rw [hheld] at hwaiting
      cases hwaiting
      rfl
  | checkingDetached sessionId connectionId now =>
    obtain ⟨entry, hentry, rfl⟩ := Option.map_eq_some_iff.mp hadvance
    split
    · exact ⟨h.onward rfl rfl nofun (hnot nofun), effect_quiet le_rfl rfl rfl rfl⟩
    · next hexpired =>
      rw [Bool.not_eq_true', Bool.not_eq_false] at hexpired
      have hexpired := isExpired_of_isDetachedConnectionExpired hexpired
      exact ⟨h.goOn (hnot nofun) (h.detached_of_expired hentry hexpired),
        effect_check hentry (h.knows _ hheld) hexpired rfl⟩

theorem Inv.enter (h : s.Inv) (hheld : s.held = none) {resumeSessionId : Option SessionId}
    (henter : s.enter connectionId sessionId resumeSessionId = some t) : t.Inv ∧ Effect s t := by
  have hnot : ∀ other waiting, s.held ≠ some (.attaching other waiting) := by
    intro other waiting
    rw [hheld]
    nofun
  cases resumeSessionId with
  | some resumed =>
    rw [SessionRegistry.enter] at henter
    split at henter
    · cases henter
      exact ⟨h.goOn hnot trivial, effect_quiet le_rfl rfl rfl rfl⟩
    · cases henter
      exact ⟨h.onward rfl rfl (fun _ h => by cases h) hnot, effect_quiet le_rfl rfl rfl rfl⟩
  | none =>
    rw [SessionRegistry.enter] at henter
    split at henter
    · cases henter
    · next hfresh =>
      cases henter
      refine ⟨h.attachedTo rfl rfl rfl rfl (fun handle hmem hsame => ?_)
          fun other waiting hwaiting => absurd hwaiting (hnot other waiting),
        .update rfl rfl (List.subset_append_left _ _) (fun _ h => by cases h)
          fun _ h => by cases h⟩
      obtain ⟨entry, hentry, _⟩ := (h.attached handle).mp hmem
      rw [hsame] at hentry
      exact hfresh (by rw [Table.contains, hentry]; rfl)

theorem Inv.step (h : s.Inv) (hstep : step s e = some t) : t.Inv ∧ Effect s t := by
  cases e with
  | tick elapsed =>
    cases hstep
    exact ⟨h.aside rfl rfl (Nat.le_add_right _ _) rfl,
      .plain (Nat.le_add_right _ _) rfl rfl fun _ hremoving => Or.inl hremoving⟩
  | attach resumeSessionId connectionId sessionId =>
    simp only [SessionRegistry.step] at hstep
    split at hstep
    · cases hstep
    · next hguard =>
      rw [not_or, not_not] at hguard
      have hdrawn : { s with drawn := s.drawn ++ [connectionId] }.Inv :=
        h.aside rfl rfl le_rfl rfl
      obtain ⟨hinv, heffect⟩ := hdrawn.enter hguard.1 hstep
      exact ⟨hinv, heffect.clock, heffect.expires, heffect.removing, heffect.leaves⟩
  | advance =>
    obtain ⟨point, hheld, hadvance⟩ := Option.bind_eq_some_iff.mp hstep
    exact h.advance hheld hadvance
  | detach handle =>
    obtain ⟨entry, hentry, rfl⟩ := Option.map_eq_some_iff.mp hstep
    exact h.detach handle hentry
  | poll i =>
    obtain ⟨timer, _, hpoll⟩ := Option.bind_eq_some_iff.mp hstep
    rw [poll] at hpoll
    split at hpoll
    · cases hpoll
    · cases hpoll
      exact ⟨h.aside rfl rfl le_rfl rfl, .plain le_rfl rfl rfl fun _ => Or.inl⟩
  | expire i =>
    obtain ⟨timer, _, hexpire⟩ := Option.bind_eq_some_iff.mp hstep
    simp only [expire] at hexpire
    split at hexpire
    · next hguard =>
      have hnot : ∀ other waiting, s.held ≠ some (.attaching other waiting) := by
        intro other waiting
        rw [hguard.2]
        nofun
      split at hexpire
      · cases hexpire
        exact ⟨h.onward rfl rfl (fun next hnext => by cases hnext; trivial) hnot,
          effect_quiet le_rfl rfl rfl rfl⟩
      · cases hexpire
        exact ⟨h.aside rfl rfl le_rfl rfl, .plain le_rfl rfl rfl fun _ => Or.inl⟩
    · cases hexpire

/-- After the events `es` the session has been detached without interruption since the time
`since`. -/
def DetachedSince (start : SessionRegistry) (es : List Event) (sessionId : SessionId)
    (since : Nat) : Prop :=
  ∃ before after v, es = before ++ after ∧ run step start before = some v ∧ v.clock = since
    ∧ ∀ mid w, mid <+: after → run step start (before ++ mid) = some w → w.Detached sessionId

section History

variable {start : SessionRegistry} {es : List Event} {sessionId : SessionId} {since : Nat}

theorem detachedSince_now (hrun : run step start es = some t) (h : t.Detached sessionId) :
    DetachedSince start es sessionId t.clock := by
  refine ⟨es, [], t, (List.append_nil es).symm, hrun, rfl, fun mid w hmid hw => ?_⟩
  rw [List.prefix_nil.mp hmid, List.append_nil, hrun] at hw
  cases hw
  exact h

theorem DetachedSince.step (h : DetachedSince start es sessionId since)
    (hrun : run step start (es ++ [e]) = some u) (hdetached : u.Detached sessionId) :
    DetachedSince start (es ++ [e]) sessionId since := by
  obtain ⟨before, after, v, rfl, hv, hclock, hall⟩ := h
  refine ⟨before, after ++ [e], v, List.append_assoc _ _ _, hv, hclock, fun mid w hmid hw => ?_⟩
  rcases List.prefix_concat_iff.mp hmid with rfl | hmid
  · grind
  · exact hall mid w hmid hw

/-- What the deadlines and the call that holds the lock say about the events so far. -/
structure Past (start : SessionRegistry) (es : List Event) (t : SessionRegistry) : Prop where
  inv : t.Inv
  expires : ∀ sessionId deadline, t.Expires sessionId deadline →
    ∃ since, since + detachedSessionTtl = deadline ∧ DetachedSince start es sessionId since
  removing : ∀ sessionId, t.Removing sessionId →
    ∃ since, since + detachedSessionTtl ≤ t.clock ∧ DetachedSince start es sessionId since

theorem past_step (h : Past start es t) (hrun : run step start es = some t)
    (hstep : step t e = some u) : Past start (es ++ [e]) u := by
  have hinv : u.Inv := (h.inv.step hstep).1
  have heffect : Effect t u := (h.inv.step hstep).2
  have hrun' : run step start (es ++ [e]) = some u := by
    rw [run_append, hrun]
    simp [run, hstep]
  refine ⟨hinv, fun sessionId deadline hexpires => ?_, fun sessionId hremoving => ?_⟩
  · have hdetached := hinv.expires sessionId deadline hexpires
    rcases heffect.expires sessionId deadline hexpires with hold | hnew
    · obtain ⟨since, hsince, hpast⟩ := h.expires sessionId deadline hold
      exact ⟨since, hsince, hpast.step hrun' hdetached⟩
    · exact ⟨u.clock, hnew.symm, detachedSince_now hrun' hdetached⟩
  · have hdetached := hinv.detached_of_removing hremoving
    have hclock := heffect.clock
    rcases heffect.removing sessionId hremoving with hbefore | ⟨deadline, hle, hexpires⟩
    · obtain ⟨since, hsince, hpast⟩ := h.removing sessionId hbefore
      exact ⟨since, by omega, hpast.step hrun' hdetached⟩
    · obtain ⟨since, hsince, hpast⟩ := h.expires sessionId deadline hexpires
      exact ⟨since, by omega, hpast.step hrun' hdetached⟩

end History

theorem past_new (clock : Nat) : Past (new clock) [] (new clock) where
  inv := inv_new clock
  expires := nofun
  removing := nofun

theorem past_of_run (clock : Nat) (es : List Event) (t : SessionRegistry)
    (h : run step (new clock) es = some t) : Past (new clock) es t :=
  run_history (past_new clock)
    (fun _ _ _ _ hrun hpast hstep => past_step hpast hrun hstep) es t h

/-- **The registry is safe** in every order of the sections of its calls. A session has at most
one attached connection; while nobody holds the lock of the registry, the process handler sends
to that connection or to nobody; and a session leaves the registry only when it has been detached
without interruption for its time to live. -/
theorem registry_safe (clock : Nat) (es : List Event) (t : SessionRegistry)
    (h : run step (new clock) es = some t) :
    (∀ sessionId first second, ⟨sessionId, first⟩ ∈ t.attached → ⟨sessionId, second⟩ ∈ t.attached →
      first = second)
    ∧ (t.held = none → ∀ sessionId entry connectionId, t.entries.get? sessionId = some entry →
      (entry.notifications = some connectionId ↔ ⟨sessionId, connectionId⟩ ∈ t.attached))
    ∧ ∀ e u sessionId, step t e = some u → sessionId ∈ t.sessions → sessionId ∉ u.sessions →
      ∃ since, since + detachedSessionTtl ≤ t.clock
        ∧ DetachedSince (new clock) es sessionId since := by
  have hpast := past_of_run clock es t h
  have hinv := hpast.inv
  refine ⟨fun sessionId first second hfirst hsecond => ?_,
    fun hheld sessionId entry connectionId hentry => ?_, fun e u sessionId hstep hmem hleft => ?_⟩
  · obtain ⟨entry, hentry, hcurrent⟩ := (hinv.attached _).mp hfirst
    rw [hinv.mem_attached hentry, hcurrent] at hsecond
    exact Option.some.inj hsecond
  · rw [hinv.mem_attached hentry]
    rcases hinv.sender sessionId entry hentry with ⟨waiting, hwaiting⟩ | hsender
    · rw [hheld] at hwaiting
      cases hwaiting
    · rw [hsender]
  · exact hpast.removing sessionId ((hinv.step hstep).2.leaves sessionId hmem hleft)

/-- A session is attached again before its first timer fires, detached once more and removed by
its second timer. -/
def expiredRun : List Event :=
  [.attach none 1 "s", .detach ⟨"s", 1⟩, .poll 0, .tick 20000, .attach (some "s") 2 "", .advance,
    .advance, .advance, .advance, .advance, .detach ⟨"s", 2⟩, .poll 1, .tick 10000, .expire 0,
    .advance, .advance, .tick 20000, .expire 0, .advance, .advance]

theorem registry_safe_expiredRun :
    ∃ t u, run step (new 0) expiredRun = some t ∧ step t .advance = some u
      ∧ t.sessions = ["s"] ∧ u.sessions = [] ∧ t.clock = 50000
      ∧ ∃ since, since + detachedSessionTtl ≤ 50000
        ∧ DetachedSince (new 0) expiredRun "s" since := by
  have hmap : ((run step (new 0) expiredRun).bind fun t => (step t .advance).map fun u =>
      (t.sessions, u.sessions, t.clock)) = some (["s"], [], 50000) := by
    decide +kernel
  obtain ⟨t, hrun, hrest⟩ := Option.bind_eq_some_iff.mp hmap
  obtain ⟨u, hstep, heq⟩ := Option.map_eq_some_iff.mp hrest
  obtain ⟨hbefore, hafter, hclock⟩ : t.sessions = ["s"] ∧ u.sessions = [] ∧ t.clock = 50000 := by
    simpa using heq
  have hsafe := (registry_safe 0 expiredRun t hrun).2.2 .advance u "s" hstep
    (by rw [hbefore]; exact List.mem_cons_self) (by rw [hafter]; exact List.not_mem_nil)
  rw [hclock] at hsafe
  exact ⟨t, u, hrun, hstep, hbefore, hafter, hclock, hsafe⟩

end SessionRegistry

end CodexRouter.ExecServer
