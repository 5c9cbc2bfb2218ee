import CodexRouter.Ledger.Basic
import CodexRouter.Lib.Interleaving
import CodexRouter.Routing.LmCache

set_option autoImplicit false

/-! # Session homes

`SharedRoutingState` of `routing_state/mod.rs` with its ledger: a request that ends well makes its
worker the home of its session. Reservations, completions, telemetry and identity checks run
concurrently, each under the lock of the ledger or under the lock of the state; the home is written
in a callback that was made when the request was reserved.

The selection of a worker is an argument of the reservation: whatever is selected. It reads the
state under the state's lock while the ledger's is held, and writes nothing. Nothing is assumed of
the callers: any call may be made at any time, for any reservation.
-/

namespace CodexRouter.Routing

open Lib

/-! ## Data -/

inductive SessionScope
  | fingerprint (fingerprint : String)
  | endpointModel (model : String)
  deriving DecidableEq

abbrev SessionKey := SessionScope × String

structure Home where
  workerUrl : String
  epoch : String
  updated : Nat
  deriving DecidableEq

structure SharedConfig (F : Type) extends RoutingConfig F where
  maxSessions : Nat

/-- What the callback of a reservation has captured. -/
structure SessionCallback where
  sessionKey : SessionKey
  url : String
  epoch : String

structure Shared where
  ledger : Ledger.System
  state : State
  sessions : Table SessionKey Home
  /-- The callbacks made so far; a reservation names its own by its place. -/
  callbacks : List SessionCallback
  /-- The clock, in milliseconds. -/
  now : Nat

structure ReserveArgs where
  workers : List Nat
  policy : Nat
  /-- What the policy selects, and the sample of the selection if it ranks. -/
  select : Option Nat
  sample : Option Json
  features : RequestFeatures
  observations : Option (Table String Observation)

inductive SharedOperation
  | reserveWithObservations (args : ReserveArgs)
  | dispatched (id : Nat)
  | finish (id : Nat) (success : Bool)
  | drop (id : Nat)
  | install (url : String) (telemetry : WorkerTelemetry)
  | invalidate (url : String)
  | remove (url : String)
  | validateResponseIdentity (url : String) (workerId engineEpoch : Option String)
  /-- Time passes. -/
  | elapse (ms : Nat)

/-- Where a call stands between two critical sections. -/
inductive SharedPoint
  /-- A reservation: these observations are still to be noted. -/
  | observing (rest : List (String × Observation)) (args : ReserveArgs)
  /-- A reservation: the attempt is made, the epoch not read. -/
  | reserved (id : Nat) (args : ReserveArgs)
  /-- A reservation: the epoch is read, and not recorded. -/
  | epochRead (id : Nat) (args : ReserveArgs) (epoch : Option String)
  /-- A completion that released its attempt, before its callback. -/
  | released (callback : SessionCallback)
  /-- A destructor that goes on to `finish(false)`. -/
  | dropping (id : Nat)
  /-- An installation that still releases these attempts. -/
  | installing (ids : List Nat) (url : String) (telemetry : WorkerTelemetry)
  | mismatched (url epoch : String)
  | invalidated (url epoch : String)

inductive SharedReturn
  | unit
  | reservation (id : Option Nat)
  | matched (result : Bool)

section Sections

variable {F : Type} (url : Nat → String) (config : SharedConfig F)

/-- The scope and the id of the session of a request. -/
def sessionKey (features : RequestFeatures) : Option SessionKey := do
  let session ← features.sessionId
  let scope ←
    if config.endpointIdentity then
      if features.fallbackReason.isSome ∨ features.tokens.isNone then none
      else do
        let model ← features.model
        let lmcache ← config.lmcache
        if model ≠ lmcache.model then none else some (SessionScope.endpointModel model)
    else features.fingerprint.map SessionScope.fingerprint
  return (scope, session)

/-- The epoch of the callback is one that the worker still has. -/
def isCurrent (state : State) (url epoch : String) : Bool :=
  ((state.workers.get? url).any fun w => w.info.engine_epoch = epoch ∧ w.synced) ||
    (state.controllerMetadata.get? url).any fun m => m.engineEpoch = epoch

/-- `min_by_key`: the first of the homes that were updated first. -/
def oldestHome (sessions : Table SessionKey Home) : Option SessionKey :=
  (firstMin (fun a b => a.2.updated < b.2.updated) sessions.entries).map Prod.fst

/-- Make room: homes that are too old go, and if there are still too many, the oldest one. -/
def evictHomes (sessions : Table SessionKey Home) (now : Nat) : Table SessionKey Home :=
  let sessions := sessions.filter fun e => now - e.2.updated < config.sessionTtlSecs * 1000
  if sessions.size ≥ config.maxSessions then
    match oldestHome sessions with
    | some oldest => sessions.erase oldest
    | none => sessions
  else sessions

/-- The callback, under the lock of the state. -/
def runSessionCallback (callback : SessionCallback) (s : Shared) : Shared :=
  let current := config.endpointIdentity || isCurrent s.state callback.url callback.epoch
  if ¬ current ∨ (¬ config.endpointIdentity ∧
      s.state.identityMismatches.get? callback.url = some callback.epoch) then s
  else
    { s with
      sessions := (evictHomes config s.sessions s.now).insert callback.sessionKey
        ⟨callback.url, callback.epoch, s.now⟩ }

/-- The epoch of a new attempt: the one observed, or else that of the telemetry. -/
def attemptEpoch (state : State) (args : ReserveArgs) (worker : Nat) : Option String :=
  if config.endpointIdentity then none
  else
    (((args.observations.bind fun o => o.get? (url worker)).map fun o =>
      o.metadata.engineEpoch).filter fun epoch => epoch ≠ "").or
        ((state.workers.get? (url worker)).map fun t => t.info.engine_epoch)

/-- `set_epoch`, if there is an epoch. -/
def recordEpoch (id : Nat) (epoch : Option String) (ledger : Ledger.System) : Ledger.System :=
  match epoch with
  | some epoch => ledger.updateAttempt id fun a => { a with epoch := some epoch }
  | none => ledger

/-- The end of a reservation: the epoch goes to the ledger, and the callback is made if the
request has a session. -/
def completeReservation (id : Nat) (args : ReserveArgs) (epoch : Option String) (s : Shared) :
    Shared :=
  let ledger := recordEpoch id epoch s.ledger
  match sessionKey config args.features, s.ledger.reservations[id]? with
  | some key, some r =>
    if config.endpointIdentity ∨ epoch.isSome then
      { s with
        ledger := ledger.updateReservation id fun r =>
          { r with on_success := some s.callbacks.length }
        callbacks := s.callbacks ++ [⟨key, url r.worker, epoch.getD ""⟩] }
    else { s with ledger := ledger }
  | _, _ => { s with ledger := ledger }

/-- The callback that a reservation carries. -/
def Shared.callback? (s : Shared) (id : Nat) : Option SessionCallback := do
  let r ← s.ledger.reservations[id]?
  let n ← r.on_success
  s.callbacks[n]?

/-- `finish` up to the callback, which takes the lock of the state. -/
def finishSection (id : Nat) (success : Bool) (s : Shared) :
    Shared × (SharedPoint ⊕ SharedReturn) :=
  let finished := { s with ledger := Ledger.finish url id success s.now s.ledger }
  match s.callback? id with
  | some callback =>
    -- only the call that released the attempt runs it
    if success ∧ s.ledger.attempts.contains id then (finished, .inl (.released callback))
    else (finished, .inr .unit)
  | none => (finished, .inr .unit)

def dispatchedSection (id : Nat) (s : Shared) : Shared :=
  if s.ledger.attempts.contains id then
    let ledger := s.ledger.updateAttempt id fun a => { a with state := .dispatched }
    { s with
      ledger := ledger.updateReservation id fun r =>
        { r with dispatched_at := r.dispatched_at.or (some s.now) } }
  else s

/-- A worker is selected and its attempt made; the sample is attached. -/
def reserveSection (args : ReserveArgs) (s : Shared) : Shared × (SharedPoint ⊕ SharedReturn) :=
  match args.select.bind fun index => args.workers[index]? with
  | none => (s, .inr (.reservation none))
  | some _ =>
    let id := s.ledger.reservations.length
    let ledger := Ledger.selectAndReserve args.workers args.policy args.select s.ledger
    let ledger :=
      match args.sample with
      | some sample => ledger.updateReservation id fun r => { r with sample_context := sample.obj? }
      | none => ledger
    ({ s with ledger := ledger }, .inl (.reserved id args))

def enterShared (op : SharedOperation) (s : Shared) : Shared × (SharedPoint ⊕ SharedReturn) :=
  match op with
  | .reserveWithObservations args =>
    -- what the controllers said is noted outside endpoint identity mode only
    let noted := if config.endpointIdentity then [] else
      args.observations.elim [] Table.entries
    (s, .inl (.observing noted args))
  | .dispatched id => (dispatchedSection id s, .inr .unit)
  | .finish id success => finishSection url id success s
  | .drop id =>
    let ledger := Ledger.dropEnter id s.ledger
    ({ s with ledger := ledger },
      if ledger.inPhase id .dropping then .inl (.dropping id) else .inr .unit)
  | .install worker_url telemetry =>
    let ids := (Ledger.collectIds url worker_url telemetry.info.engine_epoch
      s.ledger.attempts).map Prod.fst
    (s, .inl (.installing ids worker_url telemetry))
  | .invalidate worker_url => ({ s with state := s.state.invalidate worker_url }, .inr .unit)
  | .remove worker_url => ({ s with state := s.state.remove worker_url }, .inr .unit)
  | .validateResponseIdentity worker_url workerId engineEpoch =>
    if config.endpointIdentity then (s, .inr (.matched true))
    else
      match s.state.identity worker_url with
      | none => (s, .inr (.matched true))
      | some (expectedId, epoch) =>
        if workerId = some expectedId ∧ engineEpoch = some epoch then
          (s, .inr (.matched true))
        else (s, .inl (.mismatched worker_url epoch))
  | .elapse ms => ({ s with now := s.now + ms }, .inr .unit)

def advanceShared (point : SharedPoint) (s : Shared) : Shared × (SharedPoint ⊕ SharedReturn) :=
  match point with
  | .observing ((worker_url, o) :: rest) args =>
    ({ s with state := s.state.observe worker_url o.metadata o.started },
      .inl (.observing rest args))
  | .observing [] args => reserveSection args s
  | .reserved id args =>
    let epoch := (s.ledger.reservations[id]?).bind fun r =>
      attemptEpoch url config s.state args r.worker
    (s, .inl (.epochRead id args epoch))
  | .epochRead id args epoch =>
    (completeReservation url config id args epoch s, .inr (.reservation (some id)))
  | .released callback => (runSessionCallback config callback s, .inr .unit)
  | .dropping id =>
    ({ s with
      ledger := (Ledger.finish url id false s.now s.ledger).updateReservation id fun r =>
        { r with phase := .dropped } }, .inr .unit)
  | .installing (id :: rest) worker_url telemetry =>
    ({ s with ledger := (Ledger.release url id false s.ledger).1 },
      .inl (.installing rest worker_url telemetry))
  | .installing [] worker_url telemetry =>
    ({ s with state := s.state.install worker_url telemetry }, .inr .unit)
  | .mismatched worker_url epoch =>
    ({ s with state := s.state.invalidate worker_url },
      .inl (.invalidated worker_url epoch))
  | .invalidated worker_url epoch =>
    ({ s with state := s.state.recordMismatch worker_url epoch }, .inr (.matched false))

def sharedProgram : Program Shared SharedOperation SharedPoint SharedReturn :=
  ⟨enterShared url config, advanceShared url config⟩

abbrev SharedSystem := Interleaved Shared SharedPoint

abbrev sharedStep : SharedSystem → Section SharedOperation → Option SharedSystem :=
  Interleaved.step (sharedProgram url config)

end Sections

def Shared.init : Shared := ⟨.init, .init, .empty, [], 0⟩

abbrev SharedSystem.init : SharedSystem := Interleaved.start Shared.init

/-! ## Homes -/

section Homes

variable {F : Type} (config : SharedConfig F)

theorem size_filter_le {K V : Type} (p : K × V → Bool) (t : Table K V) :
    (t.filter p).size ≤ t.size :=
  List.length_filter_le p t.entries

theorem exists_firstMin {α : Type} (before : α → α → Bool) {l : List α} (hne : l ≠ []) :
    ∃ x ∈ l, firstMin before l = some x := by
  -- the best so far is one of those seen
  have hloop : ∀ best : Option α → α → Option α,
      (∀ b x, best (some b) x = some x ∨ best (some b) x = some b) →
      ∀ (l : List α) (b : α), ∃ x ∈ b :: l, l.foldl best (some b) = some x := by
    intro best hbest l
    induction l with
    | nil => exact fun b => ⟨b, List.mem_cons_self, rfl⟩
    | cons y l ih =>
      intro b
      rw [List.foldl_cons]
      rcases hbest b y with h | h
      · obtain ⟨x, hx, hfold⟩ := ih y
        exact ⟨x, List.mem_cons_of_mem b hx, by rw [h, hfold]⟩
      · obtain ⟨x, hx, hfold⟩ := ih b
        exact ⟨x, by grind, by rw [h, hfold]⟩
  cases l with
  | nil => exact absurd rfl hne
  | cons y l => exact hloop _ (fun b x => ite_eq_or_eq _ _ _) l y

/-- There is room for one more home after the eviction. -/
theorem size_evictHomes (hmax : 0 < config.maxSessions) {sessions : Table SessionKey Home}
    (hsize : sessions.size ≤ config.maxSessions) (now : Nat) :
    (evictHomes config sessions now).size < config.maxSessions := by
  unfold evictHomes
  dsimp only
  have hkept : (sessions.filter fun e =>
      now - e.2.updated < config.sessionTtlSecs * 1000).size ≤ config.maxSessions :=
    (size_filter_le _ _).trans hsize
  generalize sessions.filter (fun e => now - e.2.updated < config.sessionTtlSecs * 1000) = kept
    at hkept
  split
  · next hfull =>
    have hne : kept.entries ≠ [] := by
      intro hnil
      rw [Table.size, hnil, List.length_nil] at hfull
      omega
    obtain ⟨e, hmem, he⟩ := exists_firstMin
      (fun a b : SessionKey × Home => decide (a.2.updated < b.2.updated)) hne
    have hold : oldestHome kept = some e.1 := by rw [oldestHome, he]; rfl
    have hperm := (Table.perm_of_get? (Table.get?_eq_some_iff.mpr hmem)).length_eq
    rw [hold]
    show (kept.erase e.1).entries.length < _
    rw [List.length_cons] at hperm
    have : kept.entries.length ≤ config.maxSessions := hkept
    omega
  · next hroom => omega

/-- The eviction only takes homes away. -/
theorem get?_evictHomes {sessions : Table SessionKey Home} {now : Nat} {key : SessionKey}
    {home : Home} (h : (evictHomes config sessions now).get? key = some home) :
    sessions.get? key = some home := by
  have hfilter : ∀ {home : Home}, (sessions.filter fun e =>
      now - e.2.updated < config.sessionTtlSecs * 1000).get? key = some home →
      sessions.get? key = some home := by
    intro home hkept
    rw [Table.get?_filter, Option.filter_eq_some_iff] at hkept
    exact hkept.1
  unfold evictHomes at h
  dsimp only at h
  split at h
  · grind [Table.get?_erase]
  · exact hfilter h

end Homes

end CodexRouter.Routing
