import CodexRouter.Lib.Outcome
import CodexRouter.Lib.OrderedMap
import CodexRouter.ExecServer.Process

set_option autoImplicit false

/-! # The client's view of a process

Notifications of a process arrive in any order. `SessionState` keeps those that are early until
all earlier events have been published (`publishOrderedEvent`). After a reconnect
`recoverEvents` fills in what was lost from a `process/read` response. The response has the exit
code but not the number of the exit, which is taken to be the one that is missing.
-/

namespace CodexRouter.ExecServer

open Lib

def maxPendingProcessEvents : Nat := 256

def maxPendingProcessEventBytes : Nat := 1024 * 1024

structure OrderedSessionEvents where
  lastPublishedSeq : Nat
  exitPublished : Bool
  closedPublished : Bool
  pending : OrderedMap Nat ExecProcessEvent
  pendingBytes : Nat
  failure : Option String
deriving DecidableEq

/-- The ordered events and the log that they are published to. -/
structure SessionState extends OrderedSessionEvents where
  events : List ExecProcessEvent
deriving DecidableEq

def pendingProcessEventBytes : ExecProcessEvent → Nat
  | .output chunk => chunk.chunk.length
  | .failed message => message.utf8ByteSize
  | .exited .. | .closed _ => 0

namespace SessionState

def new : SessionState := ⟨⟨0, false, false, .empty, 0, none⟩, []⟩

/-! ## Pending events -/

def insertPending (state : SessionState) (event : ExecProcessEvent) :
    Except String SessionState :=
  match event.seq with
  | none => .error "cannot reorder an unsequenced process event"
  | some seq =>
    if (state.pending.get? seq).isSome then .ok state
    else
      let closesGap := seq = state.lastPublishedSeq + 1
      let eventBytes := pendingProcessEventBytes event
      let pendingBytes := state.pendingBytes + eventBytes
      if ¬ closesGap ∧ state.pending.size ≥ maxPendingProcessEvents then
        .error ("process event reorder buffer exceeds "
          ++ toString maxPendingProcessEvents ++ " entries")
      else if eventBytes > maxPendingProcessEventBytes then
        .error ("process event exceeds " ++ toString maxPendingProcessEventBytes ++ " bytes")
      else if ¬ closesGap ∧ pendingBytes > maxPendingProcessEventBytes then
        .error ("process event reorder buffer exceeds "
          ++ toString maxPendingProcessEventBytes ++ " bytes")
      else .ok { state with
        pending := state.pending.insert seq event
        pendingBytes := pendingBytes }

/-- Publish a pending event that is the next one. -/
def publishNext (state : SessionState) (event : ExecProcessEvent) : SessionState :=
  { state with
    pending := state.pending.erase (state.lastPublishedSeq + 1)
    pendingBytes := state.pendingBytes - pendingProcessEventBytes event
    lastPublishedSeq := state.lastPublishedSeq + 1
    exitPublished := state.exitPublished || event.isExited
    closedPublished := state.closedPublished || event.isClosed
    events := state.events ++ [event] }

/-- The loop of `publish_ready`; each round takes an event out of the pending ones. -/
def publishReadyLoop : Nat → Bool → SessionState → Bool × SessionState
  | 0, publishedClosed, state => (publishedClosed, state)
  | rounds + 1, publishedClosed, state =>
    match state.pending.get? (state.lastPublishedSeq + 1) with
    | none => (publishedClosed, state)
    | some event =>
      publishReadyLoop rounds (publishedClosed || event.isClosed) (state.publishNext event)

def publishReady (state : SessionState) : Bool × SessionState :=
  publishReadyLoop state.pending.size false state

/-- Nothing is taken any more, or nothing with this number. -/
def ignores (state : SessionState) (seq : Nat) : Bool :=
  state.failure.isSome || state.closedPublished || seq ≤ state.lastPublishedSeq

def publishOrderedEvent (state : SessionState) (event : ExecProcessEvent) :
    Except String Bool × SessionState :=
  match event.seq with
  | none => (.ok false, { state with events := state.events ++ [event] })
  | some seq =>
    if state.ignores seq then (.ok false, state)
    else match state.insertPending event with
      | .error message => (.error message, state)
      | .ok state => (.ok state.publishReady.1, state.publishReady.2)

def setFailure (state : SessionState) (message : String) : SessionState :=
  if state.failure.isSome || state.closedPublished then state
  else { state with
    failure := some message
    pending := .empty
    pendingBytes := 0
    events := state.events ++ [.failed message] }

/-- A notification, with `finish_process_event`: an event that cannot be taken fails the
session. -/
def handleNotification (state : SessionState) (event : ExecProcessEvent) : SessionState :=
  match state.publishOrderedEvent event with
  | (.ok _, state) => state
  | (.error message, state) => state.setFailure message

end SessionState

/-! ## Recovery -/

/-- A computation on the session that may end in a protocol error, with the state it has
then. -/
abbrev SessionM := ExceptT String (StateM SessionState)

def insertPendingM (event : ExecProcessEvent) : SessionM Unit := do
  match (← get).insertPending event with
  | .ok state => set state
  | .error message => throw message

def publishReadyM : SessionM Bool := do
  let (publishedClosed, state) := (← get).publishReady
  set state
  return publishedClosed

def missingExitCode : String := "recovering exited process did not include its exit code"

def recoveryGapError (targetSeq : Nat) : String :=
  "process events are no longer retained while recovering through sequence " ++ toString targetSeq

/-- A pending exit learns that the sandbox denied something. -/
def markDenied (denied : Bool) : ExecProcessEvent → ExecProcessEvent
  | .exited seq exitCode sandboxDenied =>
    .exited seq exitCode (some (sandboxDenied.getD false || denied))
  | event => event

/-- The first exit among the pending events up to the target. -/
def pendingExit (state : SessionState) (targetSeq : Nat) : Option (Nat × ExecProcessEvent) :=
  state.pending.entries.find? fun entry => entry.1 ≤ targetSeq && entry.2.isExited

def markPendingExit (response : ReadResponse) (targetSeq : Nat) : SessionM Bool := do
  let state ← get
  match pendingExit state targetSeq with
  | none => return false
  | some entry => do
      set { state with
        pending := state.pending.insert entry.1 (markDenied response.sandboxDenied entry.2) }
      return true

/-- The close of the response lies where another event is. -/
def closeConflicts (state : SessionState) (response : ReadResponse) (targetSeq : Nat) : Bool :=
  response.closed
    && (((state.pending.get? targetSeq).map fun event => !event.isClosed).getD false
      || response.chunks.any fun chunk => chunk.seq = targetSeq)

def checkClose (response : ReadResponse) (targetSeq : Nat) : SessionM Unit := do
  if closeConflicts (← get) response targetSeq then
    throw ("process close sequence " ++ toString targetSeq ++ " conflicts with recovered output")

def insertExit (seq : Nat) (response : ReadResponse) : SessionM Unit :=
  match response.exitCode with
  | none => throw missingExitCode
  | some exitCode => insertPendingM (.exited seq exitCode (some response.sandboxDenied))

def checkTarget (chunk : ProcessOutputChunk) (targetSeq : Nat) : SessionM Unit := do
  if chunk.seq > targetSeq then
    throw ("recovered process output sequence " ++ toString chunk.seq
      ++ " exceeds target sequence " ++ toString targetSeq)

/-- Before a chunk that leaves a gap: the exit, if it is not known yet, fills the gap. Whether
the exit is known then, and whether the close was published. -/
def recoverExitBefore (response : ReadResponse) (chunk : ProcessOutputChunk)
    (exitKnown : Bool) : SessionM (Bool × Bool) := do
  let nextSeq := (← get).lastPublishedSeq + 1
  if response.exited && !exitKnown && chunk.seq > nextSeq then do
    insertExit nextSeq response
    let publishedClosed ← publishReadyM
    return (true, publishedClosed)
  else return (exitKnown, false)

def recoverOutput (chunk : ProcessOutputChunk) : SessionM Bool := do
  if chunk.seq > (← get).lastPublishedSeq then do
    insertPendingM (.output chunk)
    publishReadyM
  else return false

/-- The loop over the chunks of a response: whether the exit is known at the end, and whether
the close was published on the way. -/
def recoverChunks (response : ReadResponse) (targetSeq : Nat) :
    List ProcessOutputChunk → Bool → Bool → SessionM (Bool × Bool)
  | [], exitKnown, publishedClosed => return (exitKnown, publishedClosed)
  | chunk :: rest, exitKnown, publishedClosed => do
      checkTarget chunk targetSeq
      let before ← recoverExitBefore response chunk exitKnown
      let closedAfter ← recoverOutput chunk
      recoverChunks response targetSeq rest before.1 (publishedClosed || before.2 || closedAfter)

def recoverClosed (response : ReadResponse) (targetSeq : Nat) : SessionM Unit := do
  let state ← get
  let isPending := ((state.pending.get? targetSeq).map ExecProcessEvent.isClosed).getD false
  if response.closed && !state.closedPublished && !isPending then
    insertPendingM (.closed targetSeq)
  else return ()

/-- The loop of `first_missing_seq` over the pending numbers. -/
def firstMissingFrom (expected : Nat) : List Nat → Nat
  | [] => expected
  | seq :: rest => if seq ≠ expected then expected else firstMissingFrom (expected + 1) rest

def firstMissingSeq (state : SessionState) (targetSeq : Nat) : Nat :=
  firstMissingFrom (state.lastPublishedSeq + 1)
    ((state.pending.range (state.lastPublishedSeq + 1) targetSeq).map Prod.fst)

def missingCount (state : SessionState) (targetSeq : Nat) : Nat :=
  (targetSeq - state.lastPublishedSeq)
    - (state.pending.range (state.lastPublishedSeq + 1) targetSeq).length

/-- What is missing up to the target is the exit, or nothing. -/
def recoverMissing (response : ReadResponse) (targetSeq : Nat) (exitKnown : Bool) :
    SessionM Unit := do
  let state ← get
  if response.exited && !exitKnown then
    if missingCount state targetSeq ≠ 1 then throw (recoveryGapError targetSeq)
    else insertExit (firstMissingSeq state targetSeq) response
  else if missingCount state targetSeq ≠ 0 then throw (recoveryGapError targetSeq)
  else return ()

/-- `recover_events` after its first checks, up to the number that the response reaches. -/
def recoverThrough (response : ReadResponse) (targetSeq : Nat) : SessionM Bool := do
  let exitPublished := (← get).exitPublished
  let exitPending ← markPendingExit response targetSeq
  checkClose response targetSeq
  let recovered ← recoverChunks response targetSeq response.chunks
    (exitPublished || exitPending) false
  recoverClosed response targetSeq
  recoverMissing response targetSeq recovered.1
  let publishedClosed ← publishReadyM
  return recovered.2 || publishedClosed

def recoverEvents (response : ReadResponse) : SessionM Bool :=
  match response.failure with
  | some message => throw ("process failed while recovering: " ++ message)
  | none => do
      let state ← get
      if state.ignores (response.nextSeq - 1) then return false
      else recoverThrough response (response.nextSeq - 1)

end CodexRouter.ExecServer
