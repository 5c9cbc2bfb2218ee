import CodexRouter.Lib.Run
import CodexRouter.Lib.Table

set_option autoImplicit false

/-! # The clients of a remote control websocket

`app-server-transport/src/transport/remote_control/client_tracker.rs` and the reader loop of
`websocket.rs`: the tracker holds one open connection for a client and stream, and a set of
outbound tasks, one spawned for each connection. A task that has ended is joined at any later
time, and all it returns is its client and stream; the reader then closes what is registered
there. The question is whose connection that is.

An event of the reader comes with what its environment decides: the clock, whether the transport
takes each event it is sent, the stream id that would be drawn. Whether a task has ended depends
on the application as well (it may drop the writer, or cancel), so a task may be joined at any
time. Pong replies and the segments of the websocket state are left out: they close nothing.
-/

namespace CodexRouter.RemoteControl

open Lib

abbrev ClientId := String

abbrev StreamId := String

abbrev ConnectionId := Nat

abbrev ClientKey := ClientId × StreamId

/-! ## Envelopes -/

inductive JsonRpcMessage
  | request (method : String)
  | notification (method : String)
  | response
  | error
  deriving DecidableEq

def remoteControlMessageStartsConnection : JsonRpcMessage → Bool
  | .request method => method = "initialize"
  | _ => false

inductive ClientEvent
  | clientMessage (message : JsonRpcMessage)
  | clientMessageChunk
  | ack
  | ping
  | clientClosed
  deriving DecidableEq

structure ClientEnvelope where
  clientId : ClientId
  event : ClientEvent
  streamId : Option StreamId
  seqId : Option Nat

def ClientEnvelope.isInitialize (envelope : ClientEnvelope) : Bool :=
  match envelope.event with
  | .clientMessage message => remoteControlMessageStartsConnection message
  | _ => false

/-! ## The tracker -/

structure ClientState where
  connectionId : ConnectionId
  lastActivityAt : Nat
  lastInboundSeqId : Option Nat

/-- An outbound task: it returns `clientKey`; `connectionId` is the connection it was spawned
for. -/
structure OutboundTask where
  clientKey : ClientKey
  connectionId : ConnectionId

structure ClientTracker where
  clients : Table ClientKey ClientState
  legacyStreamIds : Table ClientId StreamId
  joinSet : List OutboundTask
  /-- The ids drawn so far are the numbers below this one. -/
  nextConnectionId : ConnectionId

def ClientTracker.new : ClientTracker := ⟨Table.empty, Table.empty, [], 0⟩

inductive TransportEvent
  | connectionOpened (connectionId : ConnectionId)
  | incomingMessage (connectionId : ConnectionId) (message : JsonRpcMessage)
  | connectionClosed (connectionId : ConnectionId)
  deriving DecidableEq

/-- A call of the tracker: the tracker afterwards, the events it has sent, and whether it
returned `Ok` (and not `Stopped`). -/
structure Turn where
  tracker : ClientTracker
  sent : List TransportEvent
  ok : Bool

/-- Which of its sends the transport takes. -/
structure Delivery where
  closed : Bool
  opened : Bool
  message : Bool

variable (t : ClientTracker) (clientKey : ClientKey)

namespace ClientTracker

def removeClient : ClientTracker :=
  { t with
    clients := t.clients.erase clientKey
    legacyStreamIds :=
      if t.legacyStreamIds.get? clientKey.1 = some clientKey.2 then
        t.legacyStreamIds.erase clientKey.1
      else t.legacyStreamIds }

/-- The close event is sent by a task of its own, also when the caller is not told that it
arrived. -/
def closeClient (delivered : Bool) : Turn :=
  match t.clients.get? clientKey with
  | none => ⟨t, [], true⟩
  | some client => ⟨t.removeClient clientKey, [.connectionClosed client.connectionId], delivered⟩

/-- The stream of an envelope. Without one it is the legacy stream of the client, which an
initialize takes out; a first initialize, and a ping, draw one. -/
def streamIdOf (envelope : ClientEnvelope) (random : StreamId) : StreamId × ClientTracker :=
  match envelope.streamId with
  | some streamId => (streamId, t)
  | none =>
    if envelope.isInitialize then
      ((t.legacyStreamIds.get? envelope.clientId).getD random,
        { t with legacyStreamIds := t.legacyStreamIds.erase envelope.clientId })
    else
      ((t.legacyStreamIds.get? envelope.clientId).getD
        (if envelope.event = .ping then random else ""), t)

def recordInboundMessageDelivery (seqId : Option Nat) : ClientTracker :=
  match seqId, t.clients.get? clientKey with
  | some seqId, some client =>
    { t with clients := t.clients.insert clientKey { client with lastInboundSeqId := seqId } }
  | _, _ => t

def touch (client : ClientState) (now : Nat) : ClientTracker :=
  { t with clients := t.clients.insert clientKey { client with lastActivityAt := now } }

/-- The message was delivered before. -/
def isDuplicate (seqId : Option Nat) : Bool :=
  match seqId, (t.clients.get? clientKey).bind ClientState.lastInboundSeqId with
  | some seqId, some lastSeqId => lastSeqId ≥ seqId
  | _, _ => false

/-- Open a connection for the initialize `message`, and forward it there. -/
def openConnection (isLegacyStreamId : Bool) (message : JsonRpcMessage) (seqId : Option Nat)
    (now : Nat) (delivery : Delivery) : Turn :=
  let connectionId := t.nextConnectionId
  let t := { t with nextConnectionId := connectionId + 1 }
  if delivery.opened then
    let t :=
      { t with
        joinSet := t.joinSet ++ [⟨clientKey, connectionId⟩]
        clients := t.clients.insert clientKey ⟨connectionId, now, none⟩
        legacyStreamIds :=
          if isLegacyStreamId then t.legacyStreamIds.insert clientKey.1 clientKey.2
          else t.legacyStreamIds }
    if delivery.message then
      ⟨if isLegacyStreamId then t else t.recordInboundMessageDelivery clientKey seqId,
        [.connectionOpened connectionId, .incomingMessage connectionId message], true⟩
    else
      ⟨t.removeClient clientKey,
        [.connectionOpened connectionId, .connectionClosed connectionId], false⟩
  else ⟨t, [], false⟩

/-- A message that is not a duplicate, for what is registered after a repeated initialize has
closed the connection before it. -/
def forwardMessage (envelope : ClientEnvelope) (message : JsonRpcMessage) (now : Nat)
    (delivery : Delivery) : Turn :=
  match t.clients.get? clientKey with
  | some client =>
    let t := t.touch clientKey client now
    if delivery.message then
      ⟨t.recordInboundMessageDelivery clientKey envelope.seqId,
        [.incomingMessage client.connectionId message], true⟩
    else ⟨t, [], false⟩
  | none =>
    if envelope.isInitialize then
      t.openConnection clientKey envelope.streamId.isNone message envelope.seqId now delivery
    else ⟨t, [], true⟩

def handleClientMessage (envelope : ClientEnvelope) (message : JsonRpcMessage) (now : Nat)
    (delivery : Delivery) : Turn :=
  if t.isDuplicate clientKey envelope.seqId && !envelope.isInitialize then ⟨t, [], true⟩
  else
    let closing :=
      if envelope.isInitialize then t.closeClient clientKey delivery.closed else ⟨t, [], true⟩
    if closing.ok then
      let forwarded := closing.tracker.forwardMessage clientKey envelope message now delivery
      { forwarded with sent := closing.sent ++ forwarded.sent }
    else closing

def handleMessage (envelope : ClientEnvelope) (now : Nat) (random : StreamId)
    (delivery : Delivery) : Turn :=
  let (streamId, t) := t.streamIdOf envelope random
  if streamId = "" then ⟨t, [], true⟩
  else
    let clientKey := (envelope.clientId, streamId)
    match envelope.event with
    | .clientMessage message => t.handleClientMessage clientKey envelope message now delivery
    | .clientMessageChunk => ⟨t, [], true⟩
    | .ack => ⟨t, [], true⟩
    | .ping =>
      match t.clients.get? clientKey with
      | some client => ⟨t.touch clientKey client now, [], true⟩
      | none => ⟨t, [], true⟩
    | .clientClosed => t.closeClient clientKey delivery.closed

/-- `REMOTE_CONTROL_CLIENT_IDLE_TIMEOUT`, in seconds as the clock is. -/
def idleTimeout : Nat := 10 * 60

def isAlive (client : ClientState) (now : Nat) : Bool := now - client.lastActivityAt < idleTimeout

/-- Close clients one after the other, up to the first failure; `delivered` says which close
events arrive. -/
def closeClients (t : ClientTracker) (delivered : ClientKey → Bool) : List ClientKey → Turn
  | [] => ⟨t, [], true⟩
  | clientKey :: rest =>
    let closing := t.closeClient clientKey (delivered clientKey)
    if closing.ok then
      let others := closing.tracker.closeClients delivered rest
      { others with sent := closing.sent ++ others.sent }
    else closing

def closeExpiredClients (now : Nat) (delivered : ClientKey → Bool) : Turn :=
  t.closeClients delivered
    ((t.clients.entries.filter fun entry => !isAlive entry.2 now).map Prod.fst)

/-- Failures are ignored here, and the tasks are awaited. -/
def shutdown : Turn :=
  let closing := t.closeClients (fun _ => true) t.clients.keys
  { closing with tracker := { closing.tracker with joinSet := [] } }

end ClientTracker

/-! ## The reader -/

inductive ReaderEvent
  /-- An envelope is handed to the tracker. -/
  | message (envelope : ClientEnvelope) (now : Nat) (random : StreamId) (delivery : Delivery)
  /-- The task at this place of the join set is joined, and its key closed. -/
  | joined (place : Nat) (delivered : Bool)
  /-- The task at this place of the join set has panicked. -/
  | joinFailed (place : Nat)
  | idleSweep (now : Nat) (delivered : ClientKey → Bool)
  | shutdown

open ClientTracker

/-- What the tracker does at an event; `none` when there is no such task. -/
def turn : ReaderEvent → Option Turn
  | .message envelope now random delivery => some (t.handleMessage envelope now random delivery)
  | .joined place delivered =>
    (t.joinSet[place]?).map fun task =>
      { t with joinSet := t.joinSet.eraseIdx place }.closeClient task.clientKey delivered
  | .joinFailed place =>
    (t.joinSet[place]?).map fun _ => ⟨{ t with joinSet := t.joinSet.eraseIdx place }, [], true⟩
  | .idleSweep now delivered => some (t.closeExpiredClients now delivered)
  | .shutdown => some t.shutdown

def step (e : ReaderEvent) : Option ClientTracker := (turn t e).map Turn.tracker

/-- The event closes the connection. -/
def Closes (e : ReaderEvent) (connectionId : ConnectionId) : Prop :=
  ∃ u ∈ turn t e, .connectionClosed connectionId ∈ u.sent

/-- The connection registered for a client and stream. -/
def ClientTracker.registered : Option ConnectionId :=
  (t.clients.get? clientKey).map ClientState.connectionId

/-- A reason for which the event may close the connection: a `ClientClosed` or an initialize for
the client and stream where it is registered, the failed delivery of the initialize that opened
it, the end of the task spawned for it, its own expiry, or the shutdown. -/
def MayClose : ReaderEvent → ConnectionId → Prop
  | .message envelope _ random delivery, connectionId =>
    let clientKey := (envelope.clientId, (t.streamIdOf envelope random).1)
    (envelope.event = .clientClosed ∧ t.registered clientKey = some connectionId) ∨
    (envelope.isInitialize ∧ t.registered clientKey = some connectionId) ∨
    (envelope.isInitialize ∧ delivery.message = false ∧ connectionId = t.nextConnectionId)
  | .joined place _, connectionId =>
    ∃ task, t.joinSet[place]? = some task ∧ task.connectionId = connectionId
  | .joinFailed _, _ => False
  | .idleSweep now _, connectionId =>
    ∃ clientKey client, t.clients.get? clientKey = some client ∧
      client.connectionId = connectionId ∧ isAlive client now = false
  | .shutdown, _ => True

/-- A task is joined only while its own connection, or none, is registered for its client and
stream. -/
def JoinedInTime : ReaderEvent → Prop
  | .joined place _ =>
    ∀ task ∈ t.joinSet[place]?, ∀ connectionId ∈ t.registered task.clientKey,
      connectionId = task.connectionId
  | _ => True

instance : DecidablePred (JoinedInTime t)
  | .message _ _ _ _ => inferInstanceAs (Decidable True)
  | .joined place _ =>
    inferInstanceAs (Decidable (∀ task ∈ t.joinSet[place]?, ∀ connectionId ∈ _, _))
  | .joinFailed _ => inferInstanceAs (Decidable True)
  | .idleSweep _ _ => inferInstanceAs (Decidable True)
  | .shutdown => inferInstanceAs (Decidable True)

/-! ## What one call closes -/

variable {t clientKey} {connectionId : ConnectionId} {message : JsonRpcMessage} {now : Nat}
  {delivery : Delivery} {envelope : ClientEnvelope}

/-- Closing a client closes the connection registered there. -/
theorem closeClient_closes {delivered : Bool} :
    .connectionClosed connectionId ∈ (t.closeClient clientKey delivered).sent
      ↔ t.registered clientKey = some connectionId := by
  unfold closeClient registered
  cases t.clients.get? clientKey with
  | none => simp
  | some client => simp [eq_comm]

theorem get?_closeClient {delivered : Bool} {key : ClientKey} {client : ClientState}
    (h : (t.closeClient clientKey delivered).tracker.clients.get? key = some client) :
    t.clients.get? key = some client := by
  unfold closeClient at h
  split at h
  · exact h
  · simp only [removeClient, Table.get?_erase] at h
    split at h
    · cases h
    · exact h

theorem nextConnectionId_closeClient (t : ClientTracker) (clientKey : ClientKey)
    (delivered : Bool) :
    (t.closeClient clientKey delivered).tracker.nextConnectionId = t.nextConnectionId := by
  unfold closeClient
  split <;> rfl

/-- Opening a connection closes it again if its initialize is not delivered. -/
theorem openConnection_closes {isLegacyStreamId : Bool} {seqId : Option Nat}
    (h : .connectionClosed connectionId ∈
      (t.openConnection clientKey isLegacyStreamId message seqId now delivery).sent) :
    delivery.message = false ∧ connectionId = t.nextConnectionId := by
  cases hopened : delivery.opened with
  | false => simp [openConnection, hopened] at h
  | true =>
    cases hmessage : delivery.message with
    | false => exact ⟨rfl, by simpa [openConnection, hopened, hmessage] using h⟩
    | true => simp [openConnection, hopened, hmessage] at h

theorem forwardMessage_closes (h : .connectionClosed connectionId ∈
      (t.forwardMessage clientKey envelope message now delivery).sent) :
    envelope.isInitialize ∧ delivery.message = false ∧ connectionId = t.nextConnectionId := by
  unfold forwardMessage at h
  split at h
  · split at h <;> simp at h
  · grind [openConnection_closes]

theorem handleClientMessage_closes (h : .connectionClosed connectionId ∈
      (t.handleClientMessage clientKey envelope message now delivery).sent) :
    (envelope.isInitialize ∧ t.registered clientKey = some connectionId) ∨
      (envelope.isInitialize ∧ delivery.message = false ∧ connectionId = t.nextConnectionId) := by
  unfold handleClientMessage at h
  split at h
  · simp at h
  · by_cases hinit : envelope.isInitialize
    · simp only [hinit, if_true] at h
      split at h
      · rcases List.mem_append.mp h with h | h
        · exact Or.inl ⟨hinit, closeClient_closes.mp h⟩
        · grind [forwardMessage_closes, nextConnectionId_closeClient]
      · exact Or.inl ⟨hinit, closeClient_closes.mp h⟩
    · simp only [hinit] at h
      exact absurd (forwardMessage_closes (by simpa using h)).1 hinit

/-- Finding the stream of an envelope may change the legacy streams only. -/
theorem streamIdOf_tracker (t : ClientTracker) (envelope : ClientEnvelope) (random : StreamId) :
    (t.streamIdOf envelope random).2.clients = t.clients ∧
      (t.streamIdOf envelope random).2.nextConnectionId = t.nextConnectionId := by
  unfold streamIdOf
  split
  · exact ⟨rfl, rfl⟩
  · split <;> exact ⟨rfl, rfl⟩

theorem handleMessage_mayClose {random : StreamId}
    (h : .connectionClosed connectionId ∈ (t.handleMessage envelope now random delivery).sent) :
    MayClose t (.message envelope now random delivery) connectionId := by
  obtain ⟨hclients, hnext⟩ := streamIdOf_tracker t envelope random
  have hregistered : ∀ clientKey,
      (t.streamIdOf envelope random).2.registered clientKey = t.registered clientKey := by
    intro clientKey
    rw [registered, registered, hclients]
  unfold handleMessage at h
  simp only at h
  split at h
  · simp at h
  · split at h
    · rcases handleClientMessage_closes h with ⟨hinit, hreg⟩ | ⟨hinit, hmessage, hid⟩
      · exact Or.inr (Or.inl ⟨hinit, (hregistered _).symm.trans hreg⟩)
      · exact Or.inr (Or.inr ⟨hinit, hmessage, hid.trans hnext⟩)
    · simp at h
    · simp at h
    · split at h <;> simp at h
    · next hevent => exact Or.inl ⟨hevent, (hregistered _).symm.trans (closeClient_closes.mp h)⟩

/-- A sweep closes connections that were registered under the keys it is given. -/
theorem closeClients_closes {delivered : ClientKey → Bool} (keys : List ClientKey)
    (h : .connectionClosed connectionId ∈ (t.closeClients delivered keys).sent) :
    ∃ clientKey ∈ keys, t.registered clientKey = some connectionId := by
  induction keys generalizing t with
  | nil => simp [closeClients] at h
  | cons key keys ih =>
    have hhead : .connectionClosed connectionId ∈ (t.closeClient key (delivered key)).sent →
        ∃ clientKey ∈ key :: keys, t.registered clientKey = some connectionId :=
      fun h => ⟨key, List.mem_cons_self, closeClient_closes.mp h⟩
    simp only [closeClients] at h
    split at h
    · rcases List.mem_append.mp h with h | h
      · exact hhead h
      · -- the key was registered before its neighbours were closed
        obtain ⟨clientKey, hmem, hreg⟩ := ih h
        obtain ⟨client, hclient, hid⟩ := Option.map_eq_some_iff.mp hreg
        refine ⟨clientKey, List.mem_cons_of_mem key hmem, ?_⟩
        rw [registered, get?_closeClient hclient, ← hid]
        rfl
    · exact hhead h

theorem closeExpiredClients_mayClose {delivered : ClientKey → Bool}
    (h : .connectionClosed connectionId ∈ (t.closeExpiredClients now delivered).sent) :
    MayClose t (.idleSweep now delivered) connectionId := by
  obtain ⟨clientKey, hmem, hreg⟩ := closeClients_closes _ h
  obtain ⟨client, hclient, hid⟩ := Option.map_eq_some_iff.mp hreg
  obtain ⟨entry, hentry, rfl⟩ := List.mem_map.mp hmem
  rw [List.mem_filter] at hentry
  have hsame : entry.2 = client := by
    have := Table.get?_eq_some_iff.mpr hentry.1
    rw [hclient] at this
    exact (Option.some.inj this).symm
  exact ⟨entry.1, client, hclient, hid, by simpa [hsame] using hentry.2⟩

/-! ## Runs -/

/-- An event closes only what it may close, exactly if it does not join a task too late. -/
theorem forall_mayClose_iff (t : ClientTracker) (e : ReaderEvent) :
    (∀ connectionId, Closes t e connectionId → MayClose t e connectionId) ↔ JoinedInTime t e := by
  cases e with
  | message envelope now random delivery =>
    refine iff_of_true (fun connectionId h => ?_) trivial
    obtain ⟨u, hu, hsent⟩ := h
    cases hu
    exact handleMessage_mayClose hsent
  | joined place delivered =>
    constructor
    · intro h task htask connectionId hreg
      have hcloses : Closes t (.joined place delivered) connectionId :=
        ⟨_, Option.map_eq_some_iff.mpr ⟨task, htask, rfl⟩, closeClient_closes.mpr hreg⟩
      obtain ⟨task', htask', hid⟩ := h connectionId hcloses
      rw [Option.mem_def.mp htask] at htask'
      cases htask'
      exact hid.symm
    · rintro h connectionId ⟨u, hu, hsent⟩
      obtain ⟨task, htask, rfl⟩ := Option.map_eq_some_iff.mp hu
      have hreg := closeClient_closes.mp hsent
      exact ⟨task, htask, (h task htask connectionId hreg).symm⟩
  | joinFailed place =>
    refine iff_of_true (fun connectionId h => ?_) trivial
    obtain ⟨u, hu, hsent⟩ := h
    obtain ⟨_, _, rfl⟩ := Option.map_eq_some_iff.mp hu
    simp at hsent
  | idleSweep now delivered =>
    refine iff_of_true (fun connectionId h => ?_) trivial
    obtain ⟨u, hu, hsent⟩ := h
    cases hu
    exact closeExpiredClients_mayClose hsent
  | shutdown => exact iff_of_true (fun _ _ => trivial) trivial

/-- **In a run, every connection is closed for a reason of its own, exactly if no task is joined
while another connection is registered for its client and stream.** -/
theorem closes_for_own_reason_iff (es : List ReaderEvent) :
    (∀ pre e t, pre ++ [e] <+: es → run step ClientTracker.new pre = some t →
      ∀ connectionId, Closes t e connectionId → MayClose t e connectionId)
      ↔ Along step JoinedInTime ClientTracker.new es := by
  rw [along_iff]
  constructor
  · intro h pre e t hpre ht
    exact (forall_mayClose_iff t e).mp (h pre e t hpre ht)
  · intro h pre e t hpre ht
    exact (forall_mayClose_iff t e).mpr (h pre e t hpre ht)

/-- An initialize of client `c` for its stream `s`. -/
def initializeOf (seqId : Nat) : ReaderEvent :=
  .message ⟨"c", .clientMessage (.request "initialize"), some "s", some seqId⟩ 0 "r"
    ⟨true, true, true⟩

/-- **The end of an old task closes a new connection.** The client initializes its stream again:
the first connection is closed and the second one opened; then the first one's task, which has
ended, is joined and closes the second. -/
theorem joined_task_closes_another :
    ∃ t, run step ClientTracker.new [initializeOf 0, initializeOf 1] = some t ∧
      Closes t (.joined 0 true) 1 ∧ ¬ MayClose t (.joined 0 true) 1 := by
  refine ⟨⟨Table.empty.insert ("c", "s") ⟨1, 0, some 1⟩, Table.empty,
    [⟨("c", "s"), 0⟩, ⟨("c", "s"), 1⟩], 2⟩, rfl, ⟨_, rfl, by decide⟩, ?_⟩
  rintro ⟨task, htask, hid⟩
  cases htask
  cases hid

end CodexRouter.RemoteControl
