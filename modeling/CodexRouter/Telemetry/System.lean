import CodexRouter.Lib.Run
import CodexRouter.Telemetry.Worker

set_option autoImplicit false

/-! # Engine, bridge and router together

The engine publishes batches and answers replay requests. One task of the bridge receives
batches, asks for a replay when one is missing or nothing arrives, and applies what it gets;
the answers of the bridge's endpoints are taken between its steps. The router is fed the
answers given so far, in any order and as often as one likes.

The engine is outside this development. What is assumed of it stands in the step `reply`: a
replay answers with consecutive batches from the requested one on, or from a later one on, and
it is not empty when the requested batch has been published.
-/

namespace CodexRouter.Telemetry

open CodexRouter.Lib

structure Setup where
  config : BridgeConfig
  envelope : Envelope
  /-- The router's `max_blocks_per_worker`. -/
  limit : Nat
  /-- The batches of the engine, from 0 on. -/
  log : Nat → List RawEvent

/-- Where the task of the bridge stands: at its poll, or in a replay, with the received batch
that it will apply after it. -/
inductive Loop
  | idle
  | requested (pending : Option Nat)
  | replaying (answer : List Nat) (pending : Option Nat)
deriving DecidableEq, Repr

structure System where
  published : Nat
  index : EventIndex
  loop : Loop
  /-- The answers that the endpoints have given. -/
  snapshots : List RawSnapshot
  deltas : List RawDelta
  telemetry : Option WorkerTelemetry
  /-- What the last call on the telemetry returned. -/
  error : Option RouterError

def System.init : System := ⟨0, EventIndex.init, .idle, [], [], none, none⟩

inductive Event
  | publish
  | receive (n : Nat)
  /-- Nothing is received in time. -/
  | poll
  /-- The engine answers a replay request with the batches from `first` up to `last`. -/
  | reply (first last : Nat)
  | frame
  | endMarker
  /-- Anything else that the task catches: framing, a topic, a timeout. -/
  | interrupt
  /-- The engine's process is gone. -/
  | down
  | kvSnapshot
  | kvEvents (epoch : String) (after : Int)
  | feedSnapshot (i : Nat) (info : WorkerInfo)
  | feedEvents (i : Nat)
  | discard

section Step

variable (setup : Setup)

def EventIndex.unsynced (index : EventIndex) : EventIndex := { index with synced := false }

/-- Apply batch `n`; what is raised leaves the index out of sync. -/
def deliver (index : EventIndex) (n : Nat) : EventIndex × Bool :=
  match index.apply setup.config n (setup.log n) with
  | (index, none) => (index, true)
  | (index, some _) => (index.unsynced, false)

def step (s : System) : Event → Option System
  | .publish => some { s with published := s.published + 1 }
  | .receive n =>
    if s.loop = .idle ∧ n < s.published then
      -- a gap: the batch waits until a replay has filled it
      if n > s.index.expected then
        some { s with index := s.index.unsynced, loop := .requested (some n) }
      else some { s with index := (deliver setup s.index n).1 }
    else none
  | .poll => if s.loop = .idle then some { s with loop := .requested none } else none
  | .reply first last =>
    match s.loop with
    | .requested pending =>
      if s.index.expected ≤ first ∧ first ≤ last ∧ last ≤ s.published
          ∧ (s.index.expected < s.published → first < last) then
        some { s with loop := .replaying (List.range' first (last - first)) pending }
      else none
    | _ => none
  | .frame =>
    match s.loop with
    | .replaying (n :: rest) pending =>
      match deliver setup s.index n with
      | (index, true) => some { s with index := index, loop := .replaying rest pending }
      | (index, false) => some { s with index := index, loop := .idle }
    | _ => none
  | .endMarker =>
    match s.loop with
    | .replaying [] pending =>
      -- the end of a replay puts the index in sync, whatever was replayed
      let index := { s.index with synced := true }
      match pending with
      | none => some { s with index := index, loop := .idle }
      | some n => some { s with index := (deliver setup index n).1, loop := .idle }
    | _ => none
  | .interrupt => some { s with index := s.index.unsynced, loop := .idle }
  | .down => some { s with index := s.index.unsynced }
  | .kvSnapshot =>
    match s.index.kvSnapshot setup.envelope with
    | some snapshot => some { s with snapshots := s.snapshots ++ [snapshot] }
    | none => none
  | .kvEvents epoch after =>
    match s.index.kvEvents setup.envelope epoch after with
    | some delta => some { s with deltas := s.deltas ++ [delta] }
    | none => none
  | .feedSnapshot i info =>
    match s.snapshots[i]? with
    | some snapshot =>
      match WorkerTelemetry.snapshot info snapshot setup.limit with
      | .ok t => some { s with telemetry := some t, error := none }
      | .error e => some { s with telemetry := none, error := some e }
    | none => none
  | .feedEvents i =>
    match s.telemetry, s.deltas[i]? with
    | some t, some delta =>
      match t.apply delta setup.limit with
      | (t, e) => some { s with telemetry := some t, error := e }
    | _, _ => none
  | .discard => some { s with telemetry := none, error := none }

end Step

end CodexRouter.Telemetry
