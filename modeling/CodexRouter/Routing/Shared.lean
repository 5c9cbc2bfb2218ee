import CodexRouter.Lib.Run
import CodexRouter.Routing.Selection
import CodexRouter.Telemetry.Worker

set_option autoImplicit false

/-! # The shared routing state

The part of `SharedRoutingState` of `routing_state/mod.rs` that says which telemetry of a worker is
trusted: the installed telemetry, what the controllers said of the workers, and the engine epochs
whose responses failed the identity check. A step is what one thread does while it holds the lock.
The identity check of a response takes the lock three times: to compare, to invalidate the
telemetry, and to record the mismatch. Endpoint identity mode, in which there is no check, is left
out, and so are the session homes and the ledger.
-/

namespace CodexRouter.Routing

open Lib

/-! ## The prefix that a worker has cached -/

/-- `chunks_exact`. -/
def chunksExact {α : Type} (n : Nat) (l : List α) : List (List α) :=
  (List.range (l.length / n)).map fun i => (l.drop (i * n)).take n

/-- The loop of `KvIndex::reusable_tokens`: `parents` are the blocks that match so far. -/
def matchBlocks (index : Telemetry.KvIndex) (blockSize : Nat) :
    List (Option String) → List (List Nat) → Nat
  | _, [] => 0
  | parents, block :: rest =>
    let next := parents.flatMap fun parent =>
      ((index.edges.get? (parent, block)).getD []).map some
    if next = [] then 0 else blockSize + matchBlocks index blockSize next rest

/-- `KvIndex::reusable_tokens`: the last token of the prompt is never reused. -/
def reusableTokens (index : Telemetry.KvIndex) (tokens : List Nat) (blockSize : Nat) : Nat :=
  if blockSize = 0 then 0
  else matchBlocks index blockSize [none] (chunksExact blockSize (tokens.take (tokens.length - 1)))

/-! ## State -/

/-- The telemetry of a worker, with what only the router reads of it. Times are in milliseconds. -/
structure WorkerTelemetry extends Telemetry.WorkerTelemetry where
  supported : Bool
  observedAt : Nat

structure State where
  workers : Table String WorkerTelemetry
  controllerMetadata : Table String WorkerMetadata
  controllerObservedAt : Table String Nat
  identityMismatches : Table String String

namespace State

def init : State := ⟨.empty, .empty, .empty, .empty⟩

/-- `invalidate`. -/
def invalidate (s : State) (url : String) : State :=
  match s.workers.get? url with
  | some t => { s with workers := s.workers.insert url { t with synced := false } }
  | none => s

/-- `remove`. -/
def remove (s : State) (url : String) : State := { s with workers := s.workers.erase url }

/-- `install`, under the lock of the state. -/
def install (s : State) (url : String) (telemetry : WorkerTelemetry) : State :=
  -- telemetry of the epoch that failed the check stays out of use
  if s.identityMismatches.get? url = some telemetry.info.engine_epoch then
    { s with workers := s.workers.insert url { telemetry with synced := false } }
  else
    { s with
      workers := s.workers.insert url telemetry
      identityMismatches := s.identityMismatches.erase url }

/-- One round of the loop of `reserve_with_observations` over what the controllers answered. -/
def observe (s : State) (url : String) (metadata : WorkerMetadata) (started : Nat) : State :=
  if metadata.engineEpoch = "" then s
  -- asked for no later than the answer that is there
  else if (s.controllerObservedAt.get? url).any fun time => time ≥ started then s
  else
    { s with
      identityMismatches :=
        if s.identityMismatches.get? url ≠ some metadata.engineEpoch then
          s.identityMismatches.erase url
        else s.identityMismatches
      controllerMetadata := s.controllerMetadata.insert url metadata
      controllerObservedAt := s.controllerObservedAt.insert url started }

/-- The identity that a response of the worker has to carry. -/
def identity (s : State) (url : String) : Option (String × String) :=
  match s.workers.get? url with
  | some t => some (t.info.worker_id, t.info.engine_epoch)
  | none => (s.controllerMetadata.get? url).map fun m => (m.workerId, m.engineEpoch)

/-- The last section of `validate_response_identity`. -/
def recordMismatch (s : State) (url epoch : String) : State :=
  { s with identityMismatches := s.identityMismatches.insert url epoch }

/-! ## Snapshots -/

/-- What a snapshot says of the cache of a worker. -/
def evidence (s : State) (features : RequestFeatures) (now : Nat) (url : String) :
    PrefixEvidence :=
  match s.workers.get? url with
  | none => .unknown
  | some t =>
    match features.tokens with
    | none => .unsupported
    | some tokens =>
      if ¬ t.supported then .unsupported
      else if ¬ t.synced then .stale
      else
        .observed (reusableTokens t.index tokens t.info.block_size) t.info.engine_epoch
          t.sequence (min (now - t.observedAt) maxUsize)

/-- A worker of the registry. -/
structure WorkerView where
  url : String
  available : Bool
  load : Nat

/-- `snapshot`, with the gauges of the backends and the home of the session. -/
def snapshot {F : Type} (s : State) (workers : List WorkerView) (features : RequestFeatures)
    (now : Nat) (backendLoad : String → Option (BackendLoadSnapshot F))
    (home : Option SessionHomeSnapshot) : SelectionSnapshot F :=
  { workers := workers.mapIdx fun index w =>
      { workerIndex := index
        workerUrl := w.url
        available := w.available
        inflight := w.load
        backendLoad := backendLoad w.url
        metadata := (s.workers.get? w.url).map fun t =>
          ⟨t.info.worker_id, t.info.model, t.info.fingerprint, t.info.engine_epoch,
            t.info.block_size⟩
        evidence := s.evidence features now w.url }
    home }

end State

/-! ## Interleavings -/

/-- An identity check that failed its comparison: the epoch that it read, and whether it has
invalidated the telemetry yet. -/
structure Validation where
  url : String
  epoch : String
  invalidated : Bool
  deriving DecidableEq

structure System where
  state : State
  validations : List Validation

def System.init : System := ⟨State.init, []⟩

inductive Event
  | invalidate (url : String)
  | remove (url : String)
  | install (url : String) (telemetry : WorkerTelemetry)
  | observe (url : String) (metadata : WorkerMetadata) (started : Nat)
  /-- A response with these identity headers is compared. -/
  | compare (url : String) (workerId engineEpoch : Option String)
  /-- A failed check invalidates the telemetry. -/
  | invalidateFailed (check : Nat)
  /-- A failed check records the mismatch and ends. -/
  | recordFailed (check : Nat)

/-- One critical section. A check that is not there, or not at that point, does nothing. -/
def step (s : System) : Event → Option System
  | .invalidate url => some { s with state := s.state.invalidate url }
  | .remove url => some { s with state := s.state.remove url }
  | .install url telemetry => some { s with state := s.state.install url telemetry }
  | .observe url metadata started => some { s with state := s.state.observe url metadata started }
  | .compare url workerId engineEpoch =>
    match s.state.identity url with
    | none => some s
    | some (expectedId, epoch) =>
      if workerId = some expectedId ∧ engineEpoch = some epoch then some s
      -- the epoch is the one read here; the two sections to come do not read it again
      else some { s with validations := s.validations ++ [⟨url, epoch, false⟩] }
  | .invalidateFailed check =>
    match s.validations[check]? with
    | some ⟨url, epoch, false⟩ =>
      some
        { state := s.state.invalidate url
          validations := s.validations.set check ⟨url, epoch, true⟩ }
    | _ => some s
  | .recordFailed check =>
    match s.validations[check]? with
    | some ⟨url, epoch, true⟩ =>
      some
        { state := s.state.recordMismatch url epoch
          validations := s.validations.eraseIdx check }
    | _ => some s

end CodexRouter.Routing
