import CodexRouter.Telemetry.Bridge

set_option autoImplicit false

/-! # The router's copy of a worker's index

`routing_state/kv.rs` and `routing_state/telemetry.rs`. The router reads the answers of a
bridge: a snapshot of all blocks, or the batches after a sequence. It keeps the blocks under
their hashes and under their edges, from a parent and a block of tokens. An answer that does
not decode is refused before it reaches the telemetry; one that fails inside the index leaves
it half applied.
-/

namespace CodexRouter.Telemetry

open CodexRouter.Lib

/-! ## The index -/

structure Block where
  hash : String
  parent : Option String
  tokens : List Nat
deriving DecidableEq, Repr

inductive KvEvent
  | blockStored (blocks : List Block)
  | blockRemoved (hashes : List String)
  | allBlocksCleared
deriving DecidableEq, Repr

structure EventBatch where
  sequence : Nat
  events : List KvEvent
deriving DecidableEq, Repr

inductive IndexError
  | invalid_block
  | conflicting_block_identity
  | kv_index_capacity
deriving DecidableEq, Repr

structure KvIndex where
  blocks : Table String Block
  /-- Several identities may describe the same edge. -/
  edges : Table (Option String × List Nat) (List String)

def KvIndex.empty : KvIndex := ⟨Table.empty, Table.empty⟩

def KvIndex.insert (index : KvIndex) (block : Block) : KvIndex :=
  let edge := (block.parent, block.tokens)
  { blocks := index.blocks.insert block.hash block
    edges := index.edges.insert edge ((index.edges.get? edge).getD [] ++ [block.hash]) }

def KvIndex.remove (index : KvIndex) (hash : String) : KvIndex :=
  match index.blocks.get? hash with
  | none => index
  | some block =>
    let edge := (block.parent, block.tokens)
    let edges :=
      match index.edges.get? edge with
      | none => index.edges
      | some hashes =>
        let hashes := hashes.filter fun h => h ≠ hash
        if hashes = [] then index.edges.erase edge else index.edges.insert edge hashes
    { blocks := index.blocks.erase hash, edges := edges }

section Apply

variable (block_size limit : Nat)

/-- The loop over the blocks of a stored event; the blocks before an error stay. -/
def KvIndex.store : KvIndex → List Block → KvIndex × Option IndexError
  | index, [] => (index, none)
  | index, block :: blocks =>
    if block_size = 0 ∨ block.tokens.length ≠ block_size ∨ block.hash = "" then
      (index, some .invalid_block)
    else
      match index.blocks.get? block.hash with
      | some old =>
        -- the same block once more is no conflict
        if old.parent ≠ block.parent ∨ old.tokens ≠ block.tokens then
          (index, some .conflicting_block_identity)
        else index.store blocks
      | none =>
        -- checked before the block is put in, unlike in the bridge
        if index.blocks.size ≥ limit then (index, some .kv_index_capacity)
        else (index.insert block).store blocks

def KvIndex.apply : KvIndex → List KvEvent → KvIndex × Option IndexError
  | index, [] => (index, none)
  | _, .allBlocksCleared :: events => KvIndex.empty.apply events
  | index, .blockRemoved hashes :: events => (hashes.foldl KvIndex.remove index).apply events
  | index, .blockStored blocks :: events =>
    match index.store block_size limit blocks with
    | (index, some e) => (index, some e)
    | (index, none) => index.apply events

def KvIndex.from_blocks (blocks : List Block) : Except IndexError KvIndex :=
  match KvIndex.empty.apply block_size limit [.blockStored blocks] with
  | (_, some e) => .error e
  | (index, none) => .ok index

end Apply

/-! ## Answers of a bridge -/

structure WorkerInfo where
  schema_version : Nat
  worker_id : String
  engine_epoch : String
  fingerprint : String
  model : String
  block_size : Nat
deriving DecidableEq, Repr

/-- The part that all answers of a bridge share. -/
structure Envelope where
  schema_version : Nat
  worker_id : String
  engine_epoch : String
deriving DecidableEq, Repr

structure RawSnapshot where
  envelope : Envelope
  sequence : Option Nat
  synced : Bool
  blocks : List RawBlock
deriving DecidableEq, Repr

structure RawDelta where
  envelope : Envelope
  sequence : Option Nat
  synced : Bool
  batches : List RawBatch
deriving DecidableEq, Repr

/-- `/routing/kv-snapshot`, or no answer. -/
def EventIndex.kvSnapshot (envelope : Envelope) (index : EventIndex) : Option RawSnapshot :=
  if index.synced then some ⟨envelope, index.sequence, index.synced, index.blocks.values⟩ else none

/-- `/routing/kv-events` for an epoch and the last sequence known, or no answer. -/
def EventIndex.kvEvents (envelope : Envelope) (index : EventIndex) (epoch : String)
    (after : Int) : Option RawDelta :=
  if epoch ≠ envelope.engine_epoch then none
  else
    match index.after after with
    | .error _ => none
    | .ok batches => some ⟨envelope, index.sequence, index.synced, batches⟩

/-! ## Decoding -/

/-- An optional sequence number, as an unsigned 64-bit number. -/
def decodeSequence (sequence : Option Nat) : Option (Option Nat) :=
  if sequence.all fun n => n < 2 ^ 64 then some sequence else none

def decodeToken (token : Int) : Option Nat :=
  if 0 ≤ token ∧ token < 2 ^ 32 then some token.toNat else none

def decodeBlock (block : RawBlock) : Option Block := do
  let hash ← block.hash
  let tokens ← block.tokens.mapM decodeToken
  return ⟨hash, block.parent, tokens⟩

def decodeEvent : Converted → Option KvEvent
  | .stored blocks => (blocks.mapM decodeBlock).map .blockStored
  | .removed hashes => (hashes.mapM id).map .blockRemoved
  | .cleared => some .allBlocksCleared

def decodeBatch (batch : RawBatch) : Option EventBatch :=
  if batch.sequence < 2 ^ 64 then
    (batch.events.mapM decodeEvent).map fun events => ⟨batch.sequence, events⟩
  else none

/-! ## Telemetry -/

inductive RouterError
  | telemetry_schema
  | invalid_worker_info
  | invalid_snapshot
  | epoch_or_stream_mismatch
  | sequence_overflow
  | event_gap
  | index (e : IndexError)
deriving DecidableEq, Repr

structure WorkerTelemetry where
  info : WorkerInfo
  index : KvIndex
  sequence : Option Nat
  synced : Bool

def WorkerInfo.validate (info : WorkerInfo) : Except RouterError Unit :=
  if info.schema_version ≠ 1 ∨ info.worker_id = "" ∨ info.engine_epoch = ""
      ∨ info.fingerprint = "" ∨ info.model = "" ∨ info.block_size = 0 then
    .error .invalid_worker_info
  else .ok ()

/-- The answer is of the engine that the telemetry is about, and its stream is whole. -/
def WorkerInfo.agrees (info : WorkerInfo) (envelope : Envelope) (synced : Bool) : Bool :=
  envelope.schema_version = 1 ∧ envelope.worker_id = info.worker_id
    ∧ envelope.engine_epoch = info.engine_epoch ∧ synced = true

/-- `WorkerTelemetry::snapshot`, with the decoding before it. -/
def WorkerTelemetry.snapshot (info : WorkerInfo) (snapshot : RawSnapshot) (limit : Nat) :
    Except RouterError WorkerTelemetry :=
  match snapshot.blocks.mapM decodeBlock, decodeSequence snapshot.sequence with
  | some blocks, some sequence =>
    match info.validate with
    | .error e => .error e
    | .ok () =>
      if info.agrees snapshot.envelope snapshot.synced then
        match KvIndex.from_blocks info.block_size limit blocks with
        | .error e => .error (.index e)
        | .ok index => .ok ⟨info, index, sequence, true⟩
      else .error .invalid_snapshot
  | _, _ => .error .telemetry_schema

/-- The loop over the batches of an answer. -/
def WorkerTelemetry.applyBatches (limit : Nat) :
    WorkerTelemetry → List EventBatch → WorkerTelemetry × Option RouterError
  | t, [] => (t, none)
  | t, batch :: batches =>
    -- a batch that is known is skipped
    if t.sequence.any fun seq => batch.sequence ≤ seq then t.applyBatches limit batches
    else if t.sequence = some (2 ^ 64 - 1) then (t, some .sequence_overflow)
    else if batch.sequence ≠ (t.sequence.map (· + 1)).getD 0 then (t, some .event_gap)
    else
      match t.index.apply t.info.block_size limit batch.events with
      | (index, some e) => ({ t with index := index }, some (.index e))
      | (index, none) =>
        WorkerTelemetry.applyBatches limit
          { t with index := index, sequence := some batch.sequence } batches

/-- `WorkerTelemetry::apply`, with the decoding before it. The telemetry is marked as out of
sync before anything else happens to it. -/
def WorkerTelemetry.apply (t : WorkerTelemetry) (delta : RawDelta) (limit : Nat) :
    WorkerTelemetry × Option RouterError :=
  match delta.batches.mapM decodeBatch, decodeSequence delta.sequence with
  | some batches, some sequence =>
    let t := { t with synced := false }
    if t.info.agrees delta.envelope delta.synced then
      match t.applyBatches limit batches with
      | (t, some e) => (t, some e)
      | (t, none) =>
        if t.sequence ≠ sequence then (t, some .event_gap)
        else ({ t with synced := true }, none)
    else (t, some .epoch_or_stream_mismatch)
  | _, _ => (t, some .telemetry_schema)

end CodexRouter.Telemetry
