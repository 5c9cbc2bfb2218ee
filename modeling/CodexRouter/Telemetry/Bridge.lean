import CodexRouter.Lib.Table

set_option autoImplicit false

/-! # The event index of the telemetry bridge

The bridge of `router/scripts/routing/bridge.py` sits beside one engine and keeps an index of
the KV blocks that the engine's events report. An engine event arrives as a decoded map; a key
that is missing or null is `none` here, and reading a missing key by subscript raises. An event
is applied to the index while it is converted, so that a batch which raises leaves the blocks
of its first events in the index.
-/

namespace CodexRouter.Telemetry

open CodexRouter.Lib

/-! ## Events of the engine -/

inductive PyError
  | value (message : String)
  | key (name : String)
deriving DecidableEq, Repr

/-- A block hash as the engine encodes it. -/
inductive RawHash
  | null
  | bytes (value : List UInt8)
  | int (value : Int)
  | other
deriving DecidableEq, Repr

structure RawEvent where
  type : Option String
  medium : Option String
  locality : Option String
  group_idx : Option Int
  block_hashes : Option (List RawHash)
  kv_cache_spec_kind : Option String
  kv_cache_spec_sliding_window : Option Int
  lora_id : Option Int
  lora_name : Option String
  /-- Whether each of the extra keys is true. -/
  extra_keys : Option (List Bool)
  block_size : Option Nat
  token_ids : Option (List Int)
  parent_block_hash : Option RawHash
deriving DecidableEq, Repr

def hexByte (b : UInt8) : List Char := [Nat.digitChar (b.toNat / 16), Nat.digitChar (b.toNat % 16)]

/-- `EventIndex.key`. -/
def key : RawHash → Except PyError (Option String)
  | .null => .ok none
  | .bytes value => .ok (some ("hex:" ++ String.ofList (value.flatMap hexByte)))
  | .int value => .ok (some ("int:" ++ toString value))
  | .other => .error (.value "unsupported block hash encoding")

/-! ## Blocks and converted events -/

structure RawBlock where
  hash : Option String
  parent : Option String
  tokens : List Int
deriving DecidableEq, Repr

inductive Converted
  | stored (blocks : List RawBlock)
  | removed (hashes : List (Option String))
  | cleared
deriving DecidableEq, Repr

structure RawBatch where
  sequence : Nat
  events : List Converted
deriving DecidableEq, Repr

/-- The blocks of an index under their keys. -/
abbrev Blocks : Type := Table (Option String) RawBlock

/-! ## Applying a batch -/

structure BridgeConfig where
  block_size : Nat
  max_blocks : Nat
  buffer_steps : Nat
deriving DecidableEq, Repr

section Apply

variable (config : BridgeConfig)

/-- The loop over the hashes of a stored event. The blocks stored before an error stay, and so
does the one that exceeds the capacity. -/
def storeLoop (size : Nat) (tokens : List Int) :
    Nat → Option String → List (Option String) → Blocks → Blocks × Except PyError (List RawBlock)
  | _, _, [], blocks => (blocks, .ok [])
  | i, parent, h :: hashes, blocks =>
    let block : RawBlock := ⟨h, parent, (tokens.drop (i * size)).take size⟩
    if (blocks.get? h).any fun old => old ≠ block then
      (blocks, .error (.value "conflicting block identity"))
    else
      let blocks := blocks.insert h block
      -- the block is in the table before the size is checked
      if blocks.size > config.max_blocks then (blocks, .error (.value "index capacity"))
      else
        match storeLoop size tokens (i + 1) h hashes blocks with
        | (blocks, .ok stored) => (blocks, .ok (block :: stored))
        | (blocks, .error e) => (blocks, .error e)

/-- The branch of `BlockStored`. Blocks with adapters or extra keys are passed over. -/
def applyStored (blocks : Blocks) (event : RawEvent) (hashes : List (Option String)) :
    Blocks × Except PyError (Option Converted) :=
  if event.kv_cache_spec_kind ∉ [none, some "FullAttentionSpec"]
      ∨ event.kv_cache_spec_sliding_window ≠ none then
    (blocks, .error (.value "unsupported attention layout"))
  else if event.lora_id ∉ [none, some 0] ∨ event.lora_name ≠ none
      ∨ (event.extra_keys.getD []).any id then
    (blocks, .ok none)
  else
    match event.block_size, event.token_ids, event.parent_block_hash with
    | none, _, _ => (blocks, .error (.key "block_size"))
    | some _, none, _ => (blocks, .error (.key "token_ids"))
    | some size, some tokens, parent =>
      if size ≠ config.block_size ∨ tokens.length ≠ size * hashes.length then
        (blocks, .error (.value "invalid block shape"))
      else
        match parent with
        | none => (blocks, .error (.key "parent_block_hash"))
        | some parent =>
          match key parent with
          | .error e => (blocks, .error e)
          | .ok parent =>
            match storeLoop config size tokens 0 parent hashes blocks with
            | (blocks, .ok stored) => (blocks, .ok (some (.stored stored)))
            | (blocks, .error e) => (blocks, .error e)

/-- The body of the loop over the events of a batch; `none` is an event that is passed over. -/
def applyEvent (blocks : Blocks) (event : RawEvent) :
    Blocks × Except PyError (Option Converted) :=
  match event.type with
  | none => (blocks, .error (.key "type"))
  | some kind =>
    -- clearing comes before the medium and the locality are looked at
    if kind = "AllBlocksCleared" then (Table.empty, .ok (some .cleared))
    else if event.medium ≠ some "GPU" ∨ event.locality ∉ [none, some "LOCAL"] then
      (blocks, .ok none)
    else if event.group_idx ∉ [none, some 0] then
      (blocks, .error (.value "unsupported cache group"))
    else
      match event.block_hashes with
      | none => (blocks, .error (.key "block_hashes"))
      | some raw =>
        match raw.mapM key with
        | .error e => (blocks, .error e)
        | .ok hashes =>
          if kind = "BlockRemoved" then
            (hashes.foldl Table.erase blocks, .ok (some (.removed hashes)))
          else if kind = "BlockStored" then applyStored config blocks event hashes
          else (blocks, .error (.value "unsupported event"))

def applyEvents : Blocks → List RawEvent → Blocks × Except PyError (List Converted)
  | blocks, [] => (blocks, .ok [])
  | blocks, event :: events =>
    match applyEvent config blocks event with
    | (blocks, .error e) => (blocks, .error e)
    | (blocks, .ok first) =>
      match applyEvents blocks events with
      | (blocks, .ok rest) => (blocks, .ok (first.toList ++ rest))
      | (blocks, .error e) => (blocks, .error e)

end Apply

/-! ## The index -/

structure EventIndex where
  batches : List RawBatch
  blocks : Blocks
  sequence : Option Nat
  synced : Bool

def EventIndex.init : EventIndex := ⟨[], Table.empty, none, false⟩

/-- The sequence that comes next. -/
def EventIndex.expected (index : EventIndex) : Nat :=
  match index.sequence with
  | none => 0
  | some sequence => sequence + 1

/-- Append to a `deque` of bounded length. -/
def pushBounded {α : Type} (maxlen : Nat) (l : List α) (x : α) : List α :=
  (l ++ [x]).drop (l.length + 1 - maxlen)

/-- `EventIndex.apply`, and what it raises. -/
def EventIndex.apply (config : BridgeConfig) (index : EventIndex) (sequence : Nat)
    (events : List RawEvent) : EventIndex × Option PyError :=
  if index.sequence.any fun last => sequence ≤ last then (index, none)
  else if sequence ≠ index.expected then
    ({ index with synced := false }, some (.value "event gap"))
  else
    match applyEvents config index.blocks events with
    -- the blocks of the events before the error stay, the sequence does not move
    | (blocks, .error e) => ({ index with blocks := blocks, synced := false }, some e)
    | (blocks, .ok converted) =>
      ({ batches := pushBounded config.buffer_steps index.batches ⟨sequence, converted⟩
         blocks := blocks
         sequence := some sequence
         synced := true }, none)

/-- `EventIndex.after`. -/
def EventIndex.after (index : EventIndex) (after : Int) : Except PyError (List RawBatch) :=
  if ¬ index.synced then .error (.value "unsynced")
  else
    let batches := index.batches.filter fun b => (b.sequence : Int) > after
    let current : Int := match index.sequence with
      | some sequence => sequence
      | none => -1
    if after ≠ current ∧ (batches.head?).all fun b => (b.sequence : Int) ≠ after + 1 then
      .error (.value "snapshot required")
    else .ok batches

end CodexRouter.Telemetry
