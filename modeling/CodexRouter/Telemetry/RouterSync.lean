import CodexRouter.Telemetry.BridgeSync

set_option autoImplicit false

/-! # The router in sync with the log

Decoding an answer keeps its writes, and an answer that the router's index accepts is carried
out as these writes. So the router's table is the table of the log up to its own sequence as
long as no answer failed inside the index. After such a failure the table is half of a batch
ahead of the sequence, and an older answer that ends at the sequence would mark it as in sync;
the collector therefore replaces a telemetry that failed.
-/

namespace CodexRouter.Telemetry

open CodexRouter.Lib

/-! ## Encoding -/

def Block.encode (block : Block) : RawBlock :=
  ⟨some block.hash, block.parent, block.tokens.map Int.ofNat⟩

/-- A router's table as a table of the bridge. -/
def encodeTable (g : String → Option Block) : Option String → Option RawBlock :=
  fun k => (k.bind g).map Block.encode

def encodeWrite : Write String Block → BlockWrite
  | .put k v => .put (some k) v.encode
  | .del k => .del (some k)
  | .clear => .clear

theorem encodeTable_act (w : Write String Block) (g : String → Option Block) :
    encodeTable (w.act g) = (encodeWrite w).act (encodeTable g) := by
  funext k
  cases k with
  | none => cases w <;> simp [encodeTable, encodeWrite, Write.act]
  | some k =>
    cases w with
    | put j v | del j =>
      by_cases hk : k = j
      · simp [encodeTable, encodeWrite, Write.act, hk]
      · simp [encodeTable, encodeWrite, Write.act, hk]
    | clear => rfl

theorem encodeTable_acts (ws : List (Write String Block)) (g : String → Option Block) :
    encodeTable (acts ws g) = acts (ws.map encodeWrite) (encodeTable g) := by
  induction ws generalizing g with
  | nil => rfl
  | cons w ws ih => rw [acts_cons, ih, encodeTable_act, List.map_cons, acts_cons]

/-! ## Decoding -/

def KvEvent.writes : KvEvent → List (Write String Block)
  | .blockStored blocks => blocks.map fun b => .put b.hash b
  | .blockRemoved hashes => hashes.map .del
  | .allBlocksCleared => [.clear]

theorem decodeToken_eq {token : Int} {n : Nat} (h : decodeToken token = some n) :
    Int.ofNat n = token := by
  simp only [decodeToken, Option.ite_none_right_eq_some, Option.some.injEq] at h
  obtain ⟨⟨hpos, _⟩, rfl⟩ := h
  exact Int.toNat_of_nonneg hpos

theorem decodeTokens_eq {tokens : List Int} {ns : List Nat}
    (h : tokens.mapM decodeToken = some ns) : ns.map Int.ofNat = tokens := by
  rw [mapM_eq_some_iff] at h
  induction h with
  | nil => rfl
  | cons h _ ih => rw [List.map_cons, decodeToken_eq h, ih]

theorem decodeBlock_encode {raw : RawBlock} {block : Block} (h : decodeBlock raw = some block) :
    block.encode = raw := by
  simp only [decodeBlock, Option.bind_eq_bind, Option.bind_eq_some_iff, Option.pure_def,
    Option.some.injEq] at h
  obtain ⟨hash, hhash, tokens, htokens, rfl⟩ := h
  simp only [Block.encode, decodeTokens_eq htokens, ← hhash]

theorem decodeBlocks_encode {raws : List RawBlock} {blocks : List Block}
    (h : raws.mapM decodeBlock = some blocks) : blocks.map Block.encode = raws := by
  rw [mapM_eq_some_iff] at h
  induction h with
  | nil => rfl
  | cons h _ ih => simp [decodeBlock_encode h, ih]

theorem decodeEvent_writes {c : Converted} {event : KvEvent} (h : decodeEvent c = some event) :
    event.writes.map encodeWrite = c.writes := by
  cases c with
  | stored raws =>
    simp only [decodeEvent, Option.map_eq_some_iff] at h
    obtain ⟨blocks, hblocks, rfl⟩ := h
    rw [← decodeBlocks_encode hblocks]
    simp [KvEvent.writes, Converted.writes, encodeWrite, Block.encode, Function.comp_def]
  | removed hashes =>
    simp only [decodeEvent, Option.map_eq_some_iff] at h
    obtain ⟨names, hnames, rfl⟩ := h
    rw [mapM_eq_some_iff] at hnames
    simp only [KvEvent.writes, Converted.writes]
    induction hnames with
    | nil => rfl
    | cons h _ ih => simp_all [encodeWrite]
  | cleared =>
    simp only [decodeEvent, Option.some.injEq] at h
    exact h ▸ rfl

theorem decodeEvents_writes {cs : List Converted} {events : List KvEvent}
    (h : cs.mapM decodeEvent = some events) :
    (events.flatMap KvEvent.writes).map encodeWrite = cs.flatMap Converted.writes := by
  rw [mapM_eq_some_iff] at h
  induction h with
  | nil => rfl
  | cons h _ ih => simp [decodeEvent_writes h, ih]

/-! ## The index of the router -/

/-- Every block stands under its own hash. -/
def KvIndex.Keyed (index : KvIndex) : Prop :=
  ∀ h b, index.blocks.get? h = some b → b.hash = h

theorem keyed_empty : KvIndex.empty.Keyed := fun h b hb => by
  simp [KvIndex.empty, Table.get?] at hb

theorem KvIndex.remove_blocks (index : KvIndex) (hash : String) :
    (index.remove hash).blocks.get? = (Write.del hash).act index.blocks.get? := by
  unfold KvIndex.remove
  cases hget : index.blocks.get? hash with
  | none =>
    funext k
    by_cases hk : k = hash
    · simp [Write.act, hk, hget]
    · simp [Write.act, hk]
  | some block => exact Table.get?_erase_eq_act index.blocks hash

theorem KvIndex.Keyed.remove {index : KvIndex} (hk : index.Keyed) (hash : String) :
    (index.remove hash).Keyed := by
  intro h b hb
  simp only [KvIndex.remove_blocks, Write.act] at hb
  split at hb
  · cases hb
  · exact hk h b hb

theorem KvIndex.removes {index : KvIndex} (hk : index.Keyed) (hashes : List String) :
    (hashes.foldl KvIndex.remove index).Keyed
      ∧ (hashes.foldl KvIndex.remove index).blocks.get?
        = acts (hashes.map .del) index.blocks.get? := by
  induction hashes generalizing index with
  | nil => exact ⟨hk, rfl⟩
  | cons h hashes ih =>
    obtain ⟨hkeyed, hget⟩ := ih (hk.remove h)
    exact ⟨hkeyed, by rw [List.foldl_cons, hget, KvIndex.remove_blocks]; rfl⟩

section Apply

variable {block_size limit : Nat} {index left : KvIndex}

/-- Stored blocks that are accepted have been put in, those already there included. -/
theorem KvIndex.store_ok {blocks : List Block} (hk : index.Keyed)
    (h : index.store block_size limit blocks = (left, none)) :
    left.Keyed ∧ left.blocks.get?
      = acts (blocks.map fun b => .put b.hash b) index.blocks.get? := by
  induction blocks generalizing index with
  | nil =>
    simp only [KvIndex.store, Prod.mk.injEq, and_true] at h
    exact h ▸ ⟨hk, rfl⟩
  | cons block blocks ih =>
    simp only [KvIndex.store] at h
    split at h
    · simp at h
    · split at h
      · rename_i old hold
        split at h
        · simp at h
        · -- the block is there already
          rename_i hsame
          have hblock : old = block := by
            have := hk _ _ hold
            cases old
            cases block
            simp_all
          have hput : (Write.put block.hash block).act index.blocks.get?
              = index.blocks.get? := by grind [Write.act]
          rw [List.map_cons, acts_cons, hput]
          exact ih hk h
      · split at h
        · simp at h
        · have hins : (index.insert block).blocks.get?
              = (Write.put block.hash block).act index.blocks.get? :=
            Table.get?_insert_eq_act index.blocks block.hash block
          have hkeyed : (index.insert block).Keyed := by
            intro k b hb
            simp only [hins, Write.act] at hb
            split at hb
            · grind
            · exact hk k b hb
          rw [List.map_cons, acts_cons, ← hins]
          exact ih hkeyed h

theorem KvIndex.apply_ok {events : List KvEvent} (hk : index.Keyed)
    (h : index.apply block_size limit events = (left, none)) :
    left.Keyed ∧ left.blocks.get?
      = acts (events.flatMap KvEvent.writes) index.blocks.get? := by
  induction events generalizing index with
  | nil =>
    simp only [KvIndex.apply, Prod.mk.injEq, and_true] at h
    exact h ▸ ⟨hk, rfl⟩
  | cons event events ih =>
    rw [List.flatMap_cons, acts_append]
    cases event with
    | allBlocksCleared =>
      exact ih keyed_empty h
    | blockRemoved hashes =>
      simp only [KvIndex.apply] at h
      obtain ⟨hkeyed, hget⟩ := KvIndex.removes hk hashes
      have := ih hkeyed h
      rwa [hget] at this
    | blockStored blocks =>
      simp only [KvIndex.apply] at h
      split at h
      · simp at h
      · rename_i mid hstore
        obtain ⟨hkeyed, hget⟩ := KvIndex.store_ok hk hstore
        have := ih hkeyed h
        rwa [hget] at this

end Apply

/-! ## Snapshots -/

/-- Every block of a map stands under its own hash. -/
def Keyed (f : Option String → Option RawBlock) : Prop := ∀ k b, f k = some b → b.hash = k

theorem keyed_acts {ws : List BlockWrite} {f : Option String → Option RawBlock} (hf : Keyed f)
    (hws : ∀ k b, .put k b ∈ ws → b.hash = k) : Keyed (acts ws f) := by
  induction ws generalizing f with
  | nil => exact hf
  | cons w ws ih =>
    refine ih ?_ fun k b hm => hws k b (List.mem_cons_of_mem _ hm)
    intro k b hb
    cases w with
    | put j v =>
      simp only [Write.act] at hb
      split at hb
      · grind
      · exact hf k b hb
    | del j => grind [Write.act, Keyed]
    | clear => simp [Write.act] at hb

theorem RawEvent.put_mem_writes {event : RawEvent} {k : Option String} {b : RawBlock}
    (h : .put k b ∈ event.writes) : b.hash = k := by
  unfold RawEvent.writes at h
  split at h
  · cases h
  · grind

theorem keyed_logTable (log : Nat → List RawEvent) (sequence : Option Nat) :
    Keyed (logTable log sequence) := by
  refine keyed_acts (fun k b hb => by cases hb) fun k b hm => ?_
  simp only [logWrites, List.mem_flatMap] at hm
  obtain ⟨_, _, event, _, hput⟩ := hm
  exact event.put_mem_writes hput

/-- The blocks of an answer list the table of the log up to its sequence. -/
def RawSnapshot.Faithful (log : Nat → List RawEvent) (snapshot : RawSnapshot) : Prop :=
  ∃ table : Blocks, table.values = snapshot.blocks
    ∧ table.get? = logTable log snapshot.sequence

theorem RawSnapshot.Faithful.writes {log : Nat → List RawEvent} {snapshot : RawSnapshot}
    (h : snapshot.Faithful log) :
    acts (snapshot.blocks.map fun b => .put b.hash b) (fun _ => none)
      = logTable log snapshot.sequence := by
  obtain ⟨table, hvalues, hget⟩ := h
  have hentries : table.values.map (fun b => Write.put b.hash b)
      = table.entries.map fun e => Write.put e.1 e.2 := by
    rw [Table.values, List.map_map]
    apply List.map_congr_left
    intro e he
    have hkeyed := keyed_logTable log snapshot.sequence e.1 e.2
      (hget ▸ Table.get?_eq_some_iff.mpr he)
    simp [hkeyed]
  rw [← hvalues, hentries, Table.acts_entries, hget]

/-! ## Telemetry -/

/-- The table of the telemetry is the table of the log up to its sequence. -/
structure WorkerTelemetry.InStep (log : Nat → List RawEvent) (t : WorkerTelemetry) : Prop where
  keyed : t.index.Keyed
  table : encodeTable t.index.blocks.get? = logTable log t.sequence

section Telemetry

variable {log : Nat → List RawEvent} {limit : Nat} {t t' : WorkerTelemetry}

theorem snapshot_inStep {info : WorkerInfo} {snapshot : RawSnapshot} (h : snapshot.Faithful log)
    (hok : WorkerTelemetry.snapshot info snapshot limit = .ok t) : t.InStep log := by
  unfold WorkerTelemetry.snapshot at hok
  split at hok
  · rename_i blocks sequence hblocks hseq
    split at hok
    · cases hok
    split at hok
    · split at hok
      · cases hok
      · rename_i index hindex
        cases hok
        simp only [decodeSequence, Option.ite_none_right_eq_some, Option.some.injEq] at hseq
        obtain ⟨-, rfl⟩ := hseq
        unfold KvIndex.from_blocks at hindex
        split at hindex
        · cases hindex
        · rename_i happ
          cases hindex
          obtain ⟨hkeyed, hget⟩ := KvIndex.apply_ok keyed_empty happ
          refine ⟨hkeyed, ?_⟩
          show encodeTable index.blocks.get? = logTable log snapshot.sequence
          have hempty : encodeTable KvIndex.empty.blocks.get? = fun _ => none := by
            funext k
            cases k <;> rfl
          rw [hget, encodeTable_acts, hempty, ← h.writes, ← decodeBlocks_encode hblocks]
          simp [KvEvent.writes, encodeWrite, Block.encode, Function.comp_def]
    · cases hok
  · cases hok

/-- The decoded batch writes what the batch of the log writes. -/
def EventBatch.Faithful (log : Nat → List RawEvent) (batch : EventBatch) : Prop :=
  (batch.events.flatMap KvEvent.writes).map encodeWrite
    = (log batch.sequence).flatMap RawEvent.writes

theorem decodeBatches_faithful {setup : Setup} {raws : List RawBatch} {batches : List EventBatch}
    (hraws : ∀ b ∈ raws, Recorded setup b) (h : raws.mapM decodeBatch = some batches) :
    ∀ b ∈ batches, b.Faithful setup.log := by
  rw [mapM_eq_some_iff] at h
  induction h with
  | nil => intro b hb; cases hb
  | @cons raw batch raws batches hdec _ ih =>
    intro b hb
    rcases List.mem_cons.mp hb with rfl | hb
    · simp only [decodeBatch, Option.ite_none_right_eq_some, Option.map_eq_some_iff] at hdec
      obtain ⟨-, events, hevents, rfl⟩ := hdec
      exact (decodeEvents_writes hevents).trans (hraws raw List.mem_cons_self)
    · exact ih (fun b hb => hraws b (List.mem_cons_of_mem _ hb)) b hb

/-- The loop over the batches keeps the telemetry in step, whatever stops it but an error of
the index. -/
theorem applyBatches_inStep {batches : List EventBatch} {e : Option RouterError}
    (ht : t.InStep log) (hb : ∀ b ∈ batches, b.Faithful log)
    (h : t.applyBatches limit batches = (t', e)) (he : ∀ ie, e ≠ some (.index ie)) :
    t'.InStep log := by
  induction batches generalizing t with
  | nil =>
    simp only [WorkerTelemetry.applyBatches, Prod.mk.injEq] at h
    exact h.1 ▸ ht
  | cons batch batches ih =>
    have hrest : ∀ b ∈ batches, b.Faithful log := fun b hm => hb b (List.mem_cons_of_mem _ hm)
    simp only [WorkerTelemetry.applyBatches] at h
    split at h
    · exact ih ht hrest h
    split at h
    · cases h
      exact ht
    split at h
    · cases h
      exact ht
    · rename_i hnext
      rw [ne_eq, not_not] at hnext
      split at h
      · cases h
        exact absurd rfl (he _)
      · rename_i index happ
        obtain ⟨hkeyed, hget⟩ := KvIndex.apply_ok ht.keyed happ
        refine ih ⟨hkeyed, ?_⟩ hrest h
        show encodeTable index.blocks.get? = logTable log (some batch.sequence)
        calc encodeTable index.blocks.get?
            = acts ((batch.events.flatMap KvEvent.writes).map encodeWrite)
                (encodeTable t.index.blocks.get?) := by rw [hget, encodeTable_acts]
          _ = acts ((log batch.sequence).flatMap RawEvent.writes) (logTable log t.sequence) := by
              rw [hb batch List.mem_cons_self, ht.table]
          _ = logTable log (some batch.sequence) := by rw [hnext, logTable_next]

theorem apply_inStep {setup : Setup} {delta : RawDelta} {e : Option RouterError}
    (ht : t.InStep setup.log) (hd : ∀ b ∈ delta.batches, Recorded setup b)
    (h : t.apply delta limit = (t', e)) (he : ∀ ie, e ≠ some (.index ie)) :
    t'.InStep setup.log := by
  unfold WorkerTelemetry.apply at h
  split at h
  · rename_i batches sequence hbatches hseq
    have ht₀ : WorkerTelemetry.InStep setup.log { t with synced := false } := ⟨ht.keyed, ht.table⟩
    have hfaithful := decodeBatches_faithful hd hbatches
    dsimp only at h
    split at h
    · split at h
      · rename_i u e' happ
        cases h
        exact applyBatches_inStep ht₀ hfaithful happ he
      · rename_i u happ
        have hu := applyBatches_inStep ht₀ hfaithful happ (by simp)
        split at h
        · cases h
          exact hu
        · cases h
          exact ⟨hu.keyed, hu.table⟩
    · cases h
      exact ht₀
  · cases h
    exact ht

end Telemetry

end CodexRouter.Telemetry
