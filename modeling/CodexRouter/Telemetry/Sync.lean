import CodexRouter.Telemetry.RouterSync

set_option autoImplicit false

/-! # The table of the router along a run

The answers of a bridge are faithful to the log whenever they are given, so it does not matter
in which order and how often the router is fed them.
-/

namespace CodexRouter.Telemetry

open CodexRouter.Lib

variable {setup : Setup}

/-! ## Failures inside the index -/

theorem applyBatches_synced (limit : Nat) (batches : List EventBatch) (t : WorkerTelemetry) :
    (t.applyBatches limit batches).1.synced = t.synced := by
  induction batches generalizing t with
  | nil => rfl
  | cons batch batches ih =>
    simp only [WorkerTelemetry.applyBatches]
    split
    · exact ih t
    split
    · rfl
    split
    · rfl
    split
    · rfl
    · exact ih _

theorem apply_index_error {t t' : WorkerTelemetry} {delta : RawDelta} {limit : Nat}
    {e : IndexError} (h : t.apply delta limit = (t', some (.index e))) : t'.synced = false := by
  unfold WorkerTelemetry.apply at h
  split at h
  · dsimp only at h
    split at h
    · rename_i batches _ _ _ _
      have hsynced := applyBatches_synced limit batches { t with synced := false }
      split at h
      · grind
      · split at h <;> cases h
    · cases h
  · cases h

/-! ## Runs -/

/-- What holds of bridge, answers and router in every state of a run. -/
structure SyncInv (setup : Setup) (s : System) : Prop where
  bridge : BridgeInv setup s
  snapshots : ∀ snapshot ∈ s.snapshots, snapshot.Faithful setup.log
  deltas : ∀ delta ∈ s.deltas, ∀ b ∈ delta.batches, Recorded setup b
  telemetry : ∀ t, s.telemetry = some t → (∀ e, s.error ≠ some (.index e)) → t.InStep setup.log
  failed : ∀ t e, s.telemetry = some t → s.error = some (.index e) → t.synced = false

/-- No answer goes to a telemetry whose last answer failed inside the index. -/
def intact (s : System) (e : Event) : Prop :=
  match e, s.error with
  | .feedEvents _, some (.index _) => False
  | _, _ => True

instance (s : System) (e : Event) : Decidable (intact s e) := by
  unfold intact
  split <;> infer_instance

theorem SyncInv.init (setup : Setup) : SyncInv setup System.init where
  bridge := BridgeInv.init setup
  snapshots := fun _ h => by cases h
  deltas := fun _ h => by cases h
  telemetry := fun _ h => by cases h
  failed := fun _ _ h => by cases h

/-- A synced index answers with the table of the log. -/
theorem kvSnapshot_faithful {s : System} {snapshot : RawSnapshot} (h : BridgeInv setup s)
    (hsnap : s.index.kvSnapshot setup.envelope = some snapshot) :
    snapshot.Faithful setup.log := by
  simp only [EventIndex.kvSnapshot, Option.ite_none_right_eq_some, Option.some.injEq] at hsnap
  obtain ⟨hsynced, rfl⟩ := hsnap
  refine ⟨s.index.blocks, rfl, h.sound.resolve_right fun hbroken => ?_⟩
  simp [hbroken.unsynced] at hsynced

theorem kvEvents_recorded {s : System} {epoch : String} {after : Int} {delta : RawDelta}
    (h : BridgeInv setup s)
    (hdelta : s.index.kvEvents setup.envelope epoch after = some delta) :
    ∀ b ∈ delta.batches, Recorded setup b := by
  unfold EventIndex.kvEvents at hdelta
  split at hdelta
  · cases hdelta
  split at hdelta
  · cases hdelta
  · rename_i batches hafter
    cases hdelta
    intro b hb
    simp only [EventIndex.after] at hafter
    split_ifs at hafter
    cases hafter
    exact h.batches b (List.mem_of_mem_filter hb)

section Step

variable {s t : System}

section

variable (h : SyncInv setup s)

include h

/-- Without a telemetry there is nothing to show of it. -/
theorem SyncInv.of_none (hbridge : BridgeInv setup t) (hsnapshots : t.snapshots = s.snapshots)
    (hdeltas : t.deltas = s.deltas) (htelemetry : t.telemetry = none) : SyncInv setup t where
  bridge := hbridge
  snapshots := hsnapshots ▸ h.snapshots
  deltas := hdeltas ▸ h.deltas
  telemetry := fun u hu => by simp [htelemetry] at hu
  failed := fun u _ hu => by simp [htelemetry] at hu

theorem SyncInv.kvSnapshot (hstep : step setup s .kvSnapshot = some t) :
    SyncInv setup t := by
  have hbridge := h.bridge.step hstep
  simp only [step] at hstep
  split at hstep
  · rename_i snapshot hsnap
    cases hstep
    refine ⟨hbridge, fun snap hm => ?_, h.deltas, h.telemetry, h.failed⟩
    rcases List.mem_append.mp hm with hm | hm
    · exact h.snapshots snap hm
    · rw [List.mem_singleton.mp hm]
      exact kvSnapshot_faithful h.bridge hsnap
  · cases hstep

theorem SyncInv.kvEvents {epoch : String} {after : Int}
    (hstep : step setup s (.kvEvents epoch after) = some t) : SyncInv setup t := by
  have hbridge := h.bridge.step hstep
  simp only [step] at hstep
  split at hstep
  · rename_i delta hdelta
    cases hstep
    refine ⟨hbridge, h.snapshots, fun d hm => ?_, h.telemetry, h.failed⟩
    rcases List.mem_append.mp hm with hm | hm
    · exact h.deltas d hm
    · rw [List.mem_singleton.mp hm]
      exact kvEvents_recorded h.bridge hdelta
  · cases hstep

theorem SyncInv.feedSnapshot {i : Nat} {info : WorkerInfo}
    (hstep : step setup s (.feedSnapshot i info) = some t) : SyncInv setup t := by
  have hbridge := h.bridge.step hstep
  simp only [step] at hstep
  split at hstep
  · rename_i snapshot hi
    have hfaithful := h.snapshots snapshot (List.mem_of_getElem? hi)
    split at hstep
    · rename_i t₁ hok
      cases hstep
      refine ⟨hbridge, h.snapshots, h.deltas, fun t ht _ => ?_, fun t e _ he => by cases he⟩
      cases ht
      exact snapshot_inStep hfaithful hok
    · cases hstep
      exact h.of_none hbridge rfl rfl rfl
  · cases hstep

theorem SyncInv.feedEvents {i : Nat} (hintact : intact s (.feedEvents i))
    (hstep : step setup s (.feedEvents i) = some t) : SyncInv setup t := by
  have hbridge := h.bridge.step hstep
  have herror : ∀ e, s.error ≠ some (.index e) := by
    intro e he
    simp [intact, he] at hintact
  simp only [step] at hstep
  split at hstep
  · rename_i t₀ delta ht₀ hi
    have hdelta := h.deltas delta (List.mem_of_getElem? hi)
    cases hstep
    refine ⟨hbridge, h.snapshots, h.deltas, fun t ht he => ?_, fun t e ht he => ?_⟩
    · cases ht
      exact apply_inStep (h.telemetry t₀ ht₀ herror) hdelta rfl he
    · cases ht
      exact apply_index_error (Prod.ext rfl he)
  · cases hstep

/-- The steps of engine and bridge leave the answers and the router alone. -/
theorem SyncInv.of_same (hbridge : BridgeInv setup t) (hsnapshots : t.snapshots = s.snapshots)
    (hdeltas : t.deltas = s.deltas) (htelemetry : t.telemetry = s.telemetry)
    (herror : t.error = s.error) : SyncInv setup t where
  bridge := hbridge
  snapshots := hsnapshots ▸ h.snapshots
  deltas := hdeltas ▸ h.deltas
  telemetry := htelemetry ▸ herror ▸ h.telemetry
  failed := htelemetry ▸ herror ▸ h.failed

theorem SyncInv.step {e : Event} (hintact : intact s e) (hstep : step setup s e = some t) :
    SyncInv setup t := by
  have hbridge := h.bridge.step hstep
  cases e with
  | kvSnapshot => exact h.kvSnapshot hstep
  | kvEvents epoch after => exact h.kvEvents hstep
  | feedSnapshot i info => exact h.feedSnapshot hstep
  | feedEvents i => exact h.feedEvents hintact hstep
  | discard => cases hstep; exact h.of_none hbridge rfl rfl rfl
  | receive n =>
    simp only [Telemetry.step, Option.ite_none_right_eq_some] at hstep
    obtain ⟨-, hstep⟩ := hstep
    split at hstep <;> cases hstep <;> exact h.of_same hbridge rfl rfl rfl rfl
  | poll =>
    simp only [Telemetry.step, Option.ite_none_right_eq_some] at hstep
    obtain ⟨-, hstep⟩ := hstep
    cases hstep
    exact h.of_same hbridge rfl rfl rfl rfl
  | reply first last =>
    simp only [Telemetry.step] at hstep
    split at hstep
    · split at hstep <;> cases hstep
      exact h.of_same hbridge rfl rfl rfl rfl
    · cases hstep
  | frame | endMarker =>
    simp only [Telemetry.step] at hstep
    split at hstep
    · split at hstep <;> cases hstep <;> exact h.of_same hbridge rfl rfl rfl rfl
    · cases hstep
  | _ => cases hstep; exact h.of_same hbridge rfl rfl rfl rfl

end

end Step

/-- **Router and log.** In every run of engine, bridge and router in which no answer goes to a
telemetry whose last answer failed inside the index, a synced telemetry holds the table of the
log up to its sequence: the supported events of these batches, in order and once each. -/
theorem run_router_in_step (setup : Setup) (es : List Event) (s : System) (t : WorkerTelemetry)
    (hal : Along (step setup) intact System.init es)
    (hr : run (step setup) System.init es = some s)
    (ht : s.telemetry = some t) (hsynced : t.synced = true) :
    encodeTable t.index.blocks.get? = logTable setup.log t.sequence := by
  have h := run_invariant (fun _ _ _ h hi hs => SyncInv.step h hi hs) es System.init s
    (SyncInv.init setup) hal hr
  refine (h.telemetry t ht fun e he => ?_).table
  simp [h.failed t e ht he] at hsynced

/-- An event that stores plain blocks of one token each. -/
def storeEvent (parent : RawHash) (hashes : List RawHash) (tokens : List Int) : RawEvent where
  type := some "BlockStored"
  medium := some "GPU"
  locality := none
  group_idx := some 0
  block_hashes := some hashes
  kv_cache_spec_kind := none
  kv_cache_spec_sliding_window := none
  lora_id := none
  lora_name := none
  extra_keys := none
  block_size := some 1
  token_ids := some tokens
  parent_block_hash := some parent

/-- A log that stores one block and then two, and a router with that limit. -/
def twoBatches (limit : Nat) : Setup where
  config := ⟨1, 10, 10⟩
  envelope := ⟨1, "w", "e"⟩
  limit := limit
  log := fun n =>
    if n = 0 then [storeEvent .null [.int 1] [7]]
    else if n = 1 then [storeEvent (.int 1) [.int 2, .int 3] [8, 9]]
    else []

/-- The bridge applies both batches and answers three times; the router is fed the snapshot and
the later events. -/
def answered : List Event :=
  [.publish, .receive 0, .kvSnapshot, .kvEvents "e" 0, .publish, .receive 1, .kvEvents "e" 0,
    .feedSnapshot 0 ⟨1, "w", "e", "f", "m", 1⟩, .feedEvents 1]

theorem run_router_in_step_answered :
    ∃ s t, run (step (twoBatches 10)) System.init answered = some s ∧ s.telemetry = some t
      ∧ t.synced = true
      ∧ encodeTable t.index.blocks.get? = logTable (twoBatches 10).log t.sequence := by
  have hsynced : ((run (step (twoBatches 10)) System.init answered).bind
      System.telemetry).any WorkerTelemetry.synced = true := by decide +kernel
  obtain ⟨t, ht, hsync⟩ := (Option.any_eq_true _ _).mp hsynced
  obtain ⟨s, hs, hst⟩ := Option.bind_eq_some_iff.mp ht
  exact ⟨s, t, hs, hst, hsync, run_router_in_step (twoBatches 10) answered s t
    (by decide +kernel) hs hst hsync⟩

/-- With room for two blocks the second batch fails half-way, and the earlier answer, fed after
it, brings the telemetry back in sync at the first batch with a block of the second. -/
theorem stale_answer_syncs_partial_table :
    (run (step (twoBatches 2)) System.init (answered ++ [.feedEvents 0])).map
        (fun s => s.telemetry.map fun t => (t.synced, t.sequence, t.index.blocks.keys))
      = some (some (true, some 0, ["int:1", "int:2"]))
    ∧ logTable (twoBatches 2).log (some 0) (some "int:2") = none := by
  refine ⟨?_, ?_⟩ <;> decide +kernel

end CodexRouter.Telemetry
