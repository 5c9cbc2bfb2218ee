import CodexRouter.Lib.Fallible
import CodexRouter.Lib.Writes
import CodexRouter.Telemetry.Bridge

set_option autoImplicit false

/-! # What the bridge writes

The supported events of the engine's log are writes to a map of blocks, and the table that
the log stands for is what these writes make of an empty map. Applying a batch to the bridge's
index is a checked pass over the same writes. A batch that fails half-way therefore fails
again whenever it is delivered again.
-/

namespace CodexRouter.Telemetry

open CodexRouter.Lib

/-! ## The table of a log -/

/-- The writes to a map of blocks. -/
abbrev BlockWrite : Type := Write (Option String) RawBlock

/-- The key of a hash, where it has one. -/
def keyOf (hash : RawHash) : Option String :=
  match key hash with
  | .ok key => key
  | .error _ => none

/-- The blocks of a stored event: each one's parent is the one before it. -/
def RawEvent.blocks (event : RawEvent) : List RawBlock :=
  let hashes := (event.block_hashes.getD []).map keyOf
  let size := event.block_size.getD 0
  hashes.mapIdx fun i h =>
    { hash := h
      parent := if i = 0 then event.parent_block_hash.bind keyOf else hashes[i - 1]?.join
      tokens := ((event.token_ids.getD []).drop (i * size)).take size }

/-- The event is about the local GPU and cache group 0. -/
def RawEvent.isLocal (event : RawEvent) : Prop :=
  event.medium = some "GPU" ∧ event.locality ∈ [none, some "LOCAL"]
    ∧ event.group_idx ∈ [none, some 0]

/-- The event stores plain blocks, without an adapter and without extra keys. -/
def RawEvent.isPlain (event : RawEvent) : Prop :=
  event.lora_id ∈ [none, some 0] ∧ event.lora_name = none
    ∧ ¬ (event.extra_keys.getD []).any id

instance (event : RawEvent) : Decidable event.isLocal :=
  inferInstanceAs (Decidable (_ ∧ _ ∧ _))

instance (event : RawEvent) : Decidable event.isPlain :=
  inferInstanceAs (Decidable (_ ∧ _ ∧ _))

/-- What a supported event writes; any other event writes nothing. -/
def RawEvent.writes (event : RawEvent) : List BlockWrite :=
  match event.type with
  | none => []
  | some kind =>
    if kind = "AllBlocksCleared" then [.clear]
    else if kind = "BlockRemoved" then
      if event.isLocal then ((event.block_hashes.getD []).map keyOf).map .del else []
    else if kind = "BlockStored" then
      if event.isLocal ∧ event.isPlain then event.blocks.map fun b => .put b.hash b else []
    else []

/-- The writes of the first `n` batches of a log, in order. -/
def logWrites (log : Nat → List RawEvent) (n : Nat) : List BlockWrite :=
  (List.range n).flatMap fun i => (log i).flatMap RawEvent.writes

/-- The table of a log up to a sequence. -/
def logTable (log : Nat → List RawEvent) (sequence : Option Nat) :
    Option String → Option RawBlock :=
  acts (logWrites log ((sequence.map (· + 1)).getD 0)) fun _ => none

/-- One more batch. -/
theorem logTable_next (log : Nat → List RawEvent) (sequence : Option Nat) :
    logTable log (some ((sequence.map (· + 1)).getD 0))
      = acts ((log ((sequence.map (· + 1)).getD 0)).flatMap RawEvent.writes)
          (logTable log sequence) := by
  simp [logTable, logWrites, List.range_succ, acts_append]

/-! ## Applying a batch is a checked pass -/

def Converted.writes : Converted → List BlockWrite
  | .stored blocks => blocks.map fun b => .put b.hash b
  | .removed hashes => hashes.map .del
  | .cleared => [.clear]

local instance lawfulName : LawfulBEq (Option String) := inferInstance

local instance lawfulIndex : LawfulBEq (Option Int) := inferInstance

/-- The blocks that the loop of a stored event makes. -/
def chain (size : Nat) (tokens : List Int) :
    Nat → Option String → List (Option String) → List RawBlock
  | _, _, [] => []
  | i, parent, h :: hashes =>
    ⟨h, parent, (tokens.drop (i * size)).take size⟩ :: chain size tokens (i + 1) h hashes

theorem chain_eq_mapIdx (size : Nat) (tokens : List Int) (i : Nat) (parent : Option String)
    (hashes : List (Option String)) :
    chain size tokens i parent hashes
      = hashes.mapIdx fun j h =>
          { hash := h
            parent := if j = 0 then parent else hashes[j - 1]?.join
            tokens := (tokens.drop ((i + j) * size)).take size } := by
  induction hashes generalizing i parent with
  | nil => rfl
  | cons h hashes ih =>
    rw [chain, ih, List.mapIdx_cons]
    congr 1
    apply List.mapIdx_eq_mapIdx_iff.mpr
    intro j hj
    cases j with
    | zero => simp
    | succ j => simp [Nat.add_assoc, Nat.add_comm 1]

theorem mapM_key {raw : List RawHash} {hashes : List (Option String)}
    (h : raw.mapM key = .ok hashes) : hashes = raw.map keyOf := by
  rw [mapM_eq_ok_iff] at h
  induction h with
  | nil => rfl
  | cons hkey _ ih => simp [keyOf, hkey, ih]

abbrev Check : Type := Checked (Option String) RawBlock PyError

/-- The pass of a bridge with that capacity. -/
def bridgePass (config : BridgeConfig) (blocks : Blocks) (cs : List Check) :
    Blocks × Option PyError :=
  checkedPass config.max_blocks (.value "conflicting block identity") (.value "index capacity")
    blocks cs

section

variable (config : BridgeConfig)

section

variable (blocks : Blocks)

theorem bridgePass_append (cs ds : List Check) :
    bridgePass config blocks (cs ++ ds)
      = match bridgePass config blocks cs with
        | (left, none) => bridgePass config left ds
        | (left, some e) => (left, some e) := by
  simp only [bridgePass, checkedPass_append]
  generalize checkedPass config.max_blocks _ _ blocks cs = r
  obtain ⟨left, _ | e⟩ := r <;> rfl

/-- A pass that goes through returns a value prepared beforehand. -/
def answer {α : Type} (a : α) : Blocks × Option PyError → Blocks × Except PyError α
  | (blocks, none) => (blocks, .ok a)
  | (blocks, some e) => (blocks, .error e)

theorem storeLoop_eq (size : Nat) (tokens : List Int) (i : Nat) (parent : Option String)
    (hashes : List (Option String)) :
    storeLoop config size tokens i parent hashes blocks
      = answer (chain size tokens i parent hashes)
          (bridgePass config blocks ((chain size tokens i parent hashes).map fun b =>
            .write (.put b.hash b))) := by
  induction hashes generalizing i parent blocks with
  | nil => rfl
  | cons h hashes ih =>
    simp only [storeLoop, chain, List.map_cons, bridgePass, checkedPass]
    split
    · rfl
    · split
      · rfl
      · rw [ih]
        unfold bridgePass
        generalize checkedPass config.max_blocks _ _ (blocks.insert _ _) _ = r
        obtain ⟨b, _ | e⟩ := r <;> rfl

theorem bridgePass_dels (hashes : List (Option String)) :
    bridgePass config blocks ((hashes.map .del).map .write)
      = (hashes.foldl Table.erase blocks, none) := by
  induction hashes generalizing blocks with
  | nil => rfl
  | cons h hashes ih => exact ih _

end

/-- An application to the blocks is a checked pass whose checks do not depend on the blocks. They
are the given writes, and so is what is returned, unless a check fails by itself. -/
def IsPass {α : Type} (out : α → List BlockWrite) (writes : List BlockWrite)
    (apply : Blocks → Blocks × Except PyError α) : Prop :=
  ∃ cs a, (∀ blocks, apply blocks = answer a (bridgePass config blocks cs))
    ∧ ∀ ws, cs = ws.map .write → ws = writes ∧ out a = writes

abbrev EventPass (event : RawEvent) :
    (Blocks → Blocks × Except PyError (Option Converted)) → Prop :=
  IsPass config (fun c => c.toList.flatMap Converted.writes) event.writes

end

section

variable {config : BridgeConfig} {α : Type} {out : α → List BlockWrite} {writes : List BlockWrite}
  {f g : Blocks → Blocks × Except PyError α}

theorem IsPass.ite {p : Prop} [Decidable p] (hf : p → IsPass config out writes f)
    (hg : ¬ p → IsPass config out writes g) :
    IsPass config out writes fun blocks => if p then f blocks else g blocks := by
  by_cases h : p
  · simpa only [if_pos h] using hf h
  · simpa only [if_neg h] using hg h

/-- What is refused has not touched the blocks. -/
theorem isPass_error [Inhabited α] (e : PyError) :
    IsPass config out writes fun blocks => (blocks, .error e) := by
  refine ⟨[.fail e], default, fun _ => rfl, fun ws hws => ?_⟩
  cases ws <;> cases hws

theorem isPass_writes {a : α} (hout : out a = writes)
    (h : ∀ blocks, f blocks = answer a (bridgePass config blocks (writes.map .write))) :
    IsPass config out writes f := by
  have hinj : Function.Injective (Checked.write : BlockWrite → Check) :=
    fun _ _ h => Checked.write.inj h
  exact ⟨_, a, h, fun ws hws => ⟨(List.map_injective_iff.mpr hinj hws).symm, hout⟩⟩

end

section

variable (config : BridgeConfig)

theorem eventPass_skip {event : RawEvent} (h : event.writes = []) :
    EventPass config event fun blocks => (blocks, .ok none) :=
  isPass_writes (a := none) h.symm fun blocks => by rw [h]; rfl

theorem applyStored_isPass {event : RawEvent} {raw : List RawHash}
    (hkind : event.type = some "BlockStored") (hlocal : event.isLocal)
    (hraw : event.block_hashes = some raw) :
    EventPass config event fun blocks => applyStored config blocks event (raw.map keyOf) := by
  have hwrites : event.writes
      = if event.isPlain then event.blocks.map fun b => .put b.hash b else [] := by
    simp [RawEvent.writes, hkind, hlocal]
  refine .ite (fun _ => isPass_error _) fun _ => .ite (fun hnot => ?_) fun hplain => ?_
  · -- adapters and extra keys
    exact eventPass_skip config (by rw [hwrites, if_neg]; simp only [RawEvent.isPlain]; tauto)
  rw [if_pos (by simp only [RawEvent.isPlain]; tauto)] at hwrites
  cases hsize : event.block_size with
  | none => exact isPass_error _
  | some size =>
    cases htokens : event.token_ids with
    | none => exact isPass_error _
    | some tokens =>
      refine .ite (fun _ => isPass_error _) fun _ => ?_
      cases hparent : event.parent_block_hash with
      | none => exact isPass_error _
      | some hash =>
        dsimp only
        cases hkey : key hash with
        | error e => exact isPass_error _
        | ok parent =>
          have hblocks : chain size tokens 0 parent (raw.map keyOf) = event.blocks := by
            rw [chain_eq_mapIdx]
            simp [RawEvent.blocks, hraw, hsize, htokens, hparent, keyOf, hkey]
          refine isPass_writes (a := some (.stored event.blocks)) ?_ fun blocks => ?_
          · simp [hwrites, Converted.writes]
          · simp only [storeLoop_eq, hblocks, hwrites, List.map_map, Function.comp_def]
            generalize bridgePass config blocks _ = r
            obtain ⟨left, _ | e⟩ := r <;> rfl

/-- A supported event is a pass over its writes, and any other that is not refused over none. -/
theorem applyEvent_isPass (event : RawEvent) :
    EventPass config event fun blocks => applyEvent config blocks event := by
  unfold applyEvent
  cases hkind : event.type with
  | none => exact isPass_error _
  | some kind =>
    refine .ite (fun hcleared => ?_) fun hcleared => .ite (fun hnot => ?_) fun hmedium =>
      .ite (fun _ => isPass_error _) fun hgroup => ?_
    · have hwrites : event.writes = [.clear] := by simp [RawEvent.writes, hkind, hcleared]
      exact isPass_writes (a := some .cleared) (by rw [hwrites]; rfl) fun _ => by rw [hwrites]; rfl
    · -- another medium
      have hlocal : ¬ event.isLocal := by simp only [RawEvent.isLocal]; tauto
      exact eventPass_skip config (by simp [RawEvent.writes, hkind, hcleared, hlocal])
    have hlocal : event.isLocal := by simp only [RawEvent.isLocal]; tauto
    cases hraw : event.block_hashes with
    | none => exact isPass_error _
    | some raw =>
      dsimp only
      cases hhashes : raw.mapM key with
      | error e => exact isPass_error _
      | ok hashes =>
        obtain rfl := mapM_key hhashes
        refine .ite (fun hremoved => ?_) fun _ => .ite (fun hstored => ?_)
          fun _ => isPass_error _
        · have hwrites : event.writes = (raw.map keyOf).map .del := by
            simp [RawEvent.writes, hkind, hremoved, hlocal, hraw]
          refine isPass_writes (a := some (.removed (raw.map keyOf))) ?_ fun blocks => ?_
          · simp [hwrites, Converted.writes]
          · rw [hwrites, bridgePass_dels]
            rfl
        · exact applyStored_isPass config (hstored ▸ hkind) hlocal hraw

/-- **Applying events is one checked pass** over the writes of the supported ones, and its answer
is what they are converted to. -/
theorem applyEvents_isPass (events : List RawEvent) :
    IsPass config (List.flatMap Converted.writes) (events.flatMap RawEvent.writes)
      fun blocks => applyEvents config blocks events := by
  induction events with
  | nil => exact isPass_writes (a := []) rfl fun _ => rfl
  | cons event events ih =>
    obtain ⟨cs, c, hfirst, hc⟩ := applyEvent_isPass config event
    obtain ⟨ds, converted, hrest, hconverted⟩ := ih
    refine ⟨cs ++ ds, c.toList ++ converted, fun blocks => ?_, fun ws hws => ?_⟩
    · have hfirst : applyEvent config blocks event = _ := hfirst blocks
      simp only [applyEvents, hfirst, bridgePass_append]
      obtain ⟨left, _ | e⟩ := bridgePass config blocks cs
      · have hrest : applyEvents config left events = _ := hrest left
        simp only [answer, hrest]
        obtain ⟨u, _ | e⟩ := bridgePass config left ds <;> rfl
      · rfl
    · obtain ⟨ws₁, ws₂, rfl, hws₁, hws₂⟩ := List.append_eq_map_iff.mp hws
      obtain ⟨rfl, hout⟩ := hc ws₁ hws₁.symm
      obtain ⟨rfl, houts⟩ := hconverted ws₂ hws₂.symm
      exact ⟨rfl, List.flatMap_append.trans (congrArg₂ (· ++ ·) hout houts)⟩

end

section

variable {config : BridgeConfig} {events : List RawEvent} {blocks left : Blocks}

/-- What a batch that goes through does to the blocks, and what it is converted to. -/
theorem applyEvents_ok {converted : List Converted}
    (h : applyEvents config blocks events = (left, .ok converted)) :
    left.get? = acts (events.flatMap RawEvent.writes) blocks.get?
      ∧ converted.flatMap Converted.writes = events.flatMap RawEvent.writes := by
  obtain ⟨cs, a, hpass, hwrites⟩ := applyEvents_isPass config events
  replace h := (hpass blocks).symm.trans h
  rcases hp : bridgePass config blocks cs with ⟨u, _ | e⟩
  · rw [hp] at h
    obtain ⟨rfl, rfl⟩ := h
    obtain ⟨ws, hws, hget⟩ := checkedPass_ok hp
    obtain ⟨rfl, hout⟩ := hwrites ws hws
    exact ⟨hget, hout⟩
  · rw [hp] at h
    simp [answer] at h

/-- **A batch that failed fails again**, on the blocks that it left. -/
theorem applyEvents_fails_again {e : PyError}
    (h : applyEvents config blocks events = (left, .error e)) :
    ∃ left' e', applyEvents config left events = (left', .error e') := by
  obtain ⟨cs, a, hpass, _⟩ := applyEvents_isPass config events
  replace h := (hpass blocks).symm.trans h
  rcases hp : bridgePass config blocks cs with ⟨u, _ | e₁⟩
  · rw [hp] at h
    simp [answer] at h
  · rw [hp] at h
    simp only [answer, Prod.mk.injEq] at h
    obtain ⟨rfl, _⟩ := h
    have hagain := checkedPass_fails_again hp
    rcases hq : bridgePass config u cs with ⟨v, _ | e₂⟩
    · exact absurd (congrArg Prod.snd hq) hagain
    · exact ⟨v, e₂, (hpass u).trans (by rw [hq]; rfl)⟩

end

end CodexRouter.Telemetry
