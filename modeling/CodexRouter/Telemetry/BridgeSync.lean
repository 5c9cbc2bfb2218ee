import CodexRouter.Telemetry.Replay
import CodexRouter.Telemetry.System

set_option autoImplicit false

/-! # The bridge in sync with the log

The blocks of the bridge are the table of the log up to its sequence, or else the next batch
has failed on them. In the second case that batch fails again at every delivery, so that the
index never comes back into sync: a replay from the failed batch on either delivers it or
starts behind it.
-/

namespace CodexRouter.Telemetry

open CodexRouter.Lib

variable {setup : Setup}

/-! ## One delivery -/

/-- What the delivery of batch `n` does to the index. -/
inductive Delivery (setup : Setup) (index : EventIndex) (n : Nat) : EventIndex × Bool → Prop
  | stale : n < index.expected → Delivery setup index n (index, true)
  | gap : index.expected < n → Delivery setup index n (index.unsynced, false)
  | failed (left : Blocks) (e : PyError) : n = index.expected →
      applyEvents setup.config index.blocks (setup.log n) = (left, .error e) →
      Delivery setup index n ({ index with blocks := left, synced := false }, false)
  | applied (left : Blocks) (converted : List Converted) : n = index.expected →
      applyEvents setup.config index.blocks (setup.log n) = (left, .ok converted) →
      Delivery setup index n
        (⟨pushBounded setup.config.buffer_steps index.batches ⟨n, converted⟩, left, some n, true⟩,
          true)

theorem lt_expected_iff {index : EventIndex} {n : Nat} :
    n < index.expected ↔ (index.sequence.any fun last => n ≤ last) = true := by
  grind [EventIndex.expected]

theorem deliver_delivery (setup : Setup) (index : EventIndex) (n : Nat) :
    Delivery setup index n (deliver setup index n) := by
  unfold deliver EventIndex.apply
  split
  · rename_i h
    split at h
    · rename_i hstale
      cases h
      exact .stale (lt_expected_iff.mpr hstale)
    · split at h
      · cases h
      · rename_i hne
        rw [ne_eq, not_not] at hne
        split at h
        · cases h
        · rename_i left converted happ
          cases h
          exact .applied left converted hne happ
  · rename_i h
    split at h
    · cases h
    · rename_i hstale
      split at h
      · rename_i hne
        cases h
        have hlt := mt lt_expected_iff.mp hstale
        exact .gap (by omega)
      · rename_i hne
        rw [ne_eq, not_not] at hne
        split at h
        · rename_i left e happ
          cases h
          exact .failed left _ hne happ
        · cases h

/-! ## Sound and broken indexes -/

/-- The blocks are the table of the log up to the sequence. -/
def EventIndex.Clean (setup : Setup) (index : EventIndex) : Prop :=
  index.blocks.get? = logTable setup.log index.sequence

/-- The next batch has been published and has failed on the blocks. -/
structure EventIndex.Broken (setup : Setup) (published : Nat) (index : EventIndex) : Prop where
  unsynced : index.synced = false
  published : index.expected < published
  fails : ∃ left e, applyEvents setup.config index.blocks (setup.log index.expected)
    = (left, .error e)

def EventIndex.Sound (setup : Setup) (published : Nat) (index : EventIndex) : Prop :=
  index.Clean setup ∨ index.Broken setup published

section Delivery

variable {published n : Nat} {index : EventIndex}

theorem expected_eq (index : EventIndex) :
    index.expected = (index.sequence.map (· + 1)).getD 0 := by
  unfold EventIndex.expected
  cases index.sequence <;> rfl

theorem EventIndex.Sound.unsynced (h : index.Sound setup published) :
    index.unsynced.Sound setup published := by
  rcases h with hclean | hbroken
  · exact Or.inl hclean
  · exact Or.inr ⟨rfl, hbroken.published, hbroken.fails⟩

/-- A batch that goes through takes the table of the log one batch further. -/
theorem clean_applied {left : Blocks} {converted : List Converted} {batches : List RawBatch}
    (h : index.Clean setup)
    (happ : applyEvents setup.config index.blocks (setup.log index.expected)
      = (left, .ok converted)) :
    EventIndex.Clean setup ⟨batches, left, some index.expected, true⟩ := by
  show left.get? = logTable setup.log (some index.expected)
  calc left.get?
      = acts ((setup.log index.expected).flatMap RawEvent.writes) index.blocks.get? :=
        (applyEvents_ok happ).1
    _ = acts ((setup.log index.expected).flatMap RawEvent.writes)
          (logTable setup.log index.sequence) := by rw [show index.blocks.get? = _ from h]
    _ = logTable setup.log (some index.expected) := by rw [expected_eq, logTable_next]

theorem EventIndex.Sound.delivered (h : index.Sound setup published) (hn : n < published) :
    (deliver setup index n).1.Sound setup published := by
  cases hd : deliver setup index n with
  | mk result ok =>
    have hdel := deliver_delivery setup index n
    rw [hd] at hdel
    cases hdel with
    | stale => exact h
    | gap => exact h.unsynced
    | failed left e hexp happ =>
      -- the batch fails again on what it left
      obtain ⟨left', e', hagain⟩ := applyEvents_fails_again happ
      exact Or.inr ⟨rfl, hexp ▸ hn, left', e', hexp ▸ hagain⟩
    | applied left converted hexp happ =>
      subst hexp
      rcases h with hclean | hbroken
      · exact Or.inl (clean_applied hclean happ)
      · grind [cases EventIndex.Broken]

/-- A batch that is not behind the index and goes through is the expected one, and the index
was not broken. -/
theorem deliver_ok {result : EventIndex} (h : index.Sound setup published)
    (hn : index.expected ≤ n) (hd : deliver setup index n = (result, true)) :
    result.expected = n + 1 ∧ result.Clean setup := by
  have hdel := deliver_delivery setup index n
  rw [hd] at hdel
  cases hdel with
  | stale hlt => omega
  | applied left converted hexp happ =>
    subst hexp
    rcases h with hclean | hbroken
    · exact ⟨rfl, clean_applied hclean happ⟩
    · grind [cases EventIndex.Broken]

/-- What the buffer keeps of a batch writes what the batch writes. -/
def Recorded (setup : Setup) (b : RawBatch) : Prop :=
  b.events.flatMap Converted.writes = (setup.log b.sequence).flatMap RawEvent.writes

theorem recorded_delivered {setup : Setup}
    (h : ∀ b ∈ index.batches, Recorded setup b) :
    ∀ b ∈ (deliver setup index n).1.batches, Recorded setup b := by
  cases hd : deliver setup index n with
  | mk result ok =>
    have hdel := deliver_delivery setup index n
    rw [hd] at hdel
    cases hdel with
    | applied left converted hexp happ =>
      intro b hb
      have hmem := List.mem_of_mem_drop hb
      rw [List.mem_append, List.mem_singleton] at hmem
      rcases hmem with hold | rfl
      · exact h b hold
      · exact (applyEvents_ok happ).2
    | _ => exact h

end Delivery

/-! ## The bridge's task -/

/-- What holds of the bridge between its steps. -/
structure BridgeInv (setup : Setup) (s : System) : Prop where
  sound : s.index.Sound setup s.published
  batches : ∀ b ∈ s.index.batches, Recorded setup b
  /-- The batches of a replay that are still to come; when none is left, the index is clean. -/
  answer : ∀ answer pending, s.loop = .replaying answer pending →
    ∃ first count, answer = List.range' first count ∧ s.index.expected ≤ first
      ∧ first + count ≤ s.published ∧ (count = 0 → s.index.Clean setup)
  pending : ∀ n, (s.loop = .requested (some n) ∨ ∃ answer, s.loop = .replaying answer (some n)) →
    n < s.published

theorem BridgeInv.init (setup : Setup) : BridgeInv setup System.init where
  sound := Or.inl rfl
  batches := fun b hb => by cases hb
  answer := fun _ _ h => by cases h
  pending := fun n h => by rcases h with h | ⟨_, h⟩ <;> cases h

/-- The task is idle: nothing of a replay is left. -/
theorem BridgeInv.of_idle {s : System} (hloop : s.loop = .idle)
    (hsound : s.index.Sound setup s.published)
    (hbatches : ∀ b ∈ s.index.batches, Recorded setup b) : BridgeInv setup s where
  sound := hsound
  batches := hbatches
  answer := fun _ _ h => by simp [hloop] at h
  pending := fun n h => by simp [hloop] at h

section Step

variable {s t : System}

section

variable (h : BridgeInv setup s)

include h

theorem BridgeInv.publish :
    BridgeInv setup { s with published := s.published + 1 } where
  sound := h.sound.imp_right fun hb => ⟨hb.unsynced, Nat.lt_succ_of_lt hb.published, hb.fails⟩
  batches := h.batches
  answer := fun answer pending hloop => by
    obtain ⟨first, count, hans, hfirst, hlast, hclean⟩ := h.answer answer pending hloop
    exact ⟨first, count, hans, hfirst, Nat.le_succ_of_le hlast, hclean⟩
  pending := fun n hloop => Nat.lt_succ_of_lt (h.pending n hloop)

theorem BridgeInv.receive {n : Nat} (hstep : step setup s (.receive n) = some t) :
    BridgeInv setup t := by
  simp only [step, Option.ite_none_right_eq_some] at hstep
  obtain ⟨⟨hidle, hn⟩, hstep⟩ := hstep
  split at hstep
  · cases hstep
    refine ⟨h.sound.unsynced, h.batches, fun _ _ hloop => (by cases hloop), fun m hloop => ?_⟩
    rcases hloop with hloop | ⟨_, hloop⟩
    · cases hloop
      exact hn
    · cases hloop
  · cases hstep
    exact .of_idle hidle (h.sound.delivered hn) (recorded_delivered h.batches)

theorem BridgeInv.reply {first last : Nat} (hstep : step setup s (.reply first last) = some t) :
    BridgeInv setup t := by
  cases hloop : s.loop with
  | idle => simp [step, hloop] at hstep
  | replaying => simp [step, hloop] at hstep
  | requested pending =>
    simp only [step, hloop, Option.ite_none_right_eq_some] at hstep
    obtain ⟨⟨hfirst, hle, hlast, hnonempty⟩, hstep⟩ := hstep
    cases hstep
    refine ⟨h.sound, h.batches, fun answer p heq => ?_, fun n heq => ?_⟩
    · cases heq
      refine ⟨first, last - first, rfl, hfirst, by show _ ≤ s.published; omega, fun hzero => ?_⟩
      -- an empty answer says that the next batch has not been published
      refine h.sound.resolve_right fun hbroken => ?_
      have := hnonempty hbroken.published
      omega
    · grind [cases BridgeInv]

theorem BridgeInv.frame (hstep : step setup s .frame = some t) :
    BridgeInv setup t := by
  simp only [step] at hstep
  split at hstep
  · rename_i n rest pending hloop
    obtain ⟨first, count, hans, hfirst, hlast, _⟩ := h.answer _ _ hloop
    cases count with
    | zero => simp at hans
    | succ count =>
      rw [List.range'_succ, List.cons.injEq] at hans
      obtain ⟨rfl, rfl⟩ := hans
      have hsound := h.sound.delivered (n := n) (by omega)
      have hrec := recorded_delivered (n := n) h.batches
      split at hstep
      · rename_i index hd
        rw [hd] at hsound hrec
        obtain ⟨hexp, hclean⟩ := deliver_ok h.sound hfirst hd
        cases hstep
        refine ⟨hsound, hrec, fun answer p heq => ?_, fun m heq => ?_⟩
        · grind
        · grind [cases BridgeInv]
      · rename_i index hd
        rw [hd] at hsound hrec
        cases hstep
        exact .of_idle rfl hsound hrec
  · cases hstep

theorem BridgeInv.endMarker (hstep : step setup s .endMarker = some t) : BridgeInv setup t := by
  simp only [step] at hstep
  split at hstep
  · rename_i pending hloop
    obtain ⟨first, count, hans, _, _, hclean⟩ := h.answer _ _ hloop
    have hzero : count = 0 := by simpa using congrArg List.length hans.symm
    have hsound : EventIndex.Sound setup s.published { s.index with synced := true } :=
      Or.inl (hclean hzero)
    split at hstep
    · cases hstep
      exact .of_idle rfl hsound h.batches
    · rename_i n
      cases hstep
      have hn := h.pending n (Or.inr ⟨_, hloop⟩)
      exact .of_idle rfl (hsound.delivered hn) (recorded_delivered h.batches)
  · cases hstep

/-- The endpoints and the router leave the bridge alone. -/
theorem BridgeInv.of_same (hpub : t.published = s.published) (hindex : t.index = s.index)
    (hloop : t.loop = s.loop) : BridgeInv setup t := by
  obtain ⟨published, index, loop, snapshots, deltas, telemetry, error⟩ := t
  subst hpub hindex hloop
  exact ⟨h.sound, h.batches, h.answer, h.pending⟩

theorem BridgeInv.step {e : Event} (hstep : step setup s e = some t) :
    BridgeInv setup t := by
  cases e with
  | publish => cases hstep; exact h.publish
  | receive n => exact h.receive hstep
  | poll =>
    simp only [Telemetry.step, Option.ite_none_right_eq_some] at hstep
    obtain ⟨-, hstep⟩ := hstep
    cases hstep
    refine ⟨h.sound, h.batches, fun _ _ hloop => (by cases hloop), fun n hloop => ?_⟩
    rcases hloop with hloop | ⟨_, hloop⟩ <;> cases hloop
  | reply first last => exact h.reply hstep
  | frame => exact h.frame hstep
  | endMarker => exact h.endMarker hstep
  | interrupt => cases hstep; exact .of_idle rfl h.sound.unsynced h.batches
  | down =>
    cases hstep
    exact ⟨h.sound.unsynced, h.batches, h.answer, h.pending⟩
  | kvSnapshot | kvEvents epoch after | feedEvents i =>
    simp only [Telemetry.step] at hstep
    split at hstep <;> cases hstep
    exact h.of_same rfl rfl rfl
  | feedSnapshot i info =>
    simp only [Telemetry.step] at hstep
    split at hstep
    · split at hstep <;> cases hstep <;> exact h.of_same rfl rfl rfl
    · cases hstep
  | discard => cases hstep; exact h.of_same rfl rfl rfl

end

end Step

end CodexRouter.Telemetry
