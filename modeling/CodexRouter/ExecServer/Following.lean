import CodexRouter.ExecServer.SessionState

set_option autoImplicit false

/-! # A session that follows a sequence of events

`truth` is what the server numbered, without the sandbox flag of the exit. A session follows it if
it has published the first events of it, in order, and all that is pending belongs to it.
-/

namespace CodexRouter.ExecServer

open Lib

namespace ExecProcessEvent

/-- The event up to the flag of the sandbox. -/
def withoutDenied : ExecProcessEvent → ExecProcessEvent
  | .exited seq exitCode _ => .exited seq exitCode none
  | event => event

@[simp] theorem seq_withoutDenied (event : ExecProcessEvent) :
    event.withoutDenied.seq = event.seq := by
  cases event <;> rfl

@[simp] theorem isExited_withoutDenied (event : ExecProcessEvent) :
    event.withoutDenied.isExited = event.isExited := by
  cases event <;> rfl

@[simp] theorem isClosed_withoutDenied (event : ExecProcessEvent) :
    event.withoutDenied.isClosed = event.isClosed := by
  cases event <;> rfl

theorem withoutDenied_markDenied (denied : Bool) (event : ExecProcessEvent) :
    (markDenied denied event).withoutDenied = event.withoutDenied := by
  cases event <;> rfl

end ExecProcessEvent

/-- The sequenced events that a session has published, up to the flag. -/
def SessionState.published (state : SessionState) : List ExecProcessEvent :=
  (state.events.filter fun event => event.seq.isSome).map ExecProcessEvent.withoutDenied

/-! ## Numbered sequences -/

section

variable {truth : List ExecProcessEvent} {event event' : ExecProcessEvent} {n : Nat}

section

variable (h : Numbered truth) (hmem : event ∈ truth)

include h hmem

theorem Numbered.getElem? (hseq : event.seq = some (n + 1)) : truth[n]? = some event := by
  grind [List.mem_iff_getElem?, Numbered]

/-- Every event has a positive number, not above the length. -/
theorem Numbered.seq_of_mem :
    ∃ m, event.seq = some (m + 1) ∧ truth[m]? = some event ∧ m < truth.length := by
  obtain ⟨i, hi⟩ := List.mem_iff_getElem?.mp hmem
  exact ⟨i, h i event hi, hi, (List.getElem?_eq_some_iff.mp hi).1⟩

theorem Numbered.unique (hmem' : event' ∈ truth) (hseq : event.seq = event'.seq) :
    event = event' := by
  grind [h.seq_of_mem]

theorem Numbered.take_succ (hseq : event.seq = some (n + 1)) :
    truth.take (n + 1) = truth.take n ++ [event] := by
  rw [List.take_add_one, h.getElem? hmem hseq]
  rfl

end

theorem Numbered.mem_take_iff (h : Numbered truth) (event : ExecProcessEvent) {k : Nat}
    (hseq : event.seq = some k) :
    event ∈ truth.take n ↔ event ∈ truth ∧ k ≤ n := by
  constructor
  · grind [List.mem_iff_getElem?, Numbered]
  · rintro ⟨hmem, hle⟩
    obtain ⟨m, hnumber, hget, _⟩ := h.seq_of_mem hmem
    have hk := Option.some.inj (hseq.symm.trans hnumber)
    refine List.mem_iff_getElem?.mpr ⟨m, ?_⟩
    rw [List.getElem?_take_of_lt (by omega)]
    exact hget

theorem Numbered.map_withoutDenied {events : List ExecProcessEvent} (h : Numbered events) :
    Numbered (events.map ExecProcessEvent.withoutDenied) := by
  grind [ExecProcessEvent.seq_withoutDenied, Numbered]

end

/-! ## Following -/

/-- What is published is the beginning of the sequence; what is pending is part of the rest. -/
structure Follows (truth : List ExecProcessEvent) (state : SessionState) : Prop where
  le : state.lastPublishedSeq ≤ truth.length
  published : state.published = truth.take state.lastPublishedSeq
  exit : state.exitPublished = (truth.take state.lastPublishedSeq).any ExecProcessEvent.isExited
  closed : state.closedPublished = (truth.take state.lastPublishedSeq).any ExecProcessEvent.isClosed
  pending : ∀ seq event, (seq, event) ∈ state.pending.entries →
    state.lastPublishedSeq < seq ∧ event.seq = some seq ∧ event.withoutDenied ∈ truth
  bytes : state.pendingBytes = (state.pending.entries.map (pendingProcessEventBytes ·.2)).sum

/-- The next event is not pending: all that is ready has been published. -/
def Ready (state : SessionState) : Prop :=
  ∀ event, (state.lastPublishedSeq + 1, event) ∉ state.pending.entries

/-- An event with this number is published or pending. -/
def Has (state : SessionState) (seq : Nat) : Prop :=
  seq ≤ state.lastPublishedSeq ∨ ∃ event, (seq, event) ∈ state.pending.entries

section

variable {truth : List ExecProcessEvent} {state state' : SessionState}
  {event : ExecProcessEvent} {seq targetSeq : Nat}

/-! ## Publishing -/

theorem follows_new (truth : List ExecProcessEvent) : Follows truth SessionState.new where
  le := Nat.zero_le _
  published := rfl
  exit := rfl
  closed := rfl
  pending := nofun
  bytes := rfl

theorem Follows.publishNext (h : Follows truth state) (hnumbered : Numbered truth)
    (hnext : state.pending.get? (state.lastPublishedSeq + 1) = some event) :
    Follows truth (state.publishNext event) := by
  have hmem := Table.get?_eq_some_iff.mp hnext
  obtain ⟨_, hseq, htruth⟩ := h.pending _ _ hmem
  have hseq' : event.withoutDenied.seq = some (state.lastPublishedSeq + 1) :=
    event.seq_withoutDenied.trans hseq
  have htake := hnumbered.take_succ htruth hseq'
  obtain ⟨m, hm, _, hlt⟩ := hnumbered.seq_of_mem htruth
  have hlast : state.lastPublishedSeq + 1 = m + 1 := Option.some.inj (hseq'.symm.trans hm)
  have hpublished : (state.publishNext event).lastPublishedSeq = state.lastPublishedSeq + 1 := rfl
  exact {
    le := by
      show state.lastPublishedSeq + 1 ≤ truth.length
      omega
    published := by
      show ((state.events ++ [event]).filter _).map _ = truth.take (state.lastPublishedSeq + 1)
      have hsome : event.seq.isSome = true := by rw [hseq]; rfl
      have hlast : [event].filter (fun event => event.seq.isSome) = [event] := by simp [hsome]
      rw [htake, List.filter_append, List.map_append, hlast]
      exact congrArg (· ++ [event.withoutDenied]) h.published
    exit := by
      show (state.exitPublished || event.isExited) = _
      rw [hpublished, htake, List.any_append, ← h.exit]
      simp
    closed := by
      show (state.closedPublished || event.isClosed) = _
      rw [hpublished, htake, List.any_append, ← h.closed]
      simp
    pending := by
      intro seq other hother
      obtain ⟨hne, hold⟩ := Table.mem_erase.mp hother
      obtain ⟨hlt, hrest⟩ := h.pending seq other hold
      refine ⟨?_, hrest⟩
      show state.lastPublishedSeq + 1 < seq
      omega
    bytes := by
      have hsum := ((Table.perm_of_get? hnext).map (pendingProcessEventBytes ·.2)).sum_eq
      rw [← h.bytes, List.map_cons, List.sum_cons] at hsum
      show state.pendingBytes - pendingProcessEventBytes event = _
      exact Nat.sub_eq_of_eq_add (hsum.trans (Nat.add_comm _ _)) }

theorem has_publishNext (hnext : state.pending.get? (state.lastPublishedSeq + 1) = some event) :
    Has (state.publishNext event) seq ↔ Has state seq := by
  have hmem := Table.get?_eq_some_iff.mp hnext
  have herase : ∀ other, (seq, other) ∈ (state.publishNext event).pending.entries
      ↔ seq ≠ state.lastPublishedSeq + 1 ∧ (seq, other) ∈ state.pending.entries :=
    fun other => Table.mem_erase
  unfold Has
  show seq ≤ state.lastPublishedSeq + 1 ∨ _ ↔ _
  constructor
  · grind
  · grind

/-- Publishing what is ready moves events from the pending ones to the log. -/
theorem publishReadyLoop_moves (rounds : Nat) (closed : Bool) (state : SessionState) :
    (∀ seq, Has (SessionState.publishReadyLoop rounds closed state).2 seq ↔ Has state seq)
      ∧ state.lastPublishedSeq
        ≤ (SessionState.publishReadyLoop rounds closed state).2.lastPublishedSeq
      ∧ state.events <+: (SessionState.publishReadyLoop rounds closed state).2.events := by
  induction rounds generalizing closed state with
  | zero => exact ⟨fun _ => Iff.rfl, le_rfl, List.prefix_rfl⟩
  | succ rounds ih =>
    unfold SessionState.publishReadyLoop
    split
    · exact ⟨fun _ => Iff.rfl, le_rfl, List.prefix_rfl⟩
    · next event hnext =>
      obtain ⟨hhas, hle, hgrows⟩ := ih (closed || event.isClosed) (state.publishNext event)
      refine ⟨fun seq => (hhas seq).trans (has_publishNext hnext), ?_, ?_⟩
      · exact (Nat.le_succ _).trans hle
      · exact (List.prefix_append _ _).trans hgrows

/-- What publishing all that is ready leads to. -/
structure Drained (truth : List ExecProcessEvent) (state state' : SessionState) : Prop where
  follows : Follows truth state'
  ready : Ready state'
  has : ∀ seq, Has state' seq ↔ Has state seq
  le : state.lastPublishedSeq ≤ state'.lastPublishedSeq

theorem settles_publishReadyLoop (hnumbered : Numbered truth) (rounds : Nat) (closed : Bool)
    (state : SessionState) (h : Follows truth state) (hrounds : state.pending.size ≤ rounds) :
    Follows truth (SessionState.publishReadyLoop rounds closed state).2
      ∧ Ready (SessionState.publishReadyLoop rounds closed state).2 := by
  induction rounds generalizing closed state with
  | zero =>
    have hempty : state.pending.entries = [] := List.length_eq_zero_iff.mp (by
      have hsize : state.pending.entries.length ≤ 0 := hrounds
      omega)
    have hready : Ready state := by grind [Ready]
    exact ⟨h, hready⟩
  | succ rounds ih =>
    unfold SessionState.publishReadyLoop
    split
    · next hnone => exact ⟨h, Table.get?_eq_none_iff.mp hnone⟩
    · next event hnext =>
      have hsize : (state.publishNext event).pending.size < state.pending.size :=
        OrderedMap.size_erase_lt hnext
      exact ih (closed || event.isClosed) (state.publishNext event)
        (h.publishNext hnumbered hnext) (by omega)

theorem Follows.drained (h : Follows truth state) (hnumbered : Numbered truth) :
    Drained truth state state.publishReady.2 := by
  obtain ⟨hfollows, hready⟩ := settles_publishReadyLoop hnumbered _ false state h le_rfl
  obtain ⟨hhas, hle, _⟩ := publishReadyLoop_moves state.pending.size false state
  exact ⟨hfollows, hready, hhas, hle⟩

/-! ## Inserting -/

/-- What inserting an event with the number `seq` leads to. -/
structure Inserted (state state' : SessionState) (event : ExecProcessEvent) (seq : Nat) : Prop where
  last : state'.lastPublishedSeq = state.lastPublishedSeq
  events : state'.events = state.events
  exitPublished : state'.exitPublished = state.exitPublished
  closedPublished : state'.closedPublished = state.closedPublished
  pending : ∀ entry ∈ state'.pending.entries, entry ∈ state.pending.entries ∨ entry = (seq, event)
  has : ∀ k, Has state' k ↔ Has state k ∨ k = seq
  bytes : state.pendingBytes = (state.pending.entries.map (pendingProcessEventBytes ·.2)).sum →
    state'.pendingBytes = (state'.pending.entries.map (pendingProcessEventBytes ·.2)).sum

theorem inserted_of_insertPending (hseq : event.seq = some seq)
    (h : state.insertPending event = .ok state') : Inserted state state' event seq := by
  unfold SessionState.insertPending at h
  rw [hseq] at h
  dsimp only at h
  split at h
  · next hpresent =>
    cases h
    obtain ⟨other, hother⟩ := Option.isSome_iff_exists.mp hpresent
    refine ⟨rfl, rfl, rfl, rfl, fun entry hentry => Or.inl hentry, fun k => ?_, id⟩
    refine ⟨Or.inl, ?_⟩
    rintro (hk | rfl)
    · exact hk
    · exact Or.inr ⟨other, Table.get?_eq_some_iff.mp hother⟩
  · next hnew =>
    split at h
    · cases h
    · split at h
      · cases h
      · split at h
        · cases h
        · cases h
          have hmem : ∀ entry, entry ∈ (state.pending.insert seq event).entries
              ↔ entry = (seq, event) ∨ entry.1 ≠ seq ∧ entry ∈ state.pending.entries :=
            fun entry => OrderedMap.mem_insert
          refine ⟨rfl, rfl, rfl, rfl, fun entry hentry => ?_, fun k => ?_, fun hbytes => ?_⟩
          · grind
          · unfold Has
            simp only [hmem]
            constructor
            · grind
            · rintro ((hle | ⟨other, hold⟩) | rfl)
              · exact Or.inl hle
              · grind
              · exact Or.inr ⟨event, Or.inl rfl⟩
          · have hnone : state.pending.get? seq = none := by simpa using hnew
            have hsum := ((OrderedMap.insert_perm state.pending seq event).map
              (pendingProcessEventBytes ·.2)).sum_eq
            rw [List.map_cons, List.sum_cons, OrderedMap.entries_erase_of_get?_eq_none hnone,
              ← hbytes] at hsum
            exact (Nat.add_comm _ _).trans hsum.symm

section

variable (h : Inserted state state' event seq) (hfollows : Follows truth state)
  (hseq : event.seq = some seq) (htruth : event.withoutDenied ∈ truth)
  (hlt : state.lastPublishedSeq < seq)

include h hfollows hseq htruth hlt

theorem Inserted.follows : Follows truth state' where
  le := by
    rw [h.last]
    exact hfollows.le
  published := by
    unfold SessionState.published
    rw [h.events, h.last]
    exact hfollows.published
  exit := by
    rw [h.exitPublished, h.last]
    exact hfollows.exit
  closed := by
    rw [h.closedPublished, h.last]
    exact hfollows.closed
  pending := by
    intro k other hother
    rw [h.last]
    rcases h.pending _ hother with hold | hsame
    · exact hfollows.pending k other hold
    · obtain ⟨rfl, rfl⟩ := Prod.mk.inj hsame
      exact ⟨hlt, hseq, htruth⟩
  bytes := h.bytes hfollows.bytes

/-! ## Events that come in -/

/-- What taking in an event of the sequence leads to. -/
structure Added (truth : List ExecProcessEvent) (state state' : SessionState) (seq : Nat) :
    Prop where
  follows : Follows truth state'
  ready : Ready state'
  has : ∀ k, Has state' k ↔ Has state k ∨ k = seq
  le : state.lastPublishedSeq ≤ state'.lastPublishedSeq
  moved : state'.lastPublishedSeq = state.lastPublishedSeq ∨ seq ≤ state'.lastPublishedSeq

/-- Draining after an insertion: something moves only if the event was the next one. -/
theorem Inserted.added (hnumbered : Numbered truth) (hready : Ready state) :
    Added truth state state'.publishReady.2 seq := by
  have hdrained := (h.follows hfollows hseq htruth hlt).drained hnumbered
  have hle := hdrained.le
  rw [h.last] at hle
  refine ⟨hdrained.follows, hdrained.ready, fun k => (hdrained.has k).trans (h.has k), hle, ?_⟩
  by_cases hmoved : state'.publishReady.2.lastPublishedSeq ≤ state.lastPublishedSeq
  · exact Or.inl (by omega)
  · -- the next number is had afterwards, so it is the one that came in
    have hnext : Has state'.publishReady.2 (state.lastPublishedSeq + 1) := Or.inl (by omega)
    rcases (h.has _).mp ((hdrained.has _).mp hnext) with hold | hsame
    · grind [Has, Ready]
    · exact Or.inr (by omega)

end

/-- A notification of an event of the sequence keeps a session following it. -/
theorem follows_publishOrderedEvent (hnumbered : Numbered truth) (hfollows : Follows truth state)
    (hready : Ready state) (htruth : event.withoutDenied ∈ truth) :
    Follows truth (state.publishOrderedEvent event).2
      ∧ Ready (state.publishOrderedEvent event).2 := by
  obtain ⟨m, hm, _, _⟩ := hnumbered.seq_of_mem htruth
  rw [ExecProcessEvent.seq_withoutDenied] at hm
  unfold SessionState.publishOrderedEvent
  rw [hm]
  dsimp only
  split
  · exact ⟨hfollows, hready⟩
  · next hactive =>
    have hlt : state.lastPublishedSeq < m + 1 := by grind [SessionState.ignores]
    split
    · exact ⟨hfollows, hready⟩
    · next state' hinsert =>
      have hadded := (inserted_of_insertPending hm hinsert).added hfollows hm htruth hlt
        hnumbered hready
      exact ⟨hadded.follows, hadded.ready⟩

end

end CodexRouter.ExecServer
