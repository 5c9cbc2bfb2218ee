import CodexRouter.ExecServer.RecoverEvents

set_option autoImplicit false

/-! # What a recovery leads to

`recoverEvents` as a whole, on a response that answers the sequence: either the exit overtakes an
output that is no longer retained, and is published in its place, or the session goes on following
the sequence.
-/

namespace CodexRouter.ExecServer

open Lib

/-- The exit is not known, the first chunk leaves a gap, and the next event is an output. -/
def overtakes (events : List ExecProcessEvent) (state : SessionState) (response : ReadResponse) :
    Bool :=
  !state.ignores (response.nextSeq - 1) && response.exited
    && !(state.exitPublished || (pendingExit state (response.nextSeq - 1)).isSome)
    && response.chunks.head?.any (fun chunk => chunk.seq > state.lastPublishedSeq + 1)
    && events[state.lastPublishedSeq]?.any (fun event => event.output?.isSome)

section

variable {truth : List ExecProcessEvent} {state : SessionState} {response : ReadResponse}
  {seq targetSeq : Nat}

/-! ## Before the loop -/

theorem markDenied_seq (denied : Bool) (event : ExecProcessEvent) :
    (markDenied denied event).seq = event.seq := by
  cases event <;> rfl

theorem pendingProcessEventBytes_markDenied (denied : Bool) (event : ExecProcessEvent) :
    pendingProcessEventBytes (markDenied denied event) = pendingProcessEventBytes event := by
  cases event <;> rfl

/-- Marking a pending event keeps a session settled. -/
theorem Settled.mark (h : Settled truth state) {event : ExecProcessEvent}
    (hget : state.pending.get? seq = some event) (denied : Bool) :
    Settled truth { state with pending := state.pending.insert seq (markDenied denied event) } := by
  have hmem := Table.get?_eq_some_iff.mp hget
  refine ⟨⟨h.follows.le, h.follows.published, h.follows.exit, h.follows.closed, ?_, ?_⟩, ?_⟩
  · intro k other hother
    rcases OrderedMap.mem_insert.mp hother with hnew | ⟨_, hold⟩
    · obtain ⟨rfl, rfl⟩ := Prod.mk.inj hnew
      obtain ⟨hlt, hseq, htruth⟩ := h.follows.pending _ _ hmem
      refine ⟨hlt, (markDenied_seq denied event).trans hseq, ?_⟩
      rw [ExecProcessEvent.withoutDenied_markDenied]
      exact htruth
    · exact h.follows.pending k other hold
  · have hnew := ((OrderedMap.insert_perm state.pending seq (markDenied denied event)).map
      (pendingProcessEventBytes ·.2)).sum_eq
    have hold := ((Table.perm_of_get? hget).map (pendingProcessEventBytes ·.2)).sum_eq
    rw [List.map_cons, List.sum_cons] at hnew hold
    rw [pendingProcessEventBytes_markDenied] at hnew
    exact (h.follows.bytes.trans hold).trans hnew.symm
  · intro other hother
    rcases OrderedMap.mem_insert.mp hother with hnew | ⟨_, hold⟩
    · grind [Ready, cases Settled]
    · exact h.ready other hold

theorem has_mark {event : ExecProcessEvent} (hmem : (seq, event) ∈ state.pending.entries)
    (denied : Bool) (k : Nat) :
    Has { state with pending := state.pending.insert seq (markDenied denied event) } k
      ↔ Has state k := by
  refine or_congr_right ?_
  simp only [OrderedMap.mem_insert]
  constructor
  · grind
  · grind

/-- The exit is known if it is published or among the pending events. -/
theorem Settled.exitKnown (h : Settled truth state) (hsequence : IsSequence truth)
    (targetSeq : Nat) : ExitKnown truth targetSeq
      (state.exitPublished || (pendingExit state targetSeq).isSome) state := by
  intro seq exitCode hexit hle
  have hnumbered := hsequence.numbered
  rw [Bool.or_eq_true, h.follows.exit, List.any_eq_true]
  unfold pendingExit
  rw [List.find?_isSome]
  refine or_congr ?_ ?_
  · constructor
    · intro hpublished
      exact ⟨_, (hnumbered.mem_take_iff _ rfl).mpr ⟨hexit, hpublished⟩, rfl⟩
    · rintro ⟨event, hevent, hisExited⟩
      cases event with
      | exited number code denied =>
        obtain ⟨hmem, hnumber⟩ := (hnumbered.mem_take_iff _ rfl).mp hevent
        have hplain : denied = none := by
          have hflag := hsequence.plain _ hmem
          cases hflag
          rfl
        rw [hsequence.exitOnce _ _ _ _ hexit (hplain ▸ hmem)]
        exact hnumber
      | _ => cases hisExited
  · constructor
    · rintro ⟨event, hevent⟩
      obtain ⟨_, hseq, htruth⟩ := h.follows.pending _ _ hevent
      have hsame := hnumbered.unique htruth hexit ((event.seq_withoutDenied).trans hseq)
      refine ⟨_, hevent, ?_⟩
      rw [Bool.and_eq_true, decide_eq_true_eq]
      refine ⟨hle, ?_⟩
      rw [← ExecProcessEvent.isExited_withoutDenied, hsame]
      rfl
    · rintro ⟨entry, hentry, hfound⟩
      rw [Bool.and_eq_true, decide_eq_true_eq] at hfound
      obtain ⟨_, hisExited⟩ := hfound
      obtain ⟨key, event⟩ := entry
      obtain ⟨_, hseq, htruth⟩ := h.follows.pending _ _ hentry
      cases event with
      | exited number code denied =>
        obtain rfl : number = key := Option.some.inj hseq
        rw [hsequence.exitOnce _ _ _ _ hexit htruth]
        exact ⟨_, hentry⟩
      | _ => cases hisExited

/-- Before the loop a pending exit may be marked; nothing else changes. -/
theorem outcome_markPendingExit (hsequence : IsSequence truth) (h : Settled truth state)
    (response : ReadResponse) (targetSeq : Nat) :
    ∃ state', outcome (markPendingExit response targetSeq) state
        = (.ok (pendingExit state targetSeq).isSome, state')
      ∧ Settled truth state' ∧ state'.lastPublishedSeq = state.lastPublishedSeq
      ∧ ExitKnown truth targetSeq
        (state.exitPublished || (pendingExit state targetSeq).isSome) state' := by
  have hknown := h.exitKnown hsequence targetSeq
  unfold markPendingExit
  rw [outcome_bind_of_ok (outcome_get state)]
  cases hfound : pendingExit state targetSeq with
  | none =>
    rw [hfound] at hknown
    exact ⟨state, rfl, h, rfl, hknown⟩
  | some entry =>
    have hmem : (entry.1, entry.2) ∈ state.pending.entries := List.mem_of_find?_eq_some hfound
    rw [hfound] at hknown
    refine ⟨_, rfl, h.mark (Table.get?_eq_some_iff.mpr hmem) response.sandboxDenied, rfl, ?_⟩
    intro seq exitCode hexit hle
    rw [has_mark hmem]
    exact hknown seq exitCode hexit hle

section

variable (hsequence : IsSequence truth) (hanswers : Answers truth response)
  (h : Settled truth state)

include hsequence hanswers h

/-- A response that answers the sequence has its close where no other event is. -/
theorem outcome_checkClose :
    outcome (checkClose response (response.nextSeq - 1)) state = (.ok (), state) := by
  have hfree : closeConflicts state response (response.nextSeq - 1) = false := by
    unfold closeConflicts
    cases hclosed : response.closed with
    | false => rfl
    | true =>
      have hclose := hanswers.closed hclosed
      rw [Bool.true_and, Bool.or_eq_false_iff]
      constructor
      · cases hget : state.pending.get? (response.nextSeq - 1) with
        | none => rfl
        | some event =>
          obtain ⟨_, hseq, htruth⟩ :=
            h.follows.pending _ _ (Table.get?_eq_some_iff.mp hget)
          have hsame := hsequence.numbered.unique htruth hclose
            ((event.seq_withoutDenied).trans hseq)
          show (!event.isClosed) = false
          rw [← ExecProcessEvent.isClosed_withoutDenied, hsame]
          rfl
      · refine List.any_eq_false.mpr fun chunk hchunk hsame => ?_
        have houtput := List.mem_of_mem_take (hanswers.chunks chunk hchunk)
        cases hsequence.numbered.unique houtput hclose
          (congrArg some (of_decide_eq_true hsame))
  unfold checkClose
  rw [outcome_bind_of_ok (outcome_get state), hfree]
  rfl

/-! ## Following on -/

omit hsequence hanswers h in
/-- What is ready after everything up to the target is had reaches the target. -/
theorem Ready.le_of_has (h : Ready state) (hhas : ∀ k ≤ targetSeq, Has state k) :
    targetSeq ≤ state.lastPublishedSeq := by
  grind [Has, Ready]

theorem ends_recoverThrough
    (hsafe : response.exited = true →
      (state.exitPublished || (pendingExit state (response.nextSeq - 1)).isSome) = false →
      ∀ chunk ∈ response.chunks.head?, state.lastPublishedSeq + 1 < chunk.seq → ∀ other,
      truth[state.lastPublishedSeq]? ≠ some (.output other)) :
    Ends (recoverThrough response (response.nextSeq - 1)) state fun result t =>
      Settled truth t ∧ (Complete truth response state.lastPublishedSeq →
        (∃ closed, result = .ok closed) ∧ response.nextSeq - 1 ≤ t.lastPublishedSeq) := by
  obtain ⟨marked, hmark, hmarked, hlast, hknown⟩ :=
    outcome_markPendingExit hsequence h response (response.nextSeq - 1)
  obtain ⟨cut, hcut, hretained⟩ := hanswers.retained
  refine Ends.bind_get (Ends.bind_of_ok hmark ?_)
  refine Ends.bind_of_ok (outcome_checkClose hsequence hanswers hmarked) ?_
  have hstart : Recovering truth response cut state.lastPublishedSeq []
      (state.exitPublished || (pendingExit state (response.nextSeq - 1)).isSome) marked := by
    refine ⟨hmarked, hlast.ge, ?_, hknown, fun _ => Or.inl hlast, ?_⟩
    · nofun
    · nofun
  refine (ends_recoverChunks hsequence hanswers hcut hretained ?_ rfl false hstart).bind ?_ ?_
  · intro hexited hunknown hne hlt
    obtain ⟨chunk, rest, hchunks⟩ := List.exists_cons_of_ne_nil hne
    have hfirst := hcut chunk (by rw [hchunks]; simp)
    exact hsafe hexited hunknown chunk (by rw [hchunks]; simp) (by omega)
  · intro known t ht
    refine (ends_recoverClosed hsequence hanswers ht).bind (fun _ u hu => ?_) ?_
    · refine (ends_recoverMissing hsequence hanswers hu).bind (fun _ v hv => ?_) ?_
      · have hdrained := hv.1.drained hsequence.numbered
        refine Ends.bind_of_ok (outcome_publishReadyM v) ?_
        refine ⟨⟨hdrained.follows, hdrained.ready⟩, fun hcomplete => ⟨⟨_, rfl⟩, ?_⟩⟩
        refine hdrained.ready.le_of_has fun k hk => ?_
        exact (hdrained.has k).mpr (hv.2 hcomplete k hk)
      · exact fun _ v hv => ⟨hv.1, fun hcomplete => absurd hcomplete hv.2⟩
    · exact fun _ u hu => ⟨hu.1, fun hcomplete => absurd hcomplete hu.2⟩
  · exact fun _ t ht => ⟨ht.1, fun hcomplete => absurd hcomplete ht.2⟩

/-- **Recovery follows on** if the exit overtakes no output; with a complete response it reaches
the target. -/
theorem ends_recoverEvents (hsafe : overtakes truth state response = false) :
    Ends (recoverEvents response) state fun result t =>
      Settled truth t ∧ (state.failure = none →
        Complete truth response state.lastPublishedSeq →
          (∃ closed, result = .ok closed) ∧ response.nextSeq - 1 ≤ t.lastPublishedSeq) := by
  unfold recoverEvents
  rw [hanswers.failure]
  refine Ends.bind_get ?_
  split
  · next hignores =>
    refine ⟨h, fun hfailure _ => ⟨⟨_, rfl⟩, ?_⟩⟩
    show response.nextSeq - 1 ≤ state.lastPublishedSeq
    simp only [SessionState.ignores, hfailure, Option.isSome_none, Bool.false_or,
      Bool.or_eq_true, decide_eq_true_eq] at hignores
    rcases hignores with hclosed | hle
    · -- after the close nothing is left
      rw [h.follows.closed, List.any_eq_true] at hclosed
      obtain ⟨event, hevent, hisClosed⟩ := hclosed
      cases event with
      | closed number =>
        obtain ⟨hmem, hnumber⟩ := (hsequence.numbered.mem_take_iff _ rfl).mp hevent
        have hend := hsequence.closed _ hmem
        have htarget := hanswers.le
        omega
      | _ => cases hisClosed
    · exact hle
  · next hactive =>
    have hthrough := ends_recoverThrough hsequence hanswers h ?_
    · exact ⟨hthrough.1, fun _ hcomplete => hthrough.2 hcomplete⟩
    · intro hexited hunknown chunk hchunk hlt other hother
      have htrue : overtakes truth state response = true := by
        unfold overtakes
        rw [Option.mem_def.mp hchunk, hother, hexited, hunknown]
        simpa [ExecProcessEvent.output?, hlt] using hactive
      rw [hsafe] at htrue
      cases htrue

end

/-! ## Overtaking -/

/-- The log has gone past `base`, and the number `seq` is neither published nor pending. -/
structure Astray (base : List ExecProcessEvent) (seq : Nat) (state : SessionState) : Prop where
  grows : base <+: state.events
  missing : ¬ Has state seq

variable {base : List ExecProcessEvent}

section

variable (h : Astray base seq state)

include h

theorem Astray.publishReady : Astray base seq state.publishReady.2 := by
  obtain ⟨hhas, _, hgrows⟩ := publishReadyLoop_moves state.pending.size false state
  exact ⟨h.grows.trans hgrows, fun hmissing => h.missing ((hhas seq).mp hmissing)⟩

/-- Other events do not fill the place. -/
theorem Astray.insertPending (event : ExecProcessEvent) {number : Nat}
    (hseq : event.seq = some number) (hne : seq ≠ number) :
    Ends (insertPendingM event) state fun _ t => Astray base seq t := by
  unfold Ends
  rw [outcome_insertPendingM]
  cases hinsert : state.insertPending event with
  | error message => exact h
  | ok state' =>
    have hinserted := inserted_of_insertPending hseq hinsert
    refine ⟨hinserted.events ▸ h.grows, fun hhas => ?_⟩
    rcases (hinserted.has seq).mp hhas with hold | hsame
    · exact h.missing hold
    · exact hne hsame

theorem Astray.recoverOutput {chunk : ProcessOutputChunk} (hne : seq ≠ chunk.seq) :
    Ends (recoverOutput chunk) state fun _ t => Astray base seq t := by
  refine Ends.bind_get ?_
  split
  · refine (h.insertPending (.output chunk) rfl hne).bind (fun _ t ht => ?_) fun _ t ht => ht
    exact ht.publishReady
  · exact h

theorem Astray.recoverChunks {chunks : List ProcessOutputChunk}
    (hne : ∀ chunk ∈ chunks, seq ≠ chunk.seq) (closed : Bool) :
    Ends (recoverChunks response targetSeq chunks true closed) state fun result t =>
      Astray base seq t ∧ ∀ known, result = .ok known → known.1 = true := by
  induction chunks generalizing state closed with
  | nil => exact ⟨h, fun known hknown => by cases hknown; rfl⟩
  | cons chunk rest ih =>
    have herror : ∀ (message : String) (known : Bool × Bool),
        Except.error message = .ok known → known.1 = true := by grind
    have hcheck : Ends (checkTarget chunk targetSeq) state fun _ t => t = state := by
      unfold checkTarget
      split <;> exact rfl
    refine hcheck.bind (fun _ t ht => ?_) fun message t ht => ⟨ht ▸ h, herror message⟩
    subst ht
    -- with the exit known nothing is put in before the chunk
    have hbefore : outcome (recoverExitBefore response chunk true) t
        = (.ok (true, false), t) := by
      unfold recoverExitBefore
      simp only [Bool.not_true, Bool.and_false, Bool.false_and]
      rfl
    refine Ends.bind_of_ok hbefore ?_
    refine (h.recoverOutput (hne chunk List.mem_cons_self)).bind (fun closedAfter u hu => ?_)
      fun message u hu => ⟨hu, herror message⟩
    exact ih hu (fun other hother => hne other (List.mem_cons_of_mem _ hother)) _

omit h in
/-- A number up to the target that is not had is missing. -/
theorem missingCount_ne_zero (hle : seq ≤ targetSeq) (hhas : ¬ Has state seq) :
    missingCount state targetSeq ≠ 0 := by
  have hlt : state.lastPublishedSeq < seq := Nat.lt_of_not_ge fun hge => hhas (Or.inl hge)
  have hsubset : ((state.pending.range (state.lastPublishedSeq + 1) targetSeq).map
      Prod.fst).toFinset ⊆ (Finset.Icc (state.lastPublishedSeq + 1) targetSeq).erase seq := by
    intro k hk
    obtain ⟨entry, hentry, rfl⟩ := List.mem_map.mp (List.mem_toFinset.mp hk)
    obtain ⟨hmem, hlow, hhigh⟩ := OrderedMap.mem_range.mp hentry
    refine Finset.mem_erase.mpr ⟨?_, Finset.mem_Icc.mpr ⟨hlow, hhigh⟩⟩
    rintro rfl
    exact hhas (Or.inr ⟨entry.2, hmem⟩)
  have hcard := Finset.card_le_card hsubset
  have hin : seq ∈ Finset.Icc (state.lastPublishedSeq + 1) targetSeq :=
    Finset.mem_Icc.mpr (by omega)
  rw [Finset.card_erase_of_mem hin, Nat.card_Icc, List.toFinset_card_of_nodup
    ((state.pending.sorted_range _ _).imp fun h => h.ne), List.length_map] at hcard
  unfold missingCount
  omega

/-- The rest of a recovery with a number missing and the exit known ends in an error. -/
theorem Astray.rest (response : ReadResponse) (hle : seq ≤ targetSeq) (closedBefore : Bool)
    (hclosed : response.closed = true → seq ≠ targetSeq) :
    Ends (do
      recoverClosed response targetSeq
      recoverMissing response targetSeq true
      let publishedClosed ← publishReadyM
      return closedBefore || publishedClosed : SessionM Bool) state fun result t =>
        base <+: t.events ∧ ∃ message, result = .error message := by
  have hclose : Ends (recoverClosed response targetSeq) state fun _ t => Astray base seq t := by
    refine Ends.bind_get ?_
    dsimp only
    split
    · next hguard =>
      simp only [Bool.and_eq_true] at hguard
      exact h.insertPending (.closed targetSeq) rfl (hclosed hguard.1.1)
    · exact h
  refine hclose.bind (fun _ t ht => ?_) fun message t ht => ⟨ht.grows, message, rfl⟩
  have hmissing : outcome (recoverMissing response targetSeq true) t
      = (.error (recoveryGapError targetSeq), t) := by
    unfold recoverMissing
    rw [outcome_bind_of_ok (outcome_get t)]
    simp only [Bool.not_true, Bool.and_false, Bool.false_eq_true, ↓reduceIte]
    rw [if_pos (missingCount_ne_zero hle ht.missing)]
    rfl
  unfold Ends
  rw [outcome_bind, hmissing]
  exact ⟨ht.grows, _, rfl⟩

end

/-- Inserting the next event and publishing puts it in the log. -/
theorem grows_of_inserted_next {state' : SessionState} {event : ExecProcessEvent}
    (h : Inserted state state' event (state.lastPublishedSeq + 1)) (hready : Ready state) :
    state.events ++ [event] <+: state'.publishReady.2.events := by
  have hget : state'.pending.get? (state'.lastPublishedSeq + 1) = some event := by
    rw [h.last]
    rcases (h.has _).mpr (Or.inr rfl) with hle | ⟨other, hother⟩
    · rw [h.last] at hle
      omega
    · rcases h.pending _ hother with hold | hnew
      · exact absurd hold (hready other)
      · rw [← (Prod.mk.inj hnew).2]
        exact Table.get?_eq_some_iff.mpr hother
  have hpos := OrderedMap.size_erase_lt hget
  obtain ⟨rounds, hrounds⟩ : ∃ rounds, state'.pending.size = rounds + 1 :=
    ⟨state'.pending.size - 1, by omega⟩
  unfold SessionState.publishReady
  rw [hrounds]
  unfold SessionState.publishReadyLoop
  rw [hget]
  obtain ⟨_, _, hgrows⟩ := publishReadyLoop_moves rounds (false || event.isClosed)
    (state'.publishNext event)
  refine List.IsPrefix.trans ?_ hgrows
  show state.events ++ [event] <+: state'.events ++ [event]
  rw [h.events]

/-- The loop, with a gap before its first chunk that the exit does not belong to. -/
theorem ends_recoverChunks_of_overtakes (hsequence : IsSequence truth)
    (hanswers : Answers truth response) (h : Settled truth state) {exitCode : Int}
    (hcode : response.exitCode = some exitCode) (hmissing : ¬ Has state seq)
    (hne : seq ≠ state.lastPublishedSeq + 1)
    (hchunks : ∀ chunk ∈ response.chunks, seq ≠ chunk.seq) {chunk : ProcessOutputChunk}
    (hchunk : response.chunks.head? = some chunk)
    (hlt : chunk.seq > state.lastPublishedSeq + 1) :
    Ends (recoverChunks response (response.nextSeq - 1) response.chunks (false || false) false)
      state fun result t =>
        Astray (state.events ++ [.exited (state.lastPublishedSeq + 1) exitCode
          (some response.sandboxDenied)]) seq t ∧ ∀ known, result = .ok known → known.1 = true := by
  obtain ⟨rest, hrest⟩ := List.head?_eq_some_iff.mp hchunk
  rw [hrest] at hchunks ⊢
  have htruth := hanswers.chunks chunk (by rw [hrest]; simp)
  obtain ⟨_, hle⟩ := (hsequence.numbered.mem_take_iff (.output chunk) rfl).mp htruth
  have hexited : response.exited = true := by
    rw [hanswers.exited, hcode]
    rfl
  obtain ⟨inserted, hinsert⟩ := insertPending_next state (.exited (state.lastPublishedSeq + 1)
    exitCode (some response.sandboxDenied)) rfl rfl (Nat.zero_le _)
  have hinserted := inserted_of_insertPending rfl hinsert
  have hastray : Astray (state.events ++ [.exited (state.lastPublishedSeq + 1) exitCode
      (some response.sandboxDenied)]) seq inserted.publishReady.2 := by
    refine ⟨grows_of_inserted_next hinserted h.ready, fun hhas => ?_⟩
    obtain ⟨hmoves, _, _⟩ := publishReadyLoop_moves inserted.pending.size false inserted
    rcases (hinserted.has seq).mp ((hmoves seq).mp hhas) with hold | hsame
    · exact hmissing hold
    · exact hne hsame
  have hbefore : outcome (recoverExitBefore response chunk (false || false)) state
      = (.ok (true, inserted.publishReady.1), inserted.publishReady.2) := by
    unfold recoverExitBefore
    rw [outcome_bind_of_ok (outcome_get state)]
    rw [if_pos (by simp [hexited, hlt]), insertExit_eq hcode]
    have hok : outcome (insertPendingM (.exited (state.lastPublishedSeq + 1) exitCode
        (some response.sandboxDenied))) state = (.ok (), inserted) := by
      rw [outcome_insertPendingM, hinsert]
    rw [outcome_bind_of_ok hok, outcome_bind_of_ok (outcome_publishReadyM inserted)]
    rfl
  have hcheck : outcome (checkTarget chunk (response.nextSeq - 1)) state = (.ok (), state) := by
    unfold checkTarget
    rw [if_neg (by omega)]
    rfl
  unfold recoverChunks
  refine Ends.bind_of_ok hcheck (Ends.bind_of_ok hbefore ?_)
  refine (hastray.recoverOutput (hchunks chunk List.mem_cons_self)).bind
    (fun closedAfter u hu => ?_) fun message u hu => ⟨hu, fun known hknown => by cases hknown⟩
  exact hu.recoverChunks (fun other hother => hchunks other (List.mem_cons_of_mem _ hother)) _

/-- **The exit is published in the place of an output** if it overtakes one, and the recovery
ends in an error. -/
theorem ends_recoverEvents_of_overtakes (hsequence : IsSequence truth)
    (hanswers : Answers truth response) (h : Settled truth state)
    (hover : overtakes truth state response = true) :
    Ends (recoverEvents response) state fun result t =>
      (∃ exitCode denied, response.exitCode = some exitCode
        ∧ state.events ++ [.exited (state.lastPublishedSeq + 1) exitCode denied] <+: t.events)
      ∧ ∃ message, result = .error message := by
  unfold overtakes at hover
  simp only [Bool.and_eq_true, Bool.not_eq_true', Option.any_eq_true, decide_eq_true_eq] at hover
  obtain ⟨⟨⟨⟨hactive, hexited⟩, hunknown⟩, chunk, hchunk, hlt⟩, event, hevent, houtput⟩ := hover
  obtain ⟨hunpublished, hnone⟩ := Bool.or_eq_false_iff.mp hunknown
  have hnone' : pendingExit state (response.nextSeq - 1) = none := by simpa using hnone
  rw [hanswers.exited] at hexited
  obtain ⟨exitCode, hcode⟩ := Option.isSome_iff_exists.mp hexited
  obtain ⟨number, hexit⟩ := (hanswers.exitCode exitCode).mp hcode
  obtain ⟨hexit, hle⟩ := (hsequence.numbered.mem_take_iff _ rfl).mp hexit
  have hmissing : ¬ Has state number := by
    intro hhas
    have hknown := (h.exitKnown hsequence _ number exitCode hexit hle).mp hhas
    rw [hunknown] at hknown
    cases hknown
  have hmark : outcome (markPendingExit response (response.nextSeq - 1)) state
      = (.ok false, state) := by
    unfold markPendingExit
    rw [outcome_bind_of_ok (outcome_get state), hnone']
    rfl
  have hne : number ≠ state.lastPublishedSeq + 1 := by
    intro hsame
    have hget := hsequence.numbered.getElem? hexit (congrArg some hsame)
    rw [hget] at hevent
    cases hevent
    cases houtput
  have hloop := ends_recoverChunks_of_overtakes hsequence hanswers h hcode hmissing hne
    (fun other hother hsame => by
      have htruth := List.mem_of_mem_take (hanswers.chunks other hother)
      cases hsequence.numbered.unique htruth hexit (congrArg some hsame.symm)) hchunk hlt
  unfold recoverEvents
  rw [hanswers.failure]
  refine Ends.bind_get ?_
  rw [hactive]
  simp only [Bool.false_eq_true, ↓reduceIte]
  unfold recoverThrough
  refine Ends.bind_get (Ends.bind_of_ok hmark ?_)
  refine Ends.bind_of_ok (outcome_checkClose hsequence hanswers h) ?_
  rw [hunpublished]
  refine hloop.bind (fun known t ht => ?_) fun message t ht =>
    ⟨⟨exitCode, _, hcode, ht.1.grows⟩, message, rfl⟩
  rw [ht.2 known rfl]
  have hrest := ht.1.rest response hle known.2 fun hclosed hsame => by
    cases hsequence.numbered.unique (hanswers.closed hclosed) hexit (congrArg some hsame.symm)
  exact ⟨⟨exitCode, _, hcode, hrest.1⟩, hrest.2⟩

end

/-! ## The log only grows -/

def LogGrows (state state' : SessionState) : Prop := state.events <+: state'.events

theorem LogGrows.refl (state : SessionState) : LogGrows state state := List.prefix_rfl

theorem LogGrows.trans (state state' state'' : SessionState) (h : LogGrows state state')
    (h' : LogGrows state' state'') : LogGrows state state'' :=
  List.IsPrefix.trans h h'

theorem logGrows_publishReady (state : SessionState) : LogGrows state state.publishReady.2 :=
  (publishReadyLoop_moves state.pending.size false state).2.2

theorem logGrows_insertPending {state state' : SessionState} {event : ExecProcessEvent}
    (h : state.insertPending event = .ok state') : LogGrows state state' := by
  grind [SessionState.insertPending, LogGrows]

theorem keeps_insertPendingM (event : ExecProcessEvent) :
    Keeps LogGrows (insertPendingM event) := by
  intro state
  rw [outcome_insertPendingM]
  cases hinsert : state.insertPending event with
  | error message => exact .refl state
  | ok state' => exact logGrows_insertPending hinsert

theorem keeps_publishReadyM : Keeps LogGrows publishReadyM := logGrows_publishReady

theorem keeps_insertExit (seq : Nat) (response : ReadResponse) :
    Keeps LogGrows (insertExit seq response) := by
  unfold insertExit
  split
  · exact keeps_throw .refl _
  · exact keeps_insertPendingM _

theorem keeps_recoverChunks (response : ReadResponse) (targetSeq : Nat)
    (chunks : List ProcessOutputChunk) (exitKnown closed : Bool) :
    Keeps LogGrows (recoverChunks response targetSeq chunks exitKnown closed) := by
  induction chunks generalizing exitKnown closed with
  | nil => exact keeps_pure .refl _
  | cons chunk rest ih =>
    refine Keeps.bind .trans ?_ fun _ => Keeps.bind .trans ?_ fun before =>
      Keeps.bind .trans ?_ fun closedAfter => ih before.1 _
    · unfold checkTarget
      split
      · exact keeps_throw .refl _
      · exact keeps_pure .refl _
    · unfold recoverExitBefore
      refine keeps_bind_get fun state => ?_
      dsimp only
      split
      · exact Keeps.bind .trans (keeps_insertExit _ _) (fun _ => Keeps.bind .trans
          keeps_publishReadyM fun _ => keeps_pure .refl _) state
      · exact .refl state
    · unfold recoverOutput
      refine keeps_bind_get fun state => ?_
      split
      · exact Keeps.bind .trans (keeps_insertPendingM _) (fun _ => keeps_publishReadyM) state
      · exact .refl state

theorem keeps_recoverEvents (response : ReadResponse) :
    Keeps LogGrows (recoverEvents response) := by
  unfold recoverEvents
  split
  · exact keeps_throw .refl _
  · refine keeps_bind_get fun state => ?_
    split
    · exact .refl state
    · unfold recoverThrough
      refine keeps_bind_get (fun state => Keeps.bind .trans ?_ (fun _ =>
        Keeps.bind .trans ?_ fun _ =>
        Keeps.bind .trans (keeps_recoverChunks _ _ _ _ _) fun _ =>
        Keeps.bind .trans ?_ fun _ =>
        Keeps.bind .trans ?_ fun _ =>
        Keeps.bind .trans keeps_publishReadyM fun _ => keeps_pure .refl _) state) state
      · unfold markPendingExit
        refine keeps_bind_get fun state => ?_
        split <;> exact .refl state
      · unfold checkClose
        refine keeps_bind_get fun state => ?_
        split <;> exact .refl state
      · unfold recoverClosed
        refine keeps_bind_get fun state => ?_
        dsimp only
        split
        · exact keeps_insertPendingM _ state
        · exact .refl state
      · unfold recoverMissing
        refine keeps_bind_get fun state => ?_
        split
        · split
          · exact .refl state
          · exact keeps_insertExit _ _ state
        · split <;> exact .refl state

end CodexRouter.ExecServer
