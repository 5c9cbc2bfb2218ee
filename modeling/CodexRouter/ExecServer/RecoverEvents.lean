import CodexRouter.ExecServer.Following

set_option autoImplicit false

/-! # Recovering from a response of the server

A response answers a sequence if it was made from its first events: it has the exit code and the
close that these have, and the output chunks among them from some number on (older ones are no
longer retained). Recovery keeps a session following the sequence unless the exit is not known,
the first chunk of the response leaves a gap, and the next event is an output: then the exit is
published in its place. With all the outputs that are needed, recovery succeeds.
-/

namespace CodexRouter.ExecServer

open Lib

/-- A response that was made when the server had numbered the events up to its target. -/
structure Answers (truth : List ExecProcessEvent) (response : ReadResponse) : Prop where
  failure : response.failure = none
  le : response.nextSeq - 1 ≤ truth.length
  exited : response.exited = response.exitCode.isSome
  exitCode : ∀ exitCode, response.exitCode = some exitCode
    ↔ ∃ seq, .exited seq exitCode none ∈ truth.take (response.nextSeq - 1)
  closed : response.closed = true → .closed (response.nextSeq - 1) ∈ truth
  notClosed : response.closed = false →
    ∀ seq, .closed seq ∉ truth.take (response.nextSeq - 1)
  sorted : response.chunks.Pairwise (·.seq < ·.seq)
  chunks : ∀ chunk ∈ response.chunks, .output chunk ∈ truth.take (response.nextSeq - 1)
  retained : ∃ cut, (∀ chunk ∈ response.chunks, cut < chunk.seq)
    ∧ ∀ chunk, .output chunk ∈ truth.take (response.nextSeq - 1) → cut < chunk.seq →
      chunk ∈ response.chunks

/-- A sequence as a server makes it, without the flag: numbered, with one exit, and closed at its
end only. -/
structure IsSequence (truth : List ExecProcessEvent) : Prop where
  numbered : Numbered truth
  plain : ∀ event ∈ truth, event.withoutDenied = event
  exitOnce : ∀ seq exitCode seq' exitCode', .exited seq exitCode none ∈ truth →
    .exited seq' exitCode' none ∈ truth → seq = seq'
  closed : ∀ seq, .closed seq ∈ truth → seq = truth.length

/-- The session follows the sequence, and all that is ready is published. -/
structure Settled (truth : List ExecProcessEvent) (state : SessionState) : Prop where
  follows : Follows truth state
  ready : Ready state

/-- The response has every output after the number `last`, each within the limit of an event. -/
structure Complete (truth : List ExecProcessEvent) (response : ReadResponse) (last : Nat) :
    Prop where
  chunks : ∀ chunk, .output chunk ∈ truth.take (response.nextSeq - 1) → last < chunk.seq →
    chunk ∈ response.chunks
  bytes : ∀ chunk ∈ response.chunks, chunk.chunk.length ≤ maxPendingProcessEventBytes

/-- Whether the exit of the sequence, if it is at most the target, is published or pending. -/
def ExitKnown (truth : List ExecProcessEvent) (targetSeq : Nat) (exitKnown : Bool)
    (state : SessionState) : Prop :=
  ∀ seq exitCode, .exited seq exitCode none ∈ truth → seq ≤ targetSeq →
    (Has state seq ↔ exitKnown = true)

/-! ## Outcomes of the parts -/

theorem outcome_insertPendingM (event : ExecProcessEvent) (state : SessionState) :
    outcome (insertPendingM event) state = match state.insertPending event with
      | .ok state' => (.ok (), state')
      | .error message => (.error message, state) := by
  unfold insertPendingM
  rw [outcome_bind_of_ok (outcome_get state)]
  cases state.insertPending event <;> rfl

theorem outcome_publishReadyM (state : SessionState) :
    outcome publishReadyM state = (.ok state.publishReady.1, state.publishReady.2) := rfl

section

variable {truth : List ExecProcessEvent} {state : SessionState} {response : ReadResponse}
  {chunk : ProcessOutputChunk} {seq targetSeq : Nat}

theorem Added.settled {state' : SessionState} (h : Added truth state state' seq) :
    Settled truth state' :=
  ⟨h.follows, h.ready⟩

/-- The next event goes in, whatever is pending, if it is not too large. -/
theorem insertPending_next (state : SessionState) (event : ExecProcessEvent)
    (hseq : event.seq = some seq) (hnext : seq = state.lastPublishedSeq + 1)
    (hbytes : pendingProcessEventBytes event ≤ maxPendingProcessEventBytes) :
    ∃ state', state.insertPending event = .ok state' := by
  unfold SessionState.insertPending
  rw [hseq]
  dsimp only
  split
  · exact ⟨_, rfl⟩
  · rw [if_neg fun h => h.1 hnext, if_neg (by omega), if_neg fun h => h.1 hnext]
    exact ⟨_, rfl⟩

theorem ends_insertPendingM {event : ExecProcessEvent} (hseq : event.seq = some seq)
    {Q : Except String Unit → SessionState → Prop}
    (hok : ∀ t, Inserted state t event seq → Q (.ok ()) t)
    (herror : ∀ message, state.insertPending event = .error message → Q (.error message) state) :
    Ends (insertPendingM event) state Q := by
  unfold Ends
  rw [outcome_insertPendingM]
  cases hinsert : state.insertPending event with
  | error message => exact herror message hinsert
  | ok t => exact hok t (inserted_of_insertPending hseq hinsert)

/-- Insert an event of the sequence and publish what is ready. -/
theorem ends_insert_publish {α : Type} (hnumbered : Numbered truth) (h : Settled truth state)
    (event : ExecProcessEvent) (hseq : event.seq = some seq)
    (htruth : event.withoutDenied ∈ truth) (hlt : state.lastPublishedSeq < seq)
    (f : Bool → SessionM α) {Q : Except String α → SessionState → Prop}
    (hf : ∀ closed t, Added truth state t seq → Ends (f closed) t Q)
    (herror : ∀ message, state.insertPending event = .error message →
      Q (.error message) state) :
    Ends (insertPendingM event >>= fun _ => publishReadyM >>= f) state Q := by
  refine Ends.bind (ends_insertPendingM hseq (Q := fun result t => match result with
    | .ok _ => Inserted state t event seq
    | .error message => Q (.error message) t) (fun t ht => ht) herror) (fun _ t ht => ?_)
    fun _ t ht => ht
  unfold Ends
  exact hf _ _ (ht.added h.follows hseq htruth hlt hnumbered h.ready)

theorem insertExit_eq {exitCode : Int} (h : response.exitCode = some exitCode) (seq : Nat) :
    insertExit seq response
      = insertPendingM (.exited seq exitCode (some response.sandboxDenied)) := by
  unfold insertExit
  rw [h]

/-- The exit goes in as the next event. -/
theorem insertExit_next {exitCode : Int} (denied : Option Bool) (message : String) :
    state.insertPending (.exited (state.lastPublishedSeq + 1) exitCode denied)
      ≠ .error message := by
  obtain ⟨state', hok⟩ := insertPending_next state
    (.exited (state.lastPublishedSeq + 1) exitCode denied) rfl rfl (Nat.zero_le _)
  rw [hok]
  exact fun h => by cases h

/-- The outcome before a chunk, if a gap at this point is the exit: no error, and afterwards there
is no gap before the chunk while the exit is not known. -/
theorem ends_recoverExitBefore (hnumbered : Numbered truth) (h : Settled truth state)
    (response : ReadResponse) (chunk : ProcessOutputChunk) {exitKnown : Bool}
    (hgap : response.exited = true → exitKnown = false →
      state.lastPublishedSeq + 1 < chunk.seq → ∃ exitCode, response.exitCode = some exitCode
        ∧ .exited (state.lastPublishedSeq + 1) exitCode none ∈ truth) :
    Ends (recoverExitBefore response chunk exitKnown) state fun result t =>
      match result with
      | .error _ => False
      | .ok known =>
        (response.exited = true → known.1 = false → chunk.seq ≤ t.lastPublishedSeq + 1)
        ∧ (known.1 = exitKnown ∧ t = state
          ∨ exitKnown = false ∧ known.1 = true
            ∧ (∃ exitCode, .exited (state.lastPublishedSeq + 1) exitCode none ∈ truth)
            ∧ Added truth state t (state.lastPublishedSeq + 1)) := by
  refine Ends.bind_get ?_
  dsimp only
  split
  · next hguard =>
    simp only [Bool.and_eq_true, Bool.not_eq_true', decide_eq_true_eq] at hguard
    obtain ⟨⟨hexited, hunknown⟩, hlt⟩ := hguard
    obtain ⟨exitCode, hcode, htruth⟩ := hgap hexited hunknown hlt
    rw [insertExit_eq hcode]
    refine ends_insert_publish hnumbered h (.exited _ exitCode _) rfl htruth
      (Nat.lt_succ_self _) _ ?_ fun message herror => insertExit_next _ message herror
    intro closed t hadded
    exact ⟨fun _ hfalse => absurd hfalse (by simp),
      Or.inr ⟨hunknown, rfl, ⟨exitCode, htruth⟩, hadded⟩⟩
  · next hguard =>
    refine ⟨fun hexited hunknown => ?_, Or.inl ⟨rfl, rfl⟩⟩
    simp only [Bool.and_eq_true, Bool.not_eq_true', decide_eq_true_eq, not_and] at hguard
    exact Nat.le_of_not_gt (hguard ⟨hexited, hunknown⟩)

theorem ends_recoverOutput (hnumbered : Numbered truth) (h : Settled truth state)
    (htruth : .output chunk ∈ truth) :
    Ends (recoverOutput chunk) state fun result t =>
      match result with
      | .error _ => Settled truth t ∧ (chunk.seq ≤ state.lastPublishedSeq + 1 →
          maxPendingProcessEventBytes < chunk.chunk.length)
      | .ok _ => Added truth state t chunk.seq := by
  refine Ends.bind_get ?_
  split
  · next hlt =>
    rw [← bind_pure publishReadyM]
    refine ends_insert_publish hnumbered h (.output chunk) rfl htruth hlt _ ?_ ?_
    · intro closed t hadded
      exact hadded
    · intro message herror
      refine ⟨h, fun hle => Nat.lt_of_not_ge fun hbytes => ?_⟩
      obtain ⟨state', hok⟩ := insertPending_next state (.output chunk) rfl
        (by omega) hbytes
      rw [hok] at herror
      cases herror
  · next hge =>
    have hle : chunk.seq ≤ state.lastPublishedSeq := Nat.le_of_not_gt hge
    refine (⟨h.follows, h.ready, fun k => ⟨Or.inl, ?_⟩, le_rfl, Or.inl rfl⟩ :
      Added truth state state chunk.seq)
    rintro (hk | rfl)
    · exact hk
    · exact Or.inl hle

/-! ## The loop over the chunks -/

/-- What holds in the loop, after the chunks `done`. `last` is the number published before the
loop and `cut` the one after which chunks are retained. -/
structure Recovering (truth : List ExecProcessEvent) (response : ReadResponse) (cut last : Nat)
    (done : List ProcessOutputChunk) (exitKnown : Bool) (state : SessionState) : Prop where
  settled : Settled truth state
  le : last ≤ state.lastPublishedSeq
  has : ∀ chunk ∈ done, Has state chunk.seq
  exit : ExitKnown truth (response.nextSeq - 1) exitKnown state
  moved : exitKnown = false → state.lastPublishedSeq = last ∨ cut < state.lastPublishedSeq
  caughtUp : Complete truth response last → ∀ chunk ∈ done, chunk.seq ≤ state.lastPublishedSeq

variable {cut last : Nat} {done rest : List ProcessOutputChunk} {exitKnown : Bool}

/-- With nothing pending, an event without bytes goes in. -/
theorem insertPending_of_empty {event : ExecProcessEvent} (hseq : event.seq = some seq)
    (hbytes : pendingProcessEventBytes event = 0) (hempty : state.pending.entries = [])
    (hzero : state.pendingBytes = 0) : ∃ state', state.insertPending event = .ok state' := by
  unfold SessionState.insertPending
  rw [hseq]
  dsimp only
  split
  · exact ⟨_, rfl⟩
  · have hsize : state.pending.size = 0 := by
      unfold Table.size
      rw [hempty]
      rfl
    rw [hsize, hzero, hbytes, if_neg fun h => absurd h.2 (by decide), if_neg (by decide),
      if_neg fun h => absurd h.2 (by decide)]
    exact ⟨_, rfl⟩

variable (hsequence : IsSequence truth) (hanswers : Answers truth response)

include hsequence

/-- The event with a number up to the length is the exit, the close or an output. -/
theorem IsSequence.event_at {k : Nat} (hk : k < truth.length) :
    (∃ exitCode, .exited (k + 1) exitCode none ∈ truth) ∨ .closed (k + 1) ∈ truth
      ∨ ∃ chunk : ProcessOutputChunk, chunk.seq = k + 1 ∧ .output chunk ∈ truth := by
  have hseq := hsequence.numbered _ _ (List.getElem?_eq_getElem hk)
  have hmem := List.getElem_mem hk
  generalize truth[k] = found at hseq hmem
  cases found with
  | exited seq exitCode denied =>
    cases hseq
    cases hsequence.plain _ hmem
    exact Or.inl ⟨exitCode, hmem⟩
  | closed seq =>
    cases hseq
    exact Or.inr (Or.inl hmem)
  | failed message => cases hseq
  | output chunk => exact Or.inr (Or.inr ⟨chunk, Option.some.inj hseq, hmem⟩)

theorem IsSequence.output_mem_take_iff {n : Nat} :
    .output chunk ∈ truth.take n ↔ .output chunk ∈ truth ∧ chunk.seq ≤ n :=
  hsequence.numbered.mem_take_iff (.output chunk) rfl

theorem IsSequence.exited_mem_take_iff {n : Nat} {exitCode : Int} {denied : Option Bool} :
    .exited seq exitCode denied ∈ truth.take n ↔ .exited seq exitCode denied ∈ truth ∧ seq ≤ n :=
  hsequence.numbered.mem_take_iff (.exited seq exitCode denied) rfl

include hanswers

section

variable (h : Recovering truth response cut last done exitKnown state)
  (hchunks : response.chunks = done ++ chunk :: rest)

include h hchunks

/-- A gap before a chunk is the exit, unless it is an output that the response does not have. -/
theorem Recovering.next_exited
    (hkept : ∀ other, .output other ∈ truth → other.seq = state.lastPublishedSeq + 1 →
      other ∈ response.chunks) (hlt : state.lastPublishedSeq + 1 < chunk.seq) :
    ∃ exitCode, response.exitCode = some exitCode
      ∧ .exited (state.lastPublishedSeq + 1) exitCode none ∈ truth := by
  obtain ⟨hchunk, hle⟩ :=
    hsequence.output_mem_take_iff.mp (hanswers.chunks chunk (by simp [hchunks]))
  have htarget := hanswers.le
  rcases hsequence.event_at (show state.lastPublishedSeq < truth.length by omega) with
    ⟨exitCode, hexit⟩ | hclosed | ⟨other, hseq, hother⟩
  · exact ⟨exitCode, (hanswers.exitCode exitCode).mpr
      ⟨_, hsequence.exited_mem_take_iff.mpr ⟨hexit, by omega⟩⟩, hexit⟩
  · have hend := hsequence.closed _ hclosed
    omega
  · -- it comes before the chunk and has been taken in
    have hsorted := hanswers.sorted
    have hdone : other ∈ done := by grind [List.pairwise_cons]
    rcases h.has other hdone with hle | ⟨pending, hpending⟩
    · omega
    · exact (h.settled.ready pending (hseq ▸ hpending)).elim

/-- With a complete response there is no gap once the exit is in. -/
theorem Recovering.no_gap
    (hexit : response.exited = true → exitKnown = false → chunk.seq ≤ state.lastPublishedSeq + 1)
    (hcomplete : Complete truth response last) : chunk.seq ≤ state.lastPublishedSeq + 1 := by
  by_contra hlt
  have hle := h.le
  obtain ⟨_, htarget⟩ :=
    hsequence.output_mem_take_iff.mp (hanswers.chunks chunk (by simp [hchunks]))
  obtain ⟨exitCode, hcode, hnext⟩ := h.next_exited hsequence hanswers hchunks
    (fun other hother hseq => hcomplete.chunks other
      (hsequence.output_mem_take_iff.mpr ⟨hother, by omega⟩) (by omega)) (by omega)
  have hexited : response.exited = true := by simp [hanswers.exited, hcode]
  -- the exit is known, so it is published already
  have hknown : exitKnown = true := by grind
  rcases (h.exit _ exitCode hnext (by omega)).mpr hknown with hpublished | ⟨other, hpending⟩
  · omega
  · exact h.settled.ready other hpending

end

omit hanswers in
/-- Before a chunk, the exit has perhaps been put in. -/
theorem Recovering.withExit (h : Recovering truth response cut last done exitKnown state)
    {state' : SessionState} {exitCode : Int}
    (hadded : Added truth state state' (state.lastPublishedSeq + 1))
    (htruth : .exited (state.lastPublishedSeq + 1) exitCode none ∈ truth) :
    Recovering truth response cut last done true state' where
  settled := hadded.settled
  le := h.le.trans hadded.le
  has := fun chunk hchunk => (hadded.has _).mpr (Or.inl (h.has chunk hchunk))
  exit := by
    intro seq code hexit _
    have hsame := hsequence.exitOnce _ _ _ _ hexit htruth
    exact iff_of_true ((hadded.has seq).mpr (Or.inr hsame)) rfl
  moved := fun hfalse => absurd hfalse (by simp)
  caughtUp := fun hcomplete chunk hchunk => (h.caughtUp hcomplete chunk hchunk).trans hadded.le

omit hanswers in
/-- Taking in the next chunk. -/
theorem Recovering.withOutput (h : Recovering truth response cut last done exitKnown state)
    {state' : SessionState} (hadded : Added truth state state' chunk.seq) (hcut : cut < chunk.seq)
    (htruth : .output chunk ∈ truth)
    (hgap : Complete truth response last → chunk.seq ≤ state.lastPublishedSeq + 1) :
    Recovering truth response cut last (done ++ [chunk]) exitKnown state' where
  settled := hadded.settled
  le := h.le.trans hadded.le
  has := by
    intro other hother
    rw [hadded.has]
    rcases List.mem_append.mp hother with hother | hother
    · exact Or.inl (h.has other hother)
    · exact Or.inr (by rw [List.mem_singleton.mp hother])
  exit := by
    intro seq exitCode hexit hle
    rw [← h.exit seq exitCode hexit hle, hadded.has]
    refine or_iff_left ?_
    rintro rfl
    -- an output and the exit have different numbers
    cases hsequence.numbered.unique htruth hexit rfl
  moved := by
    intro hunknown
    rcases hadded.moved with hsame | hmoved
    · exact hsame ▸ h.moved hunknown
    · exact Or.inr (by omega)
  caughtUp := by
    intro hcomplete other hother
    rcases List.mem_append.mp hother with hother | hother
    · exact (h.caughtUp hcomplete other hother).trans hadded.le
    · obtain rfl := List.mem_singleton.mp hother
      have hnext := hgap hcomplete
      have hmono := hadded.le
      rcases (hadded.has other.seq).mpr (Or.inr rfl) with hle | ⟨pending, hpending⟩
      · exact hle
      · have hlt := (hadded.follows.pending _ _ hpending).1
        have hsame : other.seq = state'.lastPublishedSeq + 1 := by omega
        exact (hadded.ready pending (hsame ▸ hpending)).elim

theorem ends_recoverChunks (hcut : ∀ chunk ∈ response.chunks, cut < chunk.seq)
    (hretained : ∀ chunk, .output chunk ∈ truth.take (response.nextSeq - 1) → cut < chunk.seq →
      chunk ∈ response.chunks)
    (hnext : response.exited = true → exitKnown = false → response.chunks ≠ [] → last < cut →
      ∀ chunk, truth[last]? ≠ some (.output chunk))
    (hchunks : response.chunks = done ++ rest) (closed : Bool)
    (h : Recovering truth response cut last done exitKnown state) :
    Ends (recoverChunks response (response.nextSeq - 1) rest exitKnown closed) state
      fun result t => match result with
        | .error _ => Settled truth t ∧ ¬ Complete truth response last
        | .ok known => Recovering truth response cut last response.chunks known.1 t := by
  have hnumbered := hsequence.numbered
  induction rest generalizing done exitKnown closed state with
  | nil =>
    show Recovering truth response cut last response.chunks exitKnown state
    rw [hchunks, List.append_nil]
    exact h
  | cons chunk rest ih =>
    have hmem : chunk ∈ response.chunks := by simp [hchunks]
    obtain ⟨htruth, hle⟩ := hsequence.output_mem_take_iff.mp (hanswers.chunks chunk hmem)
    have hcheck : outcome (checkTarget chunk (response.nextSeq - 1)) state = (.ok (), state) := by
      unfold checkTarget
      rw [if_neg (by omega)]
      rfl
    refine Ends.bind_of_ok hcheck ?_
    have hexit := ends_recoverExitBefore hnumbered h.settled response chunk
      fun hexited hunknown hlt =>
        h.next_exited hsequence hanswers hchunks (fun other hother hseq => by
          by_cases hlow : cut < other.seq
          · exact hretained other (hsequence.output_mem_take_iff.mpr ⟨hother, by omega⟩) hlow
          · -- the gap was there from the start
            rcases h.moved hunknown with hsame | hmoved
            · have hat := hnumbered.getElem? hother (congrArg some (hsame ▸ hseq))
              exact absurd hat (hnext hexited hunknown (List.ne_nil_of_mem hmem) (by omega) other)
            · omega) hlt
    refine hexit.bind (fun known t hknown => ?_) fun _ t ht => ht.elim
    obtain ⟨hnogap, hknown⟩ := hknown
    -- the state before the chunk itself
    have hbefore : Recovering truth response cut last done known.1 t := by
      rcases hknown with ⟨hsame, rfl⟩ | ⟨_, hknown, ⟨exitCode, hexit⟩, hadded⟩
      · exact hsame ▸ h
      · exact hknown ▸ h.withExit hsequence hadded hexit
    have hgap := hbefore.no_gap hsequence hanswers hchunks hnogap
    refine (ends_recoverOutput hnumbered hbefore.settled htruth).bind (fun closedAfter u hu => ?_)
      fun _ u hu => ⟨hu.1, fun hcomplete => ?_⟩
    · refine ih (fun hexited hunknown => hnext hexited (by grind))
        (by rw [hchunks, List.append_assoc]; rfl) (closed || known.2 || closedAfter)
        (hbefore.withOutput hsequence hu (hcut chunk hmem) htruth hgap)
    · exact absurd (hu.2 (hgap hcomplete)) (Nat.not_lt.mpr (hcomplete.bytes chunk hmem))

/-! ## The close -/

section

variable (h : Recovering truth response cut last response.chunks exitKnown state)
  (hcomplete : Complete truth response last)

include h hcomplete

/-- After the loop over a complete response, only the exit and the close can be left. -/
theorem Recovering.remaining (hlt : state.lastPublishedSeq < seq)
    (hle : seq ≤ response.nextSeq - 1) :
    (∃ exitCode, .exited seq exitCode none ∈ truth) ∨ .closed seq ∈ truth := by
  have htarget := hanswers.le
  have hlast := h.le
  obtain ⟨k, rfl⟩ : ∃ k, seq = k + 1 := ⟨seq - 1, by omega⟩
  rcases hsequence.event_at (show k < truth.length by omega) with
    hexit | hclosed | ⟨other, hseq, hother⟩
  · exact Or.inl hexit
  · exact Or.inr hclosed
  · have hcaught := h.caughtUp hcomplete other (hcomplete.chunks other
      (hsequence.output_mem_take_iff.mpr ⟨hother, by omega⟩) (by omega))
    omega

/-- In that case, an exit that is left is the next event, and it is not known. -/
theorem Recovering.remaining_exit (hlt : state.lastPublishedSeq < seq)
    (hle : seq ≤ response.nextSeq - 1) :
    (seq = state.lastPublishedSeq + 1 ∧ exitKnown = false
      ∧ ∃ exitCode, .exited seq exitCode none ∈ truth) ∨ .closed seq ∈ truth := by
  rcases h.remaining hsequence hanswers hcomplete hlt hle with ⟨exitCode, hexit⟩ | hclosed
  · have hnext : seq = state.lastPublishedSeq + 1 := by
      rcases h.remaining hsequence hanswers hcomplete (Nat.lt_succ_self _)
        (show state.lastPublishedSeq + 1 ≤ _ by omega) with ⟨code, hexit'⟩ | hclosed
      · exact hsequence.exitOnce _ _ _ _ hexit hexit'
      · have hend := hsequence.closed _ hclosed
        have htarget := hanswers.le
        omega
    refine Or.inl ⟨hnext, Bool.eq_false_iff.mpr fun hknown => ?_, exitCode, hexit⟩
    rcases (h.exit seq exitCode hexit hle).mpr hknown with hpublished | ⟨other, hpending⟩
    · omega
    · exact h.settled.ready other (hnext ▸ hpending)
  · exact Or.inr hclosed

/-- What holds once the close is in. -/
structure Closing (truth : List ExecProcessEvent) (response : ReadResponse) (last : Nat)
    (exitKnown : Bool) (state : SessionState) : Prop where
  follows : Follows truth state
  gap : ∀ event, (state.lastPublishedSeq + 1, event) ∈ state.pending.entries →
    response.nextSeq - 1 = state.lastPublishedSeq + 1
  exit : ExitKnown truth (response.nextSeq - 1) exitKnown state
  complete : Complete truth response last → ∀ seq ≤ response.nextSeq - 1, ¬ Has state seq →
    seq = state.lastPublishedSeq + 1 ∧ exitKnown = false
      ∧ ∃ exitCode, .exited seq exitCode none ∈ truth

/-- The close of a complete response goes in. -/
theorem Recovering.close_inserted (hclosed : .closed (response.nextSeq - 1) ∈ truth)
    (hlt : state.lastPublishedSeq < response.nextSeq - 1)
    (hpending : ∀ event, state.pending.get? (response.nextSeq - 1) = some event → event.isClosed =
      false) :
    ∃ state', state.insertPending (.closed (response.nextSeq - 1)) = .ok state' := by
  have hend := hsequence.closed _ hclosed
  by_cases hnext : response.nextSeq - 1 = state.lastPublishedSeq + 1
  · exact insertPending_next state _ rfl hnext (Nat.zero_le _)
  · -- the exit comes in between, so that nothing but the close can be pending
    have hsecond : response.nextSeq - 1 = state.lastPublishedSeq + 2 := by
      by_contra hfar
      rcases h.remaining_exit hsequence hanswers hcomplete
        (show state.lastPublishedSeq < state.lastPublishedSeq + 2 by omega) (by omega) with
        hexit | hclosed'
      · omega
      · have hend' := hsequence.closed _ hclosed'
        omega
    have hempty : state.pending.entries = [] := by
      refine List.eq_nil_iff_forall_not_mem.mpr fun entry hentry => ?_
      obtain ⟨hlast, hseq, htruth⟩ := h.settled.follows.pending entry.1 entry.2 hentry
      have hseq' : entry.2.withoutDenied.seq = some entry.1 :=
        entry.2.seq_withoutDenied.trans hseq
      obtain ⟨m, hm, _, hm'⟩ := hsequence.numbered.seq_of_mem htruth
      have hnumber := Option.some.inj (hseq'.symm.trans hm)
      have hne : entry.1 ≠ state.lastPublishedSeq + 1 := fun hsame =>
        h.settled.ready entry.2 (hsame ▸ hentry)
      have hkey : entry.1 = response.nextSeq - 1 := by omega
      have hsame : entry.2.withoutDenied = .closed (response.nextSeq - 1) :=
        hsequence.numbered.unique htruth hclosed (hseq'.trans (congrArg some hkey))
      have hfalse := hpending entry.2 (Table.get?_eq_some_iff.mpr (hkey ▸ hentry))
      rw [← ExecProcessEvent.isClosed_withoutDenied, hsame] at hfalse
      cases hfalse
    refine insertPending_of_empty rfl rfl hempty ?_
    rw [h.settled.follows.bytes, hempty]
    rfl

end

omit hanswers in
/-- The close is published once its number is reached. -/
theorem Follows.not_closedPublished_iff (h : Follows truth state) (hclose : .closed seq ∈ truth) :
    state.closedPublished = false ↔ state.lastPublishedSeq < seq := by
  rw [h.closed, List.any_eq_false]
  constructor
  · intro hnone
    by_contra hle
    exact hnone _ ((hsequence.numbered.mem_take_iff _ rfl).mpr ⟨hclose, Nat.not_lt.mp hle⟩) rfl
  · intro hlt event hevent hisClosed
    cases event with
    | closed number =>
      obtain ⟨hmem, hnumber⟩ := (hsequence.numbered.mem_take_iff (.closed number) rfl).mp hevent
      have hsame := (hsequence.closed _ hmem).trans (hsequence.closed _ hclose).symm
      omega
    | _ => cases hisClosed

theorem ends_recoverClosed
    (h : Recovering truth response cut last response.chunks exitKnown state) :
    Ends (recoverClosed response (response.nextSeq - 1)) state fun result t =>
      match result with
      | .error _ => Settled truth t ∧ ¬ Complete truth response last
      | .ok _ => Closing truth response last exitKnown t := by
  have hfollows := h.settled.follows
  refine Ends.bind_get ?_
  dsimp only
  split
  · next hguard =>
    simp only [Bool.and_eq_true, Bool.not_eq_true'] at hguard
    obtain ⟨⟨hclosed, hunpublished⟩, hunpending⟩ := hguard
    have hclose := hanswers.closed hclosed
    have hlt := (hfollows.not_closedPublished_iff hsequence hclose).mp hunpublished
    have hpending : ∀ event, state.pending.get? (response.nextSeq - 1) = some event →
        event.isClosed = false := by grind
    refine ends_insertPendingM rfl (fun t ht => ⟨ht.follows hfollows rfl hclose hlt, ?_, ?_, ?_⟩)
      fun message herror => ⟨h.settled, fun hcomplete => ?_⟩
    · intro event hevent
      rw [ht.last] at hevent ⊢
      rcases ht.pending _ hevent with hold | hnew
      · exact absurd hold (h.settled.ready event)
      · exact (Prod.mk.inj hnew).1.symm
    · intro seq exitCode hexit hle
      rw [← h.exit seq exitCode hexit hle, ht.has]
      refine or_iff_left ?_
      rintro rfl
      cases hsequence.numbered.unique hclose hexit rfl
    · intro hcomplete seq hle hhas
      rw [ht.has, not_or] at hhas
      rw [ht.last]
      refine (h.remaining_exit hsequence hanswers hcomplete
        (Nat.lt_of_not_ge fun hge => hhas.1 (Or.inl hge)) hle).resolve_right fun hclosed' => ?_
      exact hhas.2 ((hsequence.closed _ hclosed').trans (hsequence.closed _ hclose).symm)
    · obtain ⟨state', hok⟩ := h.close_inserted hsequence hanswers hcomplete hclose hlt hpending
      rw [hok] at herror
      cases herror
  · next hguard =>
    show Closing truth response last exitKnown state
    refine ⟨hfollows, fun event hevent => absurd hevent (h.settled.ready event), h.exit, ?_⟩
    intro hcomplete seq hle hhas
    have hlast : state.lastPublishedSeq < seq := Nat.lt_of_not_ge fun hge => hhas (Or.inl hge)
    refine (h.remaining_exit hsequence hanswers hcomplete hlast hle).resolve_right fun hclosed => ?_
    -- the close is left, but nothing was put in for it
    have hend := hsequence.closed _ hclosed
    have htarget := hanswers.le
    have hsame : seq = response.nextSeq - 1 := by omega
    have hclosedFlag : response.closed = true := by
      refine Bool.of_not_eq_false fun hnot => ?_
      exact hanswers.notClosed hnot seq
        ((hsequence.numbered.mem_take_iff (.closed seq) rfl).mpr ⟨hclosed, hle⟩)
    have hunpublished := (hfollows.not_closedPublished_iff hsequence hclosed).mpr hlast
    cases hget : state.pending.get? (response.nextSeq - 1) with
    | none => simp [hclosedFlag, hunpublished, hget] at hguard
    | some event => exact hhas (Or.inr ⟨event, hsame ▸ Table.get?_eq_some_iff.mp hget⟩)

/-! ## The missing exit -/

omit hsequence hanswers

/-- In a list of all numbers from `low` to `high` but one, that one is found. -/
theorem firstMissingFrom_eq {numbers : List Nat} {expected high missing : Nat}
    (hsorted : numbers.Pairwise (· < ·)) (hrange : ∀ k ∈ numbers, expected ≤ k ∧ k ≤ high)
    (hmissing : missing ∉ numbers) (hlow : expected ≤ missing) (hhigh : missing ≤ high)
    (hlength : numbers.length = high - expected) :
    firstMissingFrom expected numbers = missing := by
  induction numbers generalizing expected with
  | nil =>
    show expected = missing
    have hzero : 0 = high - expected := hlength
    omega
  | cons first rest ih =>
    obtain ⟨hfirst, hsorted'⟩ := List.pairwise_cons.mp hsorted
    unfold firstMissingFrom
    split
    · next hne =>
      -- the numbers fill all places after the first
      by_contra hne'
      have hsubset : (first :: rest).toFinset ⊆
          (Finset.Icc (expected + 1) high).erase missing := by
        intro k hk
        have hmem := List.mem_toFinset.mp hk
        have hk' := hrange k hmem
        have hfar : expected + 1 ≤ k := by
          have hfirst' := hrange first List.mem_cons_self
          rcases List.mem_cons.mp hmem with rfl | hrest
          · omega
          · have := hfirst k hrest
            omega
        refine Finset.mem_erase.mpr ⟨?_, Finset.mem_Icc.mpr ⟨hfar, hk'.2⟩⟩
        rintro rfl
        exact hmissing hmem
      have hcard := Finset.card_le_card hsubset
      have hin : missing ∈ Finset.Icc (expected + 1) high := Finset.mem_Icc.mpr (by omega)
      rw [Finset.card_erase_of_mem hin, Nat.card_Icc,
        List.toFinset_card_of_nodup (hsorted.imp fun h => h.ne), hlength] at hcard
      omega
    · next heq =>
      have hne : missing ≠ first := by grind
      have hlength' : rest.length + 1 = high - expected := hlength
      refine ih hsorted' (fun k hk => ?_) (fun h => hmissing (List.mem_cons_of_mem _ h))
        (by omega) (by omega)
      have hk' := hrange k (List.mem_cons_of_mem _ hk)
      have hgt := hfirst k hk
      omega

/-- How many numbers are pending in a range that is known to be all pending from `low` on. -/
theorem length_range_eq (pending : OrderedMap Nat ExecProcessEvent) (start low high : Nat)
    (h : ∀ k, (∃ event, (k, event) ∈ pending.range start high) ↔ low ≤ k ∧ k ≤ high) :
    (pending.range start high).length = high + 1 - low := by
  have hfinset : ((pending.range start high).map Prod.fst).toFinset = Finset.Icc low high := by
    grind [List.mem_toFinset]
  rw [← Nat.card_Icc, ← hfinset, List.toFinset_card_of_nodup
    ((pending.sorted_range start high).imp fun h => h.ne), List.length_map]

/-- The pending entries up to the target are those numbers after the published ones that are
had. -/
theorem exists_mem_range_iff {k : Nat} :
    (∃ event, (k, event) ∈ state.pending.range (state.lastPublishedSeq + 1) targetSeq)
      ↔ state.lastPublishedSeq < k ∧ k ≤ targetSeq ∧ Has state k := by
  constructor
  · grind [OrderedMap.mem_range, Has]
  · rintro ⟨hlow, hhigh, hhas⟩
    rcases hhas with hle | ⟨event, hevent⟩
    · omega
    · exact ⟨event, OrderedMap.mem_range.mpr ⟨hevent, hlow, hhigh⟩⟩

/-- If one event is missing and the exit is not had, the exit is the missing one. -/
theorem firstMissingSeq_eq (hcount : missingCount state targetSeq = 1) (hle : seq ≤ targetSeq)
    (hhas : ¬ Has state seq) : firstMissingSeq state targetSeq = seq := by
  have hlt : state.lastPublishedSeq < seq := Nat.lt_of_not_ge fun hge => hhas (Or.inl hge)
  refine firstMissingFrom_eq (state.pending.sorted_range _ _) (fun k hk => ?_) (fun hmem => ?_)
    hlt hle ?_
  · obtain ⟨entry, hentry, rfl⟩ := List.mem_map.mp hk
    exact (OrderedMap.mem_range.mp hentry).2
  · obtain ⟨entry, hentry, rfl⟩ := List.mem_map.mp hmem
    exact hhas (Or.inr ⟨entry.2, (OrderedMap.mem_range.mp hentry).1⟩)
  · unfold missingCount at hcount
    rw [List.length_map]
    omega

theorem missingCount_eq_zero (h : ∀ k ≤ targetSeq, Has state k) :
    missingCount state targetSeq = 0 := by
  have hlength := length_range_eq state.pending (state.lastPublishedSeq + 1)
    (state.lastPublishedSeq + 1) targetSeq fun k => by
      rw [exists_mem_range_iff]
      exact ⟨fun hk => ⟨hk.1, hk.2.1⟩, fun hk => ⟨hk.1, hk.2, h k hk.2⟩⟩
  unfold missingCount
  omega

/-- All are had but the next one. -/
theorem missingCount_eq_one (hle : state.lastPublishedSeq + 1 ≤ targetSeq)
    (hnext : ¬ Has state (state.lastPublishedSeq + 1))
    (h : ∀ k ≤ targetSeq, k ≠ state.lastPublishedSeq + 1 → Has state k) :
    missingCount state targetSeq = 1 := by
  have hlength := length_range_eq state.pending (state.lastPublishedSeq + 1)
    (state.lastPublishedSeq + 2) targetSeq fun k => by
      rw [exists_mem_range_iff]
      constructor
      · grind
      · rintro ⟨hlow, hhigh⟩
        exact ⟨by omega, hhigh, h k hhigh (by omega)⟩
  unfold missingCount
  omega

include hsequence hanswers

theorem ends_recoverMissing (h : Closing truth response last exitKnown state) :
    Ends (recoverMissing response (response.nextSeq - 1) exitKnown) state fun result t =>
      match result with
      | .error _ => Settled truth t ∧ ¬ Complete truth response last
      | .ok _ => Follows truth t
          ∧ (Complete truth response last → ∀ seq ≤ response.nextSeq - 1, Has t seq) := by
  refine Ends.bind_get ?_
  split
  · next hguard =>
    -- an exit up to the target is not had
    simp only [Bool.and_eq_true, Bool.not_eq_true'] at hguard
    obtain ⟨hexited, hunknown⟩ := hguard
    rw [hanswers.exited] at hexited
    obtain ⟨exitCode, hcode⟩ := Option.isSome_iff_exists.mp hexited
    obtain ⟨seq, hexit⟩ := (hanswers.exitCode exitCode).mp hcode
    obtain ⟨hexit, hle⟩ := (hsequence.numbered.mem_take_iff _ rfl).mp hexit
    have hhas : ¬ Has state seq := fun hhas => by
      rw [(h.exit seq exitCode hexit hle).mp hhas] at hunknown
      cases hunknown
    have hlt : state.lastPublishedSeq < seq := Nat.lt_of_not_ge fun hge => hhas (Or.inl hge)
    have hready : Settled truth state := by
      refine ⟨h.follows, fun event hevent => hhas ?_⟩
      have hgap := h.gap event hevent
      obtain rfl : seq = state.lastPublishedSeq + 1 := by omega
      exact Or.inr ⟨event, hevent⟩
    have hnext : Complete truth response last → seq = state.lastPublishedSeq + 1 :=
      fun hcomplete => (h.complete hcomplete seq hle hhas).1
    split
    · next hcount =>
      refine ⟨hready, fun hcomplete => hcount ?_⟩
      have hsame := hnext hcomplete
      subst hsame
      refine missingCount_eq_one hle hhas fun k hk hne => ?_
      by_contra hmissing
      exact hne (h.complete hcomplete k hk hmissing).1
    · next hcount =>
      rw [firstMissingSeq_eq (not_not.mp hcount) hle hhas, insertExit_eq hcode]
      refine ends_insertPendingM rfl (fun t ht =>
        ⟨ht.follows h.follows rfl hexit hlt, fun hcomplete k hk => (ht.has k).mpr ?_⟩)
        fun message herror => ⟨hready, fun hcomplete => ?_⟩
      · grind [cases Closing]
      · rw [hnext hcomplete] at herror
        exact insertExit_next _ message herror
  · next hguard =>
    have hall : Complete truth response last → ∀ k ≤ response.nextSeq - 1, Has state k := by
      intro hcomplete k hk
      by_contra hmissing
      obtain ⟨_, hunknown, exitCode, hexit⟩ := h.complete hcomplete k hk hmissing
      have hcode := (hanswers.exitCode exitCode).mpr
        ⟨k, (hsequence.numbered.mem_take_iff _ rfl).mpr ⟨hexit, hk⟩⟩
      rw [hunknown, hanswers.exited, hcode] at hguard
      exact hguard rfl
    split
    · next hcount =>
      refine ⟨⟨h.follows, fun event hevent => hcount ?_⟩, fun hcomplete => hcount ?_⟩
      · -- the next event is pending: it is the target, and nothing is missing
        have hgap := h.gap event hevent
        have hpos : 0 < (state.pending.range (state.lastPublishedSeq + 1)
            (response.nextSeq - 1)).length :=
          List.length_pos_of_mem (OrderedMap.mem_range.mpr ⟨hevent, le_rfl, hgap.ge⟩)
        unfold missingCount
        omega
      · exact missingCount_eq_zero (hall hcomplete)
    · exact ⟨h.follows, hall⟩

end

end CodexRouter.ExecServer
