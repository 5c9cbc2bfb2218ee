import CodexRouter.ExecServer.Session

set_option autoImplicit false

/-! # Recovery with all the output at hand

If the server still had every output that the client lacked when it answered, the recovery
succeeds and reaches the end of the response, provided the session has not failed before: a
session that could not keep its early notifications takes no more events.
-/

namespace CodexRouter.ExecServer

open Lib

/-- With a complete response the exit overtakes nothing: the next output would be its first
chunk. -/
theorem Complete.not_overtakes {truth : List ExecProcessEvent} {state : SessionState}
    {response : ReadResponse} (h : Complete truth response state.lastPublishedSeq)
    (hsequence : IsSequence truth) (hanswers : Answers truth response) :
    overtakes truth state response = false := by
  refine Bool.eq_false_iff.mpr fun hover => ?_
  unfold overtakes at hover
  simp only [Bool.and_eq_true, Option.any_eq_true, decide_eq_true_eq] at hover
  obtain ⟨⟨_, first, hfirst, hlt⟩, event, hevent, houtput⟩ := hover
  cases event with
  | output other =>
    have hseq : other.seq = state.lastPublishedSeq + 1 :=
      Option.some.inj (hsequence.numbered _ _ hevent)
    obtain ⟨rest, hchunks⟩ := List.head?_eq_some_iff.mp hfirst
    have hfirst' := hanswers.chunks first (by rw [hchunks]; simp)
    obtain ⟨_, hle⟩ := (hsequence.numbered.mem_take_iff (.output first) rfl).mp hfirst'
    have hother : other ∈ response.chunks := by
      refine h.chunks other ?_ (by omega)
      exact (hsequence.numbered.mem_take_iff (.output other) rfl).mpr
        ⟨List.mem_of_getElem? hevent, by omega⟩
    -- but the chunks are in order
    have hsorted := hanswers.sorted
    rw [hchunks] at hother hsorted
    rcases List.mem_cons.mp hother with rfl | hlater
    · omega
    · have hgt := (List.pairwise_cons.mp hsorted).1 other hlater
      omega
  | _ => cases houtput

namespace System

/-- A recovery that is taken ends well. -/
def Succeeds (s : System) : Event → Prop
  | .recover index => ∀ response ∈ s.responses[index]?,
      (outcome (recoverEvents response) s.session).1.isOk = true
  | _ => True

instance decidableSucceeds : ∀ (s : System) (e : Event), Decidable (s.Succeeds e)
  | s, .recover index => inferInstanceAs (Decidable (∀ response ∈ s.responses[index]?,
      (outcome (recoverEvents response) s.session).1.isOk = true))
  | _, .streamOutput .. | _, .watchExit .. | _, .finishOutputStream | _, .maybeEmitClosed
  | _, .notify _ | _, .read _ | _, .setFailure _ => isTrue trivial

variable {s t : System} {e : Event}

/-- In a recovery that ends well no exit overtakes an output. -/
theorem Inv.safe_of_succeeds (h : s.Inv) (hok : s.Succeeds e) : s.Safe e := by
  cases e with
  | recover index =>
    intro response hresponse
    refine Bool.eq_false_iff.mpr fun hover => ?_
    obtain ⟨_, message, herror⟩ := ends_recoverEvents_of_overtakes h.process.isSequence
      (h.responses response (List.mem_of_getElem? hresponse)) h.session
      ((overtakes_truth _ _ _).trans hover)
    have hsucceeds := hok response hresponse
    rw [herror] at hsucceeds
    cases hsucceeds
  | _ => trivial

theorem inv_step_of_succeeds (h : s.Inv) (hok : s.Succeeds e) (hstep : step s e = some t) :
    t.Inv :=
  inv_step h (h.safe_of_succeeds hok) hstep

/-- A settled session has published as many events as its last number says. -/
theorem Inv.length_published (h : s.Inv) :
    s.session.published.length = s.session.lastPublishedSeq := by
  rw [h.session.follows.published, List.length_take, min_eq_left h.session.follows.le]

/-- Along a run, both logs grow. -/
theorem grows_of_run (es : List Event) (h : run step s es = some t) :
    LogGrows s.session t.session ∧ s.process.events <+: t.process.events := by
  refine run_invariant_of_step (P := fun u => LogGrows s.session u.session
    ∧ s.process.events <+: u.process.events) ?_ es s t ⟨.refl _, List.prefix_rfl⟩ h
  intro u f v hu hstep
  obtain ⟨hlog, hevents⟩ := grows_of_step hstep
  exact ⟨.trans _ _ _ hu.1 hlog, hu.2.trans hevents⟩

/-- **Recovery reaches the end of a complete response.** `r` is the system when the response was
taken, `s` the one in which the client recovers. -/
theorem recovers_of_retained (before after : List Event) (afterSeq : Nat) (r s : System)
    (hbefore : run step start before = some r)
    (hafter : run step r (.read afterSeq :: after) = some s)
    (hok : Along step Succeeds start (before ++ .read afterSeq :: after))
    (hretained : ∀ chunk, .output chunk ∈ r.process.events →
      r.session.lastPublishedSeq < chunk.seq → chunk ∈ r.process.output)
    (hbytes : ∀ chunk, .output chunk ∈ s.process.events →
      chunk.chunk.length ≤ maxPendingProcessEventBytes)
    (hfailure : s.session.failure = none) :
    ∃ closed state, outcome (recoverEvents (execRead r.process afterSeq none)) s.session
        = (.ok closed, state)
      ∧ s.truth.take ((execRead r.process afterSeq none).nextSeq - 1) <+: state.published
      ∧ state.published <+: s.truth := by
  have hinvR : r.Inv := run_invariant (fun _ _ _ => inv_step_of_succeeds) before start r inv_start
    (along_initial_segment (List.prefix_append _ _) hok) hbefore
  have hrun : run step start (before ++ .read afterSeq :: after) = some s := by
    rw [run_append, hbefore]
    exact hafter
  have hinv : s.Inv :=
    run_invariant (fun _ _ _ => inv_step_of_succeeds) _ start s inv_start hok hrun
  obtain ⟨hlog, hevents⟩ := grows_of_run _ hafter
  have hmono : r.session.lastPublishedSeq ≤ s.session.lastPublishedSeq := by
    rw [← hinvR.length_published, ← hinv.length_published]
    exact ((List.IsPrefix.filter _ hlog).map _).length_le
  -- a client asks for what comes after the last event it has
  have hafterSeq : afterSeq ≤ r.session.lastPublishedSeq := by
    obtain ⟨u, hu, _⟩ := run_cons hafter
    simp only [step] at hu
    split at hu
    · cases hu
    · next hle => exact Nat.le_of_not_gt hle
  obtain ⟨more, hmore⟩ := hevents
  have htruth : s.truth = r.truth ++ more.map ExecProcessEvent.withoutDenied := by
    unfold truth
    rw [← hmore, List.map_append]
  have hanswersR := hinvR.process.answers afterSeq
  have hanswers : Answers s.truth (execRead r.process afterSeq none) := by
    rw [htruth]
    exact hanswersR.append _
  have htake : s.truth.take ((execRead r.process afterSeq none).nextSeq - 1)
      = r.truth.take ((execRead r.process afterSeq none).nextSeq - 1) := by
    rw [htruth]
    exact List.take_append_of_le_length hanswersR.le
  have hcomplete : Complete s.truth (execRead r.process afterSeq none)
      s.session.lastPublishedSeq := by
    refine ⟨fun chunk hchunk hlt => ?_, fun chunk hchunk => ?_⟩
    · rw [htake] at hchunk
      have hevent := mem_map_withoutDenied_output.mp (List.mem_of_mem_take hchunk)
      rw [execRead_chunks hinvR.process, List.mem_filter, decide_eq_true_eq]
      exact ⟨hretained chunk hevent (by omega), by omega⟩
    · have hchunk' := List.mem_of_mem_take (hanswers.chunks chunk hchunk)
      exact hbytes chunk (mem_map_withoutDenied_output.mp hchunk')
  have hsequence : IsSequence s.truth := hinv.process.isSequence
  have hsafe := hcomplete.not_overtakes hsequence hanswers
  obtain ⟨hsettled, hreaches⟩ := ends_recoverEvents hsequence hanswers hinv.session hsafe
  obtain ⟨⟨closed, hclosed⟩, hreached⟩ := hreaches hfailure hcomplete
  refine ⟨closed, _, Prod.ext hclosed rfl, ?_, ?_⟩
  · rw [hsettled.follows.published]
    exact List.take_prefix_take_left hreached
  · rw [hsettled.follows.published]
    exact List.take_prefix _ _

/-! ### Concrete runs -/

/-- One output is lost, another arrives early; then the process exits. -/
def lossyRun : List Event :=
  [.streamOutput .stdout [1], .streamOutput .stderr [2], .notify 1, .watchExit 3 true]

/-- The system when the server answers, and when the client recovers. -/
def lossyAnswered : System := (run step start lossyRun).getD start

def lossyRecovering : System := (run step lossyAnswered [.read 0, .finishOutputStream]).getD start

theorem recovers_of_retained_lossyRun :
    ∃ closed state, outcome (recoverEvents (execRead lossyAnswered.process 0 none))
        lossyRecovering.session = (.ok closed, state)
      ∧ lossyRecovering.truth.take ((execRead lossyAnswered.process 0 none).nextSeq - 1)
        <+: state.published
      ∧ state.published <+: lossyRecovering.truth := by
  refine recovers_of_retained lossyRun [.finishOutputStream] 0 lossyAnswered lossyRecovering
    (by decide +kernel) (by decide +kernel) (by decide +kernel) ?_ ?_ (by decide +kernel)
  · have hall : ∀ chunk ∈ lossyAnswered.process.events.filterMap ExecProcessEvent.output?,
        chunk ∈ lossyAnswered.process.output := by decide +kernel
    exact fun chunk hchunk _ => hall chunk (mem_filterMap_output.mpr hchunk)
  · have hall : ∀ chunk ∈ lossyRecovering.process.events.filterMap ExecProcessEvent.output?,
        chunk.chunk.length ≤ maxPendingProcessEventBytes := by decide +kernel
    exact fun chunk hchunk => hall chunk (mem_filterMap_output.mpr hchunk)

/-! ### A session that fails -/

variable {state : SessionState} {count : Nat}

theorem publishReady_of_ready (h : Ready state) : state.publishReady = (false, state) := by
  unfold SessionState.publishReady
  cases state.pending.size with
  | zero => rfl
  | succ rounds =>
    unfold SessionState.publishReadyLoop
    rw [Table.get?_eq_none_iff.mpr h]

/-- The first event is lost, and the `count` after it are pending, a byte each. -/
structure Early (count : Nat) (state : SessionState) : Prop where
  last : state.lastPublishedSeq = 0
  closed : state.closedPublished = false
  failure : state.failure = none
  events : state.events = []
  size : state.pending.size = count
  bytes : state.pendingBytes = count
  keys : ∀ entry ∈ state.pending.entries, 2 ≤ entry.1 ∧ entry.1 ≤ count + 1

/-- The next output after the early ones. -/
def earlyOutput (count : Nat) : ExecProcessEvent := .output ⟨count + 2, .stdout, [0]⟩

theorem Early.active (h : Early count state) : state.ignores (count + 2) = false := by
  unfold SessionState.ignores
  rw [h.failure, h.closed, h.last]
  rfl

theorem Early.get?_eq_none (h : Early count state) : state.pending.get? (count + 2) = none := by
  refine Table.get?_eq_none_iff.mpr fun event hevent => ?_
  have hle := (h.keys _ hevent).2
  exact absurd hle (by simp)

/-- While there is room an early event is kept, and then it fails the session. -/
theorem Early.handleNotification_eq (h : Early count state) :
    ∃ message, state.handleNotification (earlyOutput count)
      = if maxPendingProcessEvents ≤ count then state.setFailure message
        else { state with
          pending := state.pending.insert (count + 2) (earlyOutput count)
          pendingBytes := count + 1 }.publishReady.2 := by
  have hbytes : maxPendingProcessEvents ≤ maxPendingProcessEventBytes := by decide
  have hnext : ¬ count + 2 = state.lastPublishedSeq + 1 := by
    rw [h.last]
    omega
  unfold SessionState.handleNotification SessionState.publishOrderedEvent
    SessionState.insertPending earlyOutput
  simp only [ExecProcessEvent.seq, h.active, h.get?_eq_none, Option.isSome_none,
    Bool.false_eq_true, ↓reduceIte, hnext, not_false_eq_true, true_and, h.size, h.bytes,
    pendingProcessEventBytes, List.length_singleton]
  by_cases hfull : maxPendingProcessEvents ≤ count
  · rw [if_pos hfull]
    exact ⟨_, (if_pos hfull).symm⟩
  · rw [if_neg hfull, if_neg (by omega), if_neg (by omega)]
    exact ⟨"", (if_neg hfull).symm⟩

theorem Early.next (h : Early count state) (hroom : count < maxPendingProcessEvents) :
    Early (count + 1) (state.handleNotification (earlyOutput count)) := by
  have hkeys : ∀ entry ∈ (state.pending.insert (count + 2) (earlyOutput count)).entries,
      2 ≤ entry.1 ∧ entry.1 ≤ count + 2 := by
    intro entry hentry
    rcases OrderedMap.mem_insert.mp hentry with rfl | ⟨_, hold⟩
    · exact ⟨by simp, le_rfl⟩
    · have hrange := h.keys entry hold
      omega
  have hready : Ready { state with
      pending := state.pending.insert (count + 2) (earlyOutput count)
      pendingBytes := count + 1 } := by
    intro event hevent
    have hlow := (hkeys _ hevent).1
    have hlast := h.last
    simp only at hlow
    omega
  have hsize : (state.pending.insert (count + 2) (earlyOutput count)).size = count + 1 := by
    have hperm := (OrderedMap.insert_perm state.pending (count + 2) (earlyOutput count)).length_eq
    rw [List.length_cons, OrderedMap.entries_erase_of_get?_eq_none h.get?_eq_none] at hperm
    exact hperm.trans (congrArg (· + 1) h.size)
  obtain ⟨_, heq⟩ := h.handleNotification_eq
  rw [heq, if_neg (Nat.not_le.mpr hroom), publishReady_of_ready hready]
  exact ⟨h.last, h.closed, h.failure, h.events, hsize, rfl, hkeys⟩

/-- The process after outputs of a byte each. -/
def quietProcess (count : Nat) : RunningProcess :=
  let output := (List.range count).map fun i => (⟨i + 1, .stdout, [0]⟩ : ProcessOutputChunk)
  ⟨output, count, count + 1, none, 2, false, false, output.map .output⟩

theorem streamOutput_quietProcess (h : count < retainedOutputChunksPerProcess) :
    (quietProcess count).streamOutput .stdout [0] = quietProcess (count + 1) := by
  have hbytes : retainedOutputChunksPerProcess ≤ retainedOutputBytesPerProcess := by decide
  have hevict : ∀ (bytes : Nat) (output : List ProcessOutputChunk),
      bytes ≤ retainedOutputBytesPerProcess → output.length ≤ retainedOutputChunksPerProcess →
        RunningProcess.evict bytes output = (bytes, output) := by
    intro bytes output hbytes hlength
    cases output with
    | nil => rfl
    | cons first rest =>
      unfold RunningProcess.evict
      rw [if_neg (by omega)]
  have houtput : (List.range (count + 1)).map
      (fun i => (⟨i + 1, .stdout, [0]⟩ : ProcessOutputChunk))
      = (List.range count).map (fun i => (⟨i + 1, .stdout, [0]⟩ : ProcessOutputChunk))
        ++ [⟨count + 1, .stdout, [0]⟩] := by
    rw [List.range_succ, List.map_append]
    rfl
  unfold RunningProcess.streamOutput quietProcess
  simp only [List.length_singleton, houtput, List.map_append, List.map_singleton]
  rw [hevict _ _ (by omega) (by simp; omega)]

/-- The first of many outputs is lost, and the others are more than a session keeps. -/
def overflowRun (room : Nat) : List Event :=
  List.replicate (room + 2) (.streamOutput .stdout [0])
    ++ (List.range (room + 1)).map fun i => .notify (i + 1)

theorem run_outputs (count : Nat) (h : count ≤ retainedOutputChunksPerProcess) :
    run step start (List.replicate count (.streamOutput .stdout [0]))
      = some ⟨quietProcess count, .new, []⟩ := by
  induction count with
  | zero => rfl
  | succ count ih =>
    rw [List.replicate_succ', run_append, ih (by omega), ← streamOutput_quietProcess (by omega)]
    rfl

theorem run_notify {total : Nat} (state : SessionState) (h : count + 2 ≤ total) :
    run step ⟨quietProcess total, state, []⟩ [.notify (count + 1)]
      = some ⟨quietProcess total, state.handleNotification (earlyOutput count), []⟩ := by
  have hget : (quietProcess total).events[count + 1]? = some (earlyOutput count) := by
    have hlt : count + 1 < total := by omega
    simp [quietProcess, earlyOutput, hlt]
  simp [run, step, hget]

/-- Early notifications, one after the other, for as many as there is room. -/
theorem run_notifications (count total : Nat) (hroom : count ≤ maxPendingProcessEvents)
    (htotal : count + 1 ≤ total) :
    ∃ state, run step ⟨quietProcess total, .new, []⟩
        ((List.range count).map fun i => .notify (i + 1)) = some ⟨quietProcess total, state, []⟩
      ∧ Early count state := by
  induction count with
  | zero => exact ⟨.new, rfl, rfl, rfl, rfl, rfl, rfl, rfl, fun entry hentry => by cases hentry⟩
  | succ count ih =>
    obtain ⟨state, hrun, hearly⟩ := ih (by omega) (by omega)
    refine ⟨_, ?_, hearly.next (by omega)⟩
    rw [List.range_succ, List.map_append, run_append, hrun]
    exact run_notify state (by omega)

/-- A session that has failed takes nothing from a response. -/
theorem outcome_recoverEvents_of_failure {response : ReadResponse}
    (hresponse : response.failure = none) (hfailure : state.failure.isSome = true) :
    outcome (recoverEvents response) state = (.ok false, state) := by
  unfold recoverEvents
  rw [hresponse]
  rw [outcome_bind_of_ok (outcome_get state)]
  simp only [SessionState.ignores, hfailure, Bool.true_or, ↓reduceIte]
  rfl

theorem recovers_nothing {room : Nat} (hroom : room = maxPendingProcessEvents) :
    ∃ s, run step start (overflowRun room) = some s
      ∧ s.process.output = s.process.events.filterMap ExecProcessEvent.output?
      ∧ (execRead s.process 0 none).nextSeq = room + 3
      ∧ (outcome (recoverEvents (execRead s.process 0 none)) s.session).1 = .ok false
      ∧ (outcome (recoverEvents (execRead s.process 0 none)) s.session).2.published = [] := by
  have hretained : maxPendingProcessEvents + 2 ≤ retainedOutputChunksPerProcess := by decide
  obtain ⟨state, hrun, hearly⟩ := run_notifications room (room + 2) hroom.le (by omega)
  obtain ⟨message, hfailed⟩ := hearly.handleNotification_eq
  rw [if_pos hroom.ge] at hfailed
  have hstate : state.setFailure message = { state with
      failure := some message
      pending := .empty
      pendingBytes := 0
      events := [.failed message] } := by
    unfold SessionState.setFailure
    rw [hearly.failure, hearly.closed, hearly.events]
    rfl
  have hoverflow : run step start (overflowRun room)
      = some ⟨quietProcess (room + 2), state.setFailure message, []⟩ := by
    unfold overflowRun
    rw [run_append, run_outputs (room + 2) (by omega), List.range_succ, List.map_append]
    show run step _ (_ ++ _) = _
    rw [run_append, hrun, ← hfailed]
    exact run_notify state le_rfl
  have hignores : outcome (recoverEvents (execRead (quietProcess (room + 2)) 0 none))
      (state.setFailure message) = (.ok false, state.setFailure message) :=
    outcome_recoverEvents_of_failure rfl (by rw [hstate]; rfl)
  refine ⟨_, hoverflow, ?_, rfl, congrArg Prod.fst hignores, ?_⟩
  · show (quietProcess (room + 2)).output = ((quietProcess (room + 2)).output.map _).filterMap _
    rw [List.filterMap_map]
    exact (List.filterMap_some ..).symm
  · rw [hignores, hstate]
    rfl

/-- A session that has failed recovers nothing, though all the output is retained. -/
theorem recovers_nothing_overflowRun :
    ∃ s, run step start (overflowRun 256) = some s
      ∧ s.process.output = s.process.events.filterMap ExecProcessEvent.output?
      ∧ (execRead s.process 0 none).nextSeq = 259
      ∧ (outcome (recoverEvents (execRead s.process 0 none)) s.session).1 = .ok false
      ∧ (outcome (recoverEvents (execRead s.process 0 none)) s.session).2.published = [] :=
  recovers_nothing rfl

end System

end CodexRouter.ExecServer
