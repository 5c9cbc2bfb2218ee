import CodexRouter.Lib.Run
import CodexRouter.ExecServer.Recovery

set_option autoImplicit false

/-! # A process and the client that watches it

The server goes on with its process while notifications of the events reach the client, some
never, some twice, in any order, and the client recovers from `process/read` responses that were
made at any earlier moment.
-/

namespace CodexRouter.ExecServer

open Lib

structure System where
  process : RunningProcess
  session : SessionState
  -- the responses that were made so far
  responses : List ReadResponse
deriving DecidableEq

namespace System

def start : System := ⟨.start, .new, []⟩

inductive Event
  | streamOutput (stream : ExecOutputStream) (chunk : Bytes)
  | watchExit (exitCode : Int) (denied : Bool)
  | finishOutputStream
  | maybeEmitClosed
  -- a notification of an event of the process reaches the client
  | notify (index : Nat)
  -- the server answers an unlimited `process/read`
  | read (afterSeq : Nat)
  -- the client recovers from a response
  | recover (index : Nat)
  | setFailure (message : String)

/-- A stream gives output while it is open, and the process exits once. A client asks for what
comes after the last event that it had published when it asked. -/
def step (s : System) : Event → Option System
  | .streamOutput stream chunk =>
    if s.process.openStreams = 0 then none
    else some { s with process := s.process.streamOutput stream chunk }
  | .watchExit exitCode denied =>
    if s.process.exitCode.isSome then none
    else some { s with process := s.process.watchExit exitCode denied }
  | .finishOutputStream => some { s with process := s.process.finishOutputStream }
  | .maybeEmitClosed => some { s with process := s.process.maybeEmitClosed }
  | .notify index =>
    s.process.events[index]?.map fun event =>
      { s with session := s.session.handleNotification event }
  | .read afterSeq =>
    if s.session.lastPublishedSeq < afterSeq then none
    else some { s with responses := s.responses ++ [execRead s.process afterSeq none] }
  | .recover index =>
    s.responses[index]?.map fun response =>
      { s with session := (outcome (recoverEvents response) s.session).2 }
  | .setFailure message => some { s with session := s.session.setFailure message }

/-- The sequence of the server, up to the flag of the sandbox. -/
def truth (s : System) : List ExecProcessEvent :=
  s.process.events.map ExecProcessEvent.withoutDenied

/-- What the client has published are the first events of the server. -/
def PublishesPrefix (s : System) : Prop := s.session.published <+: s.truth

/-- No exit overtakes an output in a recovery. -/
def Safe (s : System) : Event → Prop
  | .recover index => ∀ response ∈ s.responses[index]?,
      overtakes s.process.events s.session response = false
  | _ => True

instance decidableSafe : ∀ (s : System) (e : Event), Decidable (s.Safe e)
  | s, .recover index => inferInstanceAs (Decidable (∀ response ∈ s.responses[index]?,
      overtakes s.process.events s.session response = false))
  | _, .streamOutput .. | _, .watchExit .. | _, .finishOutputStream | _, .maybeEmitClosed
  | _, .notify _ | _, .read _ | _, .setFailure _ => isTrue trivial

/-! ## The invariant -/

structure Inv (s : System) : Prop where
  process : WellKept s.process
  session : Settled s.truth s.session
  responses : ∀ response ∈ s.responses, Answers s.truth response

end System

section

variable {truth : List ExecProcessEvent} {process : RunningProcess} {state : SessionState}

/-- The events of a process are a sequence, up to the flag. -/
theorem WellKept.isSequence (h : WellKept process) :
    IsSequence (process.events.map ExecProcessEvent.withoutDenied) where
  numbered := h.numbered.map_withoutDenied
  plain := by
    intro event hevent
    obtain ⟨original, _, rfl⟩ := List.mem_map.mp hevent
    cases original <;> rfl
  exitOnce := by
    intro seq exitCode seq' exitCode' hexit hexit'
    obtain ⟨original, horiginal, hsame⟩ := List.mem_map.mp hexit
    obtain ⟨original', horiginal', hsame'⟩ := List.mem_map.mp hexit'
    cases original <;> cases hsame
    cases original' <;> cases hsame'
    exact h.exitOnce _ _ _ _ _ _ horiginal horiginal'
  closed := by
    intro seq hclosed
    obtain ⟨original, horiginal, hsame⟩ := List.mem_map.mp hclosed
    cases original <;> cases hsame
    rw [List.length_map]
    cases hstate : process.closed with
    | false =>
      have hnot := h.notClosed hstate _ horiginal
      cases hnot
    | true =>
      obtain ⟨_, _, before, hevents, hbefore⟩ := h.closed hstate
      rw [hevents] at horiginal ⊢
      rcases List.mem_append.mp horiginal with hold | hlast
      · have hnot := hbefore _ hold
        cases hnot
      · cases List.mem_singleton.mp hlast
        rw [List.length_append, List.length_singleton]

theorem mem_map_withoutDenied_output {events : List ExecProcessEvent} {chunk : ProcessOutputChunk} :
    .output chunk ∈ events.map ExecProcessEvent.withoutDenied ↔ .output chunk ∈ events := by
  constructor
  · intro h
    obtain ⟨original, horiginal, hsame⟩ := List.mem_map.mp h
    cases original <;> cases hsame
    exact horiginal
  · intro h
    exact List.mem_map.mpr ⟨_, h, rfl⟩

/-- A longer sequence is followed just as well. -/
theorem Settled.append (h : Settled truth state) (more : List ExecProcessEvent) :
    Settled (truth ++ more) state := by
  have htake : (truth ++ more).take state.lastPublishedSeq = truth.take state.lastPublishedSeq :=
    List.take_append_of_le_length h.follows.le
  refine ⟨⟨?_, ?_, ?_, ?_, ?_, h.follows.bytes⟩, h.ready⟩
  · rw [List.length_append]
    exact h.follows.le.trans (Nat.le_add_right _ _)
  · rw [htake]
    exact h.follows.published
  · rw [htake]
    exact h.follows.exit
  · rw [htake]
    exact h.follows.closed
  · intro seq event hevent
    obtain ⟨hlt, hseq, htruth⟩ := h.follows.pending seq event hevent
    exact ⟨hlt, hseq, List.mem_append_left _ htruth⟩

theorem Answers.append {response : ReadResponse} (h : Answers truth response)
    (more : List ExecProcessEvent) : Answers (truth ++ more) response := by
  have htake : (truth ++ more).take (response.nextSeq - 1) = truth.take (response.nextSeq - 1) :=
    List.take_append_of_le_length h.le
  refine ⟨h.failure, ?_, h.exited, ?_, ?_, ?_, h.sorted, ?_, ?_⟩
  · rw [List.length_append]
    exact h.le.trans (Nat.le_add_right _ _)
  · rw [htake]
    exact h.exitCode
  · exact fun hclosed => List.mem_append_left _ (h.closed hclosed)
  · rw [htake]
    exact h.notClosed
  · rw [htake]
    exact h.chunks
  · rw [htake]
    exact h.retained

/-- The output chunks of numbered events are in the order of their numbers. -/
theorem Numbered.sorted_outputs {events : List ExecProcessEvent} (h : Numbered events) :
    (events.filterMap ExecProcessEvent.output?).Pairwise (·.seq < ·.seq) := by
  have hpairwise : events.Pairwise fun event event' =>
      ∀ m n, event.seq = some m → event'.seq = some n → m < n := by
    refine List.pairwise_iff_getElem.mpr fun i j hi hj hlt m n hm hn => ?_
    have hi' := h i _ (List.getElem?_eq_getElem hi)
    have hj' := h j _ (List.getElem?_eq_getElem hj)
    have := Option.some.inj (hm.symm.trans hi')
    have := Option.some.inj (hn.symm.trans hj')
    omega
  refine hpairwise.filterMap _ fun event event' hseq chunk hchunk chunk' hchunk' => ?_
  cases event <;> cases hchunk
  cases event' <;> cases hchunk'
  exact hseq _ _ rfl rfl

theorem mem_filterMap_output {events : List ExecProcessEvent} {chunk : ProcessOutputChunk} :
    chunk ∈ events.filterMap ExecProcessEvent.output? ↔ .output chunk ∈ events := by
  rw [List.mem_filterMap]
  constructor
  · rintro ⟨event, hevent, hsame⟩
    cases event <;> cases hsame
    exact hevent
  · intro h
    exact ⟨_, h, rfl⟩

/-- In a sorted list, the elements of a last part are those beyond some number. -/
theorem exists_cut {outputs output : List ProcessOutputChunk} (hsuffix : output <:+ outputs)
    (hsorted : outputs.Pairwise (·.seq < ·.seq)) :
    ∃ cut, (∀ chunk ∈ output, cut ≤ chunk.seq)
      ∧ ∀ chunk ∈ outputs, cut ≤ chunk.seq → chunk ∈ output := by
  obtain ⟨before, rfl⟩ := hsuffix
  obtain ⟨_, hafter, hcross⟩ := List.pairwise_append.mp hsorted
  cases output with
  | nil =>
    -- nothing is retained: take a number beyond all
    refine ⟨(before.map ProcessOutputChunk.seq).sum + 1, ?_, fun chunk hchunk hle => ?_⟩
    · nofun
    rw [List.append_nil] at hchunk
    have hsum := List.single_le_sum (fun _ _ => Nat.zero_le _) chunk.seq
      (List.mem_map_of_mem hchunk)
    omega
  | cons first rest =>
    refine ⟨first.seq, fun chunk hchunk => ?_, fun chunk hchunk hle => ?_⟩
    · rcases List.mem_cons.mp hchunk with rfl | hchunk
      · exact le_rfl
      · exact ((List.pairwise_cons.mp hafter).1 chunk hchunk).le
    · rcases List.mem_append.mp hchunk with hbefore | hchunk
      · have := hcross chunk hbefore first List.mem_cons_self
        omega
      · exact hchunk

/-- A response answers the sequence of the process when it is made. -/
theorem WellKept.answers (h : WellKept process) (afterSeq : Nat) :
    Answers (process.events.map ExecProcessEvent.withoutDenied)
      (execRead process afterSeq none) := by
  have hnext : (execRead process afterSeq none).nextSeq - 1 = process.events.length := by
    show process.nextSeq - 1 = _
    rw [h.nextSeq]
    rfl
  have htake : (process.events.map ExecProcessEvent.withoutDenied).take
      ((execRead process afterSeq none).nextSeq - 1)
        = process.events.map ExecProcessEvent.withoutDenied := by grind [List.take_of_length_le]
  have hsorted := h.numbered.sorted_outputs
  have hmem : ∀ chunk, chunk ∈ (execRead process afterSeq none).chunks
      ↔ chunk ∈ process.output ∧ afterSeq < chunk.seq := by
    intro chunk
    rw [execRead_chunks h, List.mem_filter, decide_eq_true_eq]
  exact {
    failure := rfl
    le := by rw [hnext, List.length_map]
    exited := rfl
    exitCode := by
      intro exitCode
      rw [htake]
      show process.exitCode = some exitCode ↔ _
      rw [h.exitCode]
      constructor
      · rintro ⟨seq, denied, hexit⟩
        exact ⟨seq, List.mem_map.mpr ⟨_, hexit, rfl⟩⟩
      · rintro ⟨seq, hexit⟩
        obtain ⟨original, horiginal, hsame⟩ := List.mem_map.mp hexit
        cases original <;> cases hsame
        exact ⟨seq, _, horiginal⟩
    closed := by
      intro hclosed
      obtain ⟨_, _, before, hevents, _⟩ := h.closed hclosed
      rw [hnext, hevents, List.length_append, List.length_singleton]
      exact List.mem_map.mpr ⟨_, List.mem_append_right _ List.mem_cons_self, rfl⟩
    notClosed := by
      intro hclosed seq hmem
      rw [htake] at hmem
      obtain ⟨original, horiginal, hsame⟩ := List.mem_map.mp hmem
      have hnot := h.notClosed hclosed original horiginal
      rw [← ExecProcessEvent.isClosed_withoutDenied, hsame] at hnot
      cases hnot
    sorted := by
      rw [execRead_chunks h]
      exact (hsorted.sublist h.output.sublist).sublist List.filter_sublist
    chunks := by
      intro chunk hchunk
      rw [htake]
      exact mem_map_withoutDenied_output.mpr
        (mem_filterMap_output.mp (h.output.subset ((hmem chunk).mp hchunk).1))
    retained := by
      obtain ⟨low, hlow, hretained⟩ := exists_cut h.output hsorted
      refine ⟨max afterSeq (low - 1), fun chunk hchunk => ?_, fun chunk hchunk hcut => ?_⟩
      · obtain ⟨hkept, hafter⟩ := (hmem chunk).mp hchunk
        have hle := hlow chunk hkept
        omega
      · rw [htake] at hchunk
        refine (hmem chunk).mpr ⟨hretained chunk ?_ (by omega), by omega⟩
        exact mem_filterMap_output.mpr (mem_map_withoutDenied_output.mp hchunk) }

theorem settled_setFailure (h : Settled truth state) (message : String) :
    Settled truth (state.setFailure message) := by
  unfold SessionState.setFailure
  split
  · exact h
  · refine ⟨⟨h.follows.le, ?_, h.follows.exit, h.follows.closed, ?_, rfl⟩, ?_⟩
    · show ((state.events ++ [ExecProcessEvent.failed message]).filter _).map _ = _
      rw [List.filter_append]
      exact (congrArg (List.map _) (List.append_nil _)).trans h.follows.published
    · nofun
    · nofun

/-- A notification of an event of the sequence keeps a session settled. -/
theorem settled_handleNotification (hnumbered : Numbered truth) (h : Settled truth state)
    {event : ExecProcessEvent} (htruth : event.withoutDenied ∈ truth) :
    Settled truth (state.handleNotification event) := by
  obtain ⟨hfollows, hready⟩ :=
    follows_publishOrderedEvent hnumbered h.follows h.ready htruth
  unfold SessionState.handleNotification
  split
  · next hresult =>
    rw [hresult] at hfollows hready
    exact ⟨hfollows, hready⟩
  · next hresult =>
    rw [hresult] at hfollows hready
    exact settled_setFailure ⟨hfollows, hready⟩ _

end

namespace System

variable {s t : System} {e : Event}

theorem inv_start : start.Inv where
  process := RunningProcess.wellKept_start
  session := ⟨follows_new _, fun event hevent => by cases hevent⟩
  responses := nofun

/-- A step of the server appends to its sequence. -/
theorem Inv.server (h : s.Inv) {process : RunningProcess} (hprocess : WellKept process)
    (hgrows : s.process.events <+: process.events) : Inv { s with process := process } := by
  obtain ⟨more, hmore⟩ := hgrows
  have htruth : ({ s with process := process } : System).truth
      = s.truth ++ more.map ExecProcessEvent.withoutDenied := by
    unfold truth
    rw [← hmore, List.map_append]
  refine ⟨hprocess, ?_, fun response hresponse => ?_⟩
  · rw [htruth]
    exact h.session.append _
  · rw [htruth]
    exact (h.responses response hresponse).append _

theorem overtakes_truth (events : List ExecProcessEvent) (state : SessionState)
    (response : ReadResponse) :
    overtakes (events.map ExecProcessEvent.withoutDenied) state response
      = overtakes events state response := by
  unfold overtakes
  rw [List.getElem?_map, Option.any_map]
  congr 1
  refine congrArg (Option.any · _) (funext fun event => ?_)
  cases event <;> rfl

/-- A step in which no exit overtakes an output keeps the invariant. -/
theorem inv_step (h : s.Inv) (hsafe : s.Safe e) (hstep : step s e = some t) : t.Inv := by
  have hsequence : IsSequence s.truth := h.process.isSequence
  cases e with
  | streamOutput stream chunk =>
    simp only [step] at hstep
    split at hstep
    · cases hstep
    · next hopen =>
      cases hstep
      exact h.server (RunningProcess.wellKept_streamOutput h.process hopen stream chunk)
        (List.prefix_append _ _)
  | watchExit exitCode denied =>
    simp only [step] at hstep
    split at hstep
    · cases hstep
    · next hrunning =>
      cases hstep
      refine h.server (RunningProcess.wellKept_watchExit h.process ?_ exitCode denied)
        (List.prefix_append _ _)
      simpa using hrunning
  | finishOutputStream =>
    cases hstep
    exact h.server (RunningProcess.wellKept_finishOutputStream h.process) List.prefix_rfl
  | maybeEmitClosed =>
    cases hstep
    refine h.server (RunningProcess.wellKept_maybeEmitClosed h.process) ?_
    unfold RunningProcess.maybeEmitClosed
    split
    · exact List.prefix_rfl
    · exact List.prefix_append _ _
  | notify index =>
    obtain ⟨event, hevent, rfl⟩ := Option.map_eq_some_iff.mp hstep
    have htruth : event.withoutDenied ∈ s.truth :=
      List.mem_map_of_mem (List.mem_of_getElem? hevent)
    exact ⟨h.process, settled_handleNotification hsequence.numbered h.session htruth,
      h.responses⟩
  | read afterSeq =>
    simp only [step] at hstep
    split at hstep
    · cases hstep
    · cases hstep
      refine ⟨h.process, h.session, fun response hresponse => ?_⟩
      rcases List.mem_append.mp hresponse with hold | hnew
      · exact h.responses response hold
      · rw [List.mem_singleton.mp hnew]
        exact h.process.answers afterSeq
  | recover index =>
    obtain ⟨response, hresponse, rfl⟩ := Option.map_eq_some_iff.mp hstep
    have hanswers := h.responses response (List.mem_of_getElem? hresponse)
    have hover : overtakes s.truth s.session response = false := by
      rw [truth, overtakes_truth]
      exact hsafe response hresponse
    exact ⟨h.process, (ends_recoverEvents hsequence hanswers h.session hover).1, h.responses⟩
  | setFailure message =>
    cases hstep
    exact ⟨h.process, settled_setFailure h.session message, h.responses⟩

/-! ## Steps that go wrong -/

theorem logGrows_setFailure (state : SessionState) (message : String) :
    LogGrows state (state.setFailure message) := by
  unfold SessionState.setFailure
  split
  · exact .refl state
  · exact List.prefix_append _ _

theorem logGrows_publishOrderedEvent (state : SessionState) (event : ExecProcessEvent) :
    LogGrows state (state.publishOrderedEvent event).2 := by
  unfold SessionState.publishOrderedEvent
  split
  · exact List.prefix_append _ _
  · split
    · exact .refl state
    · split
      · exact .refl state
      · next state' hinsert =>
        exact .trans state state' _ (logGrows_insertPending hinsert)
          (logGrows_publishReady state')

theorem logGrows_handleNotification (state : SessionState) (event : ExecProcessEvent) :
    LogGrows state (state.handleNotification event) := by
  have hgrows := logGrows_publishOrderedEvent state event
  unfold SessionState.handleNotification
  split
  · next hresult =>
    rw [hresult] at hgrows
    exact hgrows
  · next hresult =>
    rw [hresult] at hgrows
    exact .trans state _ _ hgrows (logGrows_setFailure _ _)

/-- No step takes back what was published, on either side. -/
theorem grows_of_step (h : step s e = some t) :
    LogGrows s.session t.session ∧ s.process.events <+: t.process.events := by
  cases e with
  | streamOutput stream chunk | watchExit exitCode denied =>
    simp only [step] at h
    split at h
    · cases h
    · cases h
      exact ⟨.refl _, List.prefix_append _ _⟩
  | finishOutputStream =>
    cases h
    exact ⟨.refl _, List.prefix_rfl⟩
  | maybeEmitClosed =>
    cases h
    refine ⟨.refl _, ?_⟩
    show s.process.events <+: s.process.maybeEmitClosed.events
    unfold RunningProcess.maybeEmitClosed
    split
    · exact List.prefix_rfl
    · exact List.prefix_append _ _
  | notify index =>
    obtain ⟨event, _, rfl⟩ := Option.map_eq_some_iff.mp h
    exact ⟨logGrows_handleNotification s.session event, List.prefix_rfl⟩
  | read afterSeq => grind [LogGrows, step]
  | recover index =>
    obtain ⟨response, _, rfl⟩ := Option.map_eq_some_iff.mp h
    exact ⟨keeps_recoverEvents response s.session, List.prefix_rfl⟩
  | setFailure message =>
    cases h
    exact ⟨logGrows_setFailure s.session message, List.prefix_rfl⟩

/-- The client and the server have different events at the same place. -/
def Diverges (s : System) : Prop :=
  ∃ (n : Nat) (event event' : ExecProcessEvent), s.session.published[n]? = some event
    ∧ s.truth[n]? = some event' ∧ event ≠ event'

theorem Diverges.not_publishesPrefix (h : s.Diverges) : ¬ s.PublishesPrefix := by
  obtain ⟨n, event, event', hevent, hevent', hne⟩ := h
  rintro ⟨rest, hrest⟩
  have hlt : n < s.session.published.length := (List.getElem?_eq_some_iff.mp hevent).1
  rw [← hrest, List.getElem?_append_left hlt, hevent] at hevent'
  exact hne (Option.some.inj hevent')

theorem getElem?_of_isPrefix {α : Type} {l m : List α} {n : Nat} {a : α} (h : l <+: m)
    (ha : l[n]? = some a) : m[n]? = some a := by
  obtain ⟨rest, rfl⟩ := h
  rw [List.getElem?_append_left (List.getElem?_eq_some_iff.mp ha).1]
  exact ha

theorem Diverges.step (h : s.Diverges) (hstep : step s e = some t) : t.Diverges := by
  obtain ⟨n, event, event', hevent, hevent', hne⟩ := h
  obtain ⟨hlog, hserver⟩ := grows_of_step hstep
  have hpublished : s.session.published <+: t.session.published :=
    (List.IsPrefix.filter _ hlog).map _
  exact ⟨n, event, event', getElem?_of_isPrefix hpublished hevent,
    getElem?_of_isPrefix (hserver.map _) hevent', hne⟩

/-- An exit that overtakes an output is published in its place. -/
theorem Inv.diverges_of_not_safe (h : s.Inv) (hbroken : ¬ s.Safe e) (hstep : step s e = some t) :
    t.Diverges := by
  cases e with
  | recover index =>
    obtain ⟨response, hresponse, rfl⟩ := Option.map_eq_some_iff.mp hstep
    have hanswers := h.responses response (List.mem_of_getElem? hresponse)
    have hover : overtakes s.truth s.session response = true := by
      rw [truth, overtakes_truth]
      refine Bool.of_not_eq_false fun hfalse => hbroken fun other hother => ?_
      have hsame : some response = some other := hresponse.symm.trans hother
      cases hsame
      exact hfalse
    obtain ⟨⟨exitCode, denied, _, hgrows⟩, _⟩ :=
      ends_recoverEvents_of_overtakes h.process.isSequence hanswers h.session hover
    have hpublished := (List.IsPrefix.filter (fun event => event.seq.isSome) hgrows).map
      ExecProcessEvent.withoutDenied
    rw [List.filter_append, List.map_append] at hpublished
    -- the place after what was published so far
    have hlength : s.session.published.length = s.session.lastPublishedSeq := by
      rw [h.session.follows.published, List.length_take, min_eq_left h.session.follows.le]
    unfold overtakes at hover
    simp only [Bool.and_eq_true, Option.any_eq_true] at hover
    obtain ⟨_, event, hevent, houtput⟩ := hover
    refine ⟨s.session.lastPublishedSeq,
      .exited (s.session.lastPublishedSeq + 1) exitCode none, event,
      getElem?_of_isPrefix hpublished ?_, hevent, ?_⟩
    · show (s.session.published ++ _)[_]? = _
      rw [← hlength]
      exact List.getElem?_concat_length
    · rintro rfl
      cases houtput
  | _ => exact absurd trivial hbroken

/-- **What the client publishes is the beginning of the server's sequence exactly if no exit
overtakes an output**: in every state of a run, if and only if all its recoveries are safe. -/
theorem publishesPrefix_iff_safe (es : List Event) (t : System)
    (h : run step start es = some t) :
    (∀ pre u, pre <+: es → run step start pre = some u → u.PublishesPrefix)
      ↔ Along step Safe start es := by
  have hcases : ∀ pre u, run step start pre = some u →
      Along step Safe start pre ∧ u.Inv ∨ ¬ Along step Safe start pre ∧ u.Diverges :=
    fun pre u => run_along_or_broken (fun _ _ _ => inv_step)
      (fun _ _ _ hinv => hinv.diverges_of_not_safe) (fun _ _ _ => Diverges.step) pre start u
      inv_start
  constructor
  · intro hall
    rcases hcases es t h with ⟨hsafe, _⟩ | ⟨_, hdiverges⟩
    · exact hsafe
    · exact absurd (hall es t List.prefix_rfl h) hdiverges.not_publishesPrefix
  · intro hsafe pre u hpre hrun
    rcases hcases pre u hrun with ⟨_, hinv⟩ | ⟨hbroken, _⟩
    · show u.session.published <+: u.truth
      rw [hinv.session.follows.published]
      exact List.take_prefix _ _
    · exact absurd (along_initial_segment hpre hsafe) hbroken

/-! ### Concrete runs -/

/-- Two outputs and the exit; the second output arrives early, the others come from a response. -/
def recoveredRun : List Event :=
  [.streamOutput .stdout [1], .streamOutput .stdout [2], .watchExit 0 false, .read 0, .notify 1,
    .recover 0]

theorem publishesPrefix_recoveredRun :
    ∃ t, run step start recoveredRun = some t ∧ Along step Safe start recoveredRun
      ∧ t.session.published
        = [.output ⟨1, .stdout, [1]⟩, .output ⟨2, .stdout, [2]⟩, .exited 3 0 none]
      ∧ t.PublishesPrefix := by
  have hsafe : Along step Safe start recoveredRun := by decide +kernel
  obtain ⟨t, hrun, hpublished⟩ : ∃ t, run step start recoveredRun = some t
      ∧ t.session.published
        = [.output ⟨1, .stdout, [1]⟩, .output ⟨2, .stdout, [2]⟩, .exited 3 0 none] := by
    have hmap : (run step start recoveredRun).map (·.session.published)
        = some [.output ⟨1, .stdout, [1]⟩, .output ⟨2, .stdout, [2]⟩, .exited 3 0 none] := by
      decide +kernel
    exact Option.map_eq_some_iff.mp hmap
  exact ⟨t, hrun, hsafe, hpublished,
    (publishesPrefix_iff_safe recoveredRun t hrun).mpr hsafe recoveredRun t List.prefix_rfl hrun⟩

/-- The first output is lost, and after a large one no longer retained when the client
recovers. -/
def evictedRun (fullChunk : Bytes) : List Event :=
  [.streamOutput .stdout [1], .streamOutput .stdout fullChunk, .watchExit 0 false, .read 0,
    .recover 0]

/-- The process after its two outputs: the first one is not retained. -/
theorem streamOutput_fullChunk {fullChunk : Bytes}
    (hlength : fullChunk.length = retainedOutputBytesPerProcess) :
    (RunningProcess.start.streamOutput .stdout [1]).streamOutput .stdout fullChunk
      = ⟨[⟨2, .stdout, fullChunk⟩], retainedOutputBytesPerProcess, 3, none, 2, false, false,
        [.output ⟨1, .stdout, [1]⟩, .output ⟨2, .stdout, fullChunk⟩]⟩ := by
  have hevict : RunningProcess.evict (1 + fullChunk.length)
      [⟨1, .stdout, [1]⟩, ⟨2, .stdout, fullChunk⟩]
        = (retainedOutputBytesPerProcess, [⟨2, .stdout, fullChunk⟩]) := by
    rw [hlength]
    unfold RunningProcess.evict
    rw [if_pos (Or.inl (by decide))]
    unfold RunningProcess.evict
    rfl
  have hfirst : RunningProcess.start.streamOutput .stdout [1]
      = ⟨[⟨1, .stdout, [1]⟩], 1, 2, none, 2, false, false, [.output ⟨1, .stdout, [1]⟩]⟩ := by
    decide
  rw [hfirst]
  unfold RunningProcess.streamOutput
  simp only [List.singleton_append, hevict]

theorem exit_overtakes {fullChunk : Bytes}
    (hlength : fullChunk.length = retainedOutputBytesPerProcess) :
    ∃ t, run step start (evictedRun fullChunk) = some t
      ∧ t.session.published.head? = some (.exited 1 0 none)
      ∧ t.truth.head? = some (.output ⟨1, .stdout, [1]⟩)
      ∧ ¬ t.PublishesPrefix := by
  let process := ((RunningProcess.start.streamOutput .stdout [1]).streamOutput .stdout
    fullChunk).watchExit 0 false
  have hprocess : process = ⟨[⟨2, .stdout, fullChunk⟩], retainedOutputBytesPerProcess, 4,
      some 0, 2, false, false, [.output ⟨1, .stdout, [1]⟩, .output ⟨2, .stdout, fullChunk⟩,
        .exited 3 0 (some false)]⟩ := by
    show RunningProcess.watchExit _ 0 false = _
    rw [streamOutput_fullChunk hlength]
    rfl
  have hrun : run step start ((evictedRun fullChunk).take 4)
      = some ⟨process, .new, [execRead process 0 none]⟩ := by
    simp [run, evictedRun, step, start, process, RunningProcess.start, RunningProcess.streamOutput,
      SessionState.new]
  have hinv : Inv ⟨process, .new, [execRead process 0 none]⟩ := by
    refine run_invariant (fun _ _ _ => inv_step) _ start _ inv_start ?_ hrun
    exact ⟨trivial, fun _ _ => ⟨trivial, fun _ _ => ⟨trivial, fun _ _ => ⟨trivial, fun _ _ =>
      trivial⟩⟩⟩⟩
  have hchunks : (execRead process 0 none).chunks = [⟨2, .stdout, fullChunk⟩] := by
    rw [execRead_chunks hinv.process, hprocess]
    rfl
  have hover : overtakes process.events .new (execRead process 0 none) = true := by
    unfold overtakes
    rw [hchunks, hprocess]
    rfl
  obtain ⟨⟨exitCode, denied, hcode, hgrows⟩, _⟩ := ends_recoverEvents_of_overtakes
    hinv.process.isSequence (hinv.responses _ List.mem_cons_self) hinv.session
    ((overtakes_truth _ _ _).trans hover)
  have hzero : exitCode = 0 := by
    have hsome : process.exitCode = some exitCode := hcode
    exact (Option.some.inj hsome).symm
  have hlast : run step start (evictedRun fullChunk) = some ⟨process,
      (outcome (recoverEvents (execRead process 0 none)) .new).2, [execRead process 0 none]⟩ := by
    have happend : run step start ((evictedRun fullChunk).take 4 ++ [.recover 0]) = _ :=
      run_append _ _ _
    rw [hrun] at happend
    exact happend
  refine ⟨_, hlast, ?_, ?_, ?_⟩
  · obtain ⟨rest, hrest⟩ := hgrows
    unfold SessionState.published
    rw [← hrest, hzero]
    rfl
  · unfold truth
    rw [hprocess]
    rfl
  · refine Diverges.not_publishesPrefix (hinv.diverges_of_not_safe (e := .recover 0) ?_ rfl)
    intro hsafe
    have hfalse := hsafe (execRead process 0 none) rfl
    rw [hover] at hfalse
    cases hfalse

/-- An exit that overtakes a lost output is published in its place, and the recovery fails. -/
theorem exit_overtakes_evictedRun :
    ∃ t, run step start (evictedRun (List.replicate retainedOutputBytesPerProcess 0)) = some t
      ∧ t.session.published.head? = some (.exited 1 0 none)
      ∧ t.truth.head? = some (.output ⟨1, .stdout, [1]⟩)
      ∧ ¬ t.PublishesPrefix :=
  exit_overtakes List.length_replicate

end System

end CodexRouter.ExecServer
