import Mathlib.Tactic

set_option autoImplicit false

/-! # A process of the exec server

The server numbers the events of a process 1, 2, 3, …: the output chunks of its two streams, its
exit, and that it closed. All of them go out as notifications; for `process/read` only the last
output chunks are retained.
-/

namespace CodexRouter.ExecServer

abbrev Bytes := List UInt8

inductive ExecOutputStream
  | stdout
  | stderr
  | pty
deriving DecidableEq

structure ProcessOutputChunk where
  seq : Nat
  stream : ExecOutputStream
  chunk : Bytes
deriving DecidableEq

inductive ExecProcessEvent
  | output (chunk : ProcessOutputChunk)
  | exited (seq : Nat) (exitCode : Int) (sandboxDenied : Option Bool)
  | closed (seq : Nat)
  | failed (message : String)
deriving DecidableEq

namespace ExecProcessEvent

def seq : ExecProcessEvent → Option Nat
  | .output chunk => some chunk.seq
  | .exited seq _ _ | .closed seq => some seq
  | .failed _ => none

def isExited : ExecProcessEvent → Bool
  | .exited .. => true
  | _ => false

def isClosed : ExecProcessEvent → Bool
  | .closed _ => true
  | _ => false

def output? : ExecProcessEvent → Option ProcessOutputChunk
  | .output chunk => some chunk
  | _ => none

end ExecProcessEvent

/-! ## The process -/

def retainedOutputBytesPerProcess : Nat := 1024 * 1024

def retainedOutputChunksPerProcess : Nat := 50000

structure RunningProcess where
  output : List ProcessOutputChunk
  retainedBytes : Nat
  nextSeq : Nat
  exitCode : Option Int
  openStreams : Nat
  closed : Bool
  sandboxDenied : Bool
  -- everything that was published, in order
  events : List ExecProcessEvent
deriving DecidableEq

namespace RunningProcess

def start : RunningProcess := ⟨[], 0, 1, none, 2, false, false, []⟩

/-- Drop the oldest chunks until the limits hold. -/
def evict : Nat → List ProcessOutputChunk → Nat × List ProcessOutputChunk
  | retainedBytes, [] => (retainedBytes, [])
  | retainedBytes, evicted :: rest =>
    if retainedBytes > retainedOutputBytesPerProcess
        ∨ (evicted :: rest).length > retainedOutputChunksPerProcess then
      evict (retainedBytes - evicted.chunk.length) rest
    else (retainedBytes, evicted :: rest)

/-- One round of the loop of `stream_output`. -/
def streamOutput (process : RunningProcess) (stream : ExecOutputStream) (chunk : Bytes) :
    RunningProcess :=
  let output : ProcessOutputChunk := ⟨process.nextSeq, stream, chunk⟩
  let retained := evict (process.retainedBytes + chunk.length) (process.output ++ [output])
  { process with
    nextSeq := process.nextSeq + 1
    retainedBytes := retained.1
    output := retained.2
    events := process.events ++ [.output output] }

/-- The exit is noted. `denied` is what `is_likely_sandbox_denied` says, false without a
sandbox. -/
def watchExit (process : RunningProcess) (exitCode : Int) (denied : Bool) : RunningProcess :=
  { process with
    nextSeq := process.nextSeq + 1
    exitCode := some exitCode
    sandboxDenied := denied
    events := process.events ++ [.exited process.nextSeq exitCode (some denied)] }

def finishOutputStream (process : RunningProcess) : RunningProcess :=
  { process with openStreams := process.openStreams - 1 }

def maybeEmitClosed (process : RunningProcess) : RunningProcess :=
  if process.closed || process.openStreams != 0 || process.exitCode.isNone then process
  else { process with
    closed := true
    nextSeq := process.nextSeq + 1
    events := process.events ++ [.closed process.nextSeq] }

end RunningProcess

/-! ## Reading -/

structure ReadResponse where
  chunks : List ProcessOutputChunk
  nextSeq : Nat
  exited : Bool
  exitCode : Option Int
  closed : Bool
  failure : Option String
  sandboxDenied : Bool
deriving DecidableEq

def usizeMax : Nat := 2 ^ 64 - 1

/-- The loop of `exec_read` over the retained chunks: the chunks that fit and the number after
the last of them. -/
def readChunks (maxBytes : Nat) (chunks : List ProcessOutputChunk) (totalBytes nextSeq : Nat) :
    List ProcessOutputChunk → List ProcessOutputChunk × Nat
  | [] => (chunks, nextSeq)
  | retained :: rest =>
    if chunks ≠ [] ∧ totalBytes + retained.chunk.length > maxBytes then (chunks, nextSeq)
    else if totalBytes + retained.chunk.length ≥ maxBytes then
      (chunks ++ [retained], retained.seq + 1)
    else readChunks maxBytes (chunks ++ [retained]) (totalBytes + retained.chunk.length)
      (retained.seq + 1) rest

/-- The response to `process/read`, from the state of the process when it is made. -/
def execRead (process : RunningProcess) (afterSeq : Nat) (maxBytes : Option Nat) :
    ReadResponse :=
  let read := readChunks (maxBytes.getD usizeMax) [] 0 process.nextSeq
    (process.output.filter fun chunk => chunk.seq > afterSeq)
  { chunks := read.1
    nextSeq := if maxBytes.isNone then process.nextSeq else read.2
    exited := process.exitCode.isSome
    exitCode := process.exitCode
    closed := process.closed
    failure := none
    sandboxDenied := process.sandboxDenied }

/-! ## The events of a process -/

/-- A sequence of events as the server numbers them. -/
def Numbered (events : List ExecProcessEvent) : Prop :=
  ∀ i event, events[i]? = some event → event.seq = some (i + 1)

theorem Numbered.concat {events : List ExecProcessEvent} {event : ExecProcessEvent}
    (h : Numbered events) (hseq : event.seq = some (events.length + 1)) :
    Numbered (events ++ [event]) := by
  intro i other hother
  rcases Nat.lt_trichotomy i events.length with hi | rfl | hi
  · rw [List.getElem?_append_left hi] at hother
    exact h i other hother
  · grind
  · rw [List.getElem?_eq_none (by rw [List.length_append, List.length_singleton]; omega)] at hother
    cases hother

/-- What holds of a process and its events throughout. -/
structure WellKept (process : RunningProcess) : Prop where
  nextSeq : process.nextSeq = process.events.length + 1
  numbered : Numbered process.events
  exitCode : ∀ exitCode, process.exitCode = some exitCode
    ↔ ∃ seq denied, .exited seq exitCode denied ∈ process.events
  exitOnce : ∀ seq exitCode denied seq' exitCode' denied',
    .exited seq exitCode denied ∈ process.events →
      .exited seq' exitCode' denied' ∈ process.events → seq = seq'
  output : process.output <:+ process.events.filterMap ExecProcessEvent.output?
  retainedBytes : process.retainedBytes = (process.output.map (·.chunk.length)).sum
  bounded : process.retainedBytes ≤ retainedOutputBytesPerProcess
  notClosed : process.closed = false → ∀ event ∈ process.events, event.isClosed = false
  closed : process.closed = true → process.openStreams = 0 ∧ process.exitCode.isSome = true
    ∧ ∃ before, process.events = before ++ [.closed (before.length + 1)]
      ∧ ∀ event ∈ before, event.isClosed = false

namespace RunningProcess

theorem wellKept_start : WellKept start where
  nextSeq := rfl
  numbered := nofun
  exitCode := by
    intro exitCode
    simp [start]
  exitOnce := nofun
  output := List.suffix_rfl
  retainedBytes := rfl
  bounded := Nat.zero_le _
  notClosed := nofun
  closed := nofun

/-- Eviction leaves a suffix, counts its bytes and ends within the limit. -/
theorem evict_spec (retainedBytes : Nat) (output : List ProcessOutputChunk)
    (h : retainedBytes = (output.map (·.chunk.length)).sum) :
    (evict retainedBytes output).2 <:+ output
      ∧ (evict retainedBytes output).1 = ((evict retainedBytes output).2.map (·.chunk.length)).sum
      ∧ (evict retainedBytes output).1 ≤ retainedOutputBytesPerProcess := by
  induction output generalizing retainedBytes with
  | nil =>
    refine ⟨List.suffix_rfl, h, ?_⟩
    rw [evict, h]
    exact Nat.zero_le _
  | cons evicted rest ih =>
    rw [List.map_cons, List.sum_cons] at h
    unfold evict
    split
    · obtain ⟨hsuffix, hbytes, hle⟩ := ih (retainedBytes - evicted.chunk.length) (by omega)
      exact ⟨hsuffix.trans (List.suffix_cons _ _), hbytes, hle⟩
    · next hlimit => grind

section

variable {process : RunningProcess} (h : WellKept process)

include h

theorem nextSeq_concat (event : ExecProcessEvent) :
    process.nextSeq + 1 = (process.events ++ [event]).length + 1 := by
  rw [h.nextSeq, List.length_append, List.length_singleton]

theorem wellKept_streamOutput (hopen : process.openStreams ≠ 0) (stream : ExecOutputStream)
    (chunk : Bytes) :
    WellKept (process.streamOutput stream chunk) := by
  have hopened : process.closed = false := by
    refine Bool.eq_false_iff.mpr fun hclosed => ?_
    exact hopen (h.closed hclosed).1
  have hbytes : process.retainedBytes + chunk.length
      = ((process.output ++ [(⟨process.nextSeq, stream, chunk⟩ : ProcessOutputChunk)]).map
        (·.chunk.length)).sum := by grind [cases WellKept]
  obtain ⟨hsuffix, hsum, hle⟩ := evict_spec _ _ hbytes
  exact {
    nextSeq := nextSeq_concat h _
    numbered := h.numbered.concat (congrArg some h.nextSeq)
    exitCode := by
      intro exitCode
      simpa [streamOutput] using h.exitCode exitCode
    exitOnce := by simpa [streamOutput] using h.exitOnce
    output := by
      show (evict _ _).2 <:+ (process.events ++ [_]).filterMap _
      rw [List.filterMap_append]
      refine hsuffix.trans ?_
      obtain ⟨before, hbefore⟩ := h.output
      exact ⟨before, by rw [← hbefore, List.append_assoc]; rfl⟩
    retainedBytes := hsum
    bounded := hle
    notClosed := fun _ =>
      List.forall_mem_append.mpr ⟨h.notClosed hopened, List.forall_mem_singleton.mpr rfl⟩
    closed := fun hclosed => absurd (hopened.symm.trans hclosed) (by decide) }

theorem wellKept_watchExit (hrunning : process.exitCode = none) (exitCode : Int) (denied : Bool) :
    WellKept (process.watchExit exitCode denied) := by
  have hopened : process.closed = false := by
    refine Bool.eq_false_iff.mpr fun hclosed => ?_
    have hsome := (h.closed hclosed).2.1
    rw [hrunning] at hsome
    cases hsome
  have hnone : ∀ seq other denied, .exited seq other denied ∉ process.events := by
    intro seq other denied hmem
    have hsome := (h.exitCode other).mpr ⟨seq, denied, hmem⟩
    rw [hrunning] at hsome
    cases hsome
  exact { h with
    nextSeq := nextSeq_concat h _
    numbered := h.numbered.concat (congrArg some h.nextSeq)
    exitCode := by
      intro other
      simp [watchExit, hnone, eq_comm]
    exitOnce := by
      intro seq code flag seq' code' flag' hmem hmem'
      have hseq : seq = process.nextSeq ∧ code = exitCode ∧ flag = some denied := by
        simpa [watchExit, hnone] using hmem
      have hseq' : seq' = process.nextSeq ∧ code' = exitCode ∧ flag' = some denied := by
        simpa [watchExit, hnone] using hmem'
      exact hseq.1.trans hseq'.1.symm
    output := by
      show process.output <:+ (process.events ++ [_]).filterMap _
      rw [List.filterMap_append]
      exact (List.append_nil _).symm ▸ h.output
    notClosed := fun _ =>
      List.forall_mem_append.mpr ⟨h.notClosed hopened, List.forall_mem_singleton.mpr rfl⟩
    closed := fun hclosed => absurd (hopened.symm.trans hclosed) (by decide) }

theorem wellKept_finishOutputStream :
    WellKept process.finishOutputStream where
  __ := h
  closed := by
    intro hclosed
    obtain ⟨hopen, hexit, hlast⟩ := h.closed hclosed
    refine ⟨?_, hexit, hlast⟩
    show process.openStreams - 1 = 0
    rw [hopen]

theorem wellKept_maybeEmitClosed :
    WellKept process.maybeEmitClosed := by
  unfold maybeEmitClosed
  split
  · exact h
  · next hguard =>
    simp only [Bool.or_eq_true, bne_iff_ne, not_or, Bool.not_eq_true, ne_eq,
      Decidable.not_not] at hguard
    obtain ⟨⟨hopened, hstreams⟩, hexit⟩ := hguard
    exact { h with
      nextSeq := nextSeq_concat h _
      numbered := h.numbered.concat (congrArg some h.nextSeq)
      exitCode := by
        intro exitCode
        simpa using h.exitCode exitCode
      exitOnce := by simpa using h.exitOnce
      output := by
        show process.output <:+ (process.events ++ [_]).filterMap _
        rw [List.filterMap_append]
        exact (List.append_nil _).symm ▸ h.output
      notClosed := nofun
      closed := by
        intro _
        refine ⟨hstreams, ?_, process.events, ?_, h.notClosed hopened⟩
        · simpa using hexit
        · rw [← h.nextSeq] }

end

end RunningProcess

/-- Within its limit the reading loop takes every chunk. -/
theorem readChunks_all {maxBytes : Nat} (retained : List ProcessOutputChunk)
    (chunks : List ProcessOutputChunk) (totalBytes nextSeq : Nat)
    (h : totalBytes + (retained.map (·.chunk.length)).sum < maxBytes) :
    (readChunks maxBytes chunks totalBytes nextSeq retained).1 = chunks ++ retained := by
  induction retained generalizing chunks totalBytes nextSeq with
  | nil => simp [readChunks]
  | cons chunk rest ih =>
    rw [List.map_cons, List.sum_cons] at h
    unfold readChunks
    rw [if_neg (by omega), if_neg (by omega), ih _ _ _ (by omega), List.append_assoc]
    rfl

/-- An unlimited read has all the retained chunks after the given number. -/
theorem execRead_chunks {process : RunningProcess} (h : WellKept process) (afterSeq : Nat) :
    (execRead process afterSeq none).chunks
      = process.output.filter fun chunk => chunk.seq > afterSeq := by
  have hle : ((process.output.filter fun chunk => chunk.seq > afterSeq).map
      (·.chunk.length)).sum ≤ (process.output.map (·.chunk.length)).sum :=
    (List.filter_sublist.map _).sum_le_sum fun _ _ => Nat.zero_le _
  have hbytes := h.retainedBytes
  have hbounded := h.bounded
  show (readChunks usizeMax [] 0 process.nextSeq _).1 = _
  refine (readChunks_all _ _ _ _ ?_).trans (List.nil_append _)
  have hmax : retainedOutputBytesPerProcess < usizeMax := by decide
  omega

end CodexRouter.ExecServer
