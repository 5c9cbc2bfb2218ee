import CodexRouter.Lib.Run
import CodexRouter.Lib.Table
import CodexRouter.ExecServer.Process

set_option autoImplicit false

/-! # Writing to a process

`exec_write` checks the id of a write, waits for room in the channel to the process, checks the id
again, sends the bytes and remembers the id. A call may be cancelled wherever it waits, and its
client may try again with the same id. Only the last ids are remembered. Waiting for a lock is
waiting for one's turn: what is done under a lock is one step.
-/

namespace CodexRouter.ExecServer

open Lib

abbrev WriteId := String

def retainedStdinWriteIdsPerProcess : Nat := 4096

/-! ## The ids that are remembered -/

structure AcceptedStdinWriteIds where
  ids : List WriteId
  order : List WriteId
deriving DecidableEq

namespace AcceptedStdinWriteIds

def empty : AcceptedStdinWriteIds := ⟨[], []⟩

def contains (accepted : AcceptedStdinWriteIds) (writeId : WriteId) : Bool :=
  accepted.ids.contains writeId

/-- The loop that forgets the oldest ids. -/
def forget (ids : List WriteId) : List WriteId → AcceptedStdinWriteIds
  | [] => ⟨ids, []⟩
  | evicted :: rest =>
    if (evicted :: rest).length > retainedStdinWriteIdsPerProcess then
      forget (ids.erase evicted) rest
    else ⟨ids, evicted :: rest⟩

def remember (accepted : AcceptedStdinWriteIds) (writeId : WriteId) : AcceptedStdinWriteIds :=
  if accepted.ids.contains writeId then accepted
  else forget (writeId :: accepted.ids) (accepted.order ++ [writeId])

end AcceptedStdinWriteIds

/-! ## The calls -/

inductive WriteStatus
  | accepted
  | unknownProcess
  | stdinClosed
  | starting
deriving DecidableEq

/-- The entry of the process in the map of processes. -/
inductive ProcessEntry
  | absent
  | starting
  | running (tty pipeStdin : Bool)
deriving DecidableEq

structure WriteParams where
  writeId : WriteId
  chunk : Bytes
deriving DecidableEq

/-- Where a call waits. -/
inductive WritePoint
  | lockingProcesses
  | firstCheck
  | reserving
  | secondCheck
deriving DecidableEq

/-- A call that has returned: its id and what it returned. -/
structure WriteReply where
  writeId : WriteId
  result : Except String WriteStatus
deriving DecidableEq

structure StdinState where
  entry : ProcessEntry
  accepted : AcceptedStdinWriteIds
  -- what was sent to the process, in order
  sent : List WriteParams
  calls : Table Nat (WriteParams × WritePoint)
  replies : List WriteReply
deriving DecidableEq

namespace StdinState

def start (entry : ProcessEntry) : StdinState := ⟨entry, .empty, [], .empty, []⟩

inductive Event
  -- a request comes in
  | call (id : Nat) (params : WriteParams)
  -- a call goes on; `room` says whether it gets a permit, should it be waiting for one
  | advance (id : Nat) (room : Bool)
  | cancel (id : Nat)
  -- the process starts, runs or is removed
  | setEntry (entry : ProcessEntry)

def reply (s : StdinState) (id : Nat) (params : WriteParams) (result : Except String WriteStatus) :
    StdinState :=
  { s with calls := s.calls.erase id, replies := s.replies ++ [⟨params.writeId, result⟩] }

def goOn (s : StdinState) (id : Nat) (params : WriteParams) (point : WritePoint) : StdinState :=
  { s with calls := s.calls.insert id (params, point) }

/-- Send the bytes and remember the id, without waiting in between. -/
def send (s : StdinState) (params : WriteParams) : StdinState :=
  { s with sent := s.sent ++ [params], accepted := s.accepted.remember params.writeId }

/-- One step of `exec_write`, from where it waits. -/
def execWrite (s : StdinState) (id : Nat) (params : WriteParams) (room : Bool) :
    WritePoint → StdinState
  | .lockingProcesses =>
    match s.entry with
    | .absent => s.reply id params (.ok .unknownProcess)
    | .starting => s.reply id params (.ok .starting)
    | .running tty pipeStdin =>
      if !tty && !pipeStdin then s.reply id params (.ok .stdinClosed)
      else s.goOn id params .firstCheck
  | .firstCheck =>
    if s.accepted.contains params.writeId then s.reply id params (.ok .accepted)
    else s.goOn id params .reserving
  | .reserving =>
    if room then s.goOn id params .secondCheck
    else s.reply id params (.error "failed to write to process stdin")
  | .secondCheck =>
    if s.accepted.contains params.writeId then s.reply id params (.ok .accepted)
    else (s.send params).reply id params (.ok .accepted)

def step (s : StdinState) : Event → Option StdinState
  | .call id params =>
    if s.calls.contains id then none
    else if params.writeId = "" then
      some (s.reply id params (.error "writeId must not be empty"))
    else some (s.goOn id params .lockingProcesses)
  | .advance id room => (s.calls.get? id).map fun call => s.execWrite id call.1 room call.2
  | .cancel id => if s.calls.contains id then some { s with calls := s.calls.erase id } else none
  | .setEntry entry => some { s with entry := entry }

end StdinState

/-! ## What is remembered -/

namespace AcceptedStdinWriteIds

/-- The remembered ids are the last ones of `history`, each once. -/
structure Remembers (accepted : AcceptedStdinWriteIds) (history : List WriteId) : Prop where
  mem : ∀ writeId, writeId ∈ accepted.ids ↔ writeId ∈ accepted.order
  nodup : accepted.ids.Nodup
  nodupOrder : accepted.order.Nodup
  suffix : accepted.order <:+ history
  full : accepted.order = history ∨ accepted.order.length = retainedStdinWriteIdsPerProcess
  le : accepted.order.length ≤ retainedStdinWriteIdsPerProcess

theorem remembers_empty : Remembers empty [] where
  mem := fun _ => Iff.rfl
  nodup := List.nodup_nil
  nodupOrder := List.nodup_nil
  suffix := List.suffix_rfl
  full := Or.inl rfl
  le := Nat.zero_le _

theorem contains_iff {accepted : AcceptedStdinWriteIds} {history : List WriteId}
    (h : Remembers accepted history) (writeId : WriteId) :
    accepted.contains writeId = true ↔ writeId ∈ accepted.order := by
  unfold contains
  rw [List.contains_iff_mem, h.mem]

theorem forget_of_length_le (ids order : List WriteId)
    (h : order.length ≤ retainedStdinWriteIdsPerProcess) : forget ids order = ⟨ids, order⟩ := by
  cases order with
  | nil => rfl
  | cons evicted rest =>
    unfold forget
    rw [if_neg (by omega)]

/-- Remembering a new id forgets at most the oldest one. -/
theorem Remembers.remember {accepted : AcceptedStdinWriteIds} {history : List WriteId}
    (h : Remembers accepted history) {writeId : WriteId}
    (hnew : accepted.contains writeId = false) :
    Remembers (accepted.remember writeId) (history ++ [writeId]) := by
  have hnotMem : writeId ∉ accepted.order := by
    rw [← contains_iff h, hnew]
    exact Bool.false_ne_true
  have hnotIds : writeId ∉ accepted.ids := fun hmem => hnotMem ((h.mem writeId).mp hmem)
  have hmem : ∀ other, other ∈ writeId :: accepted.ids ↔ other ∈ accepted.order ++ [writeId] := by
    grind [cases Remembers]
  have hnodup : (writeId :: accepted.ids).Nodup := List.nodup_cons.mpr ⟨hnotIds, h.nodup⟩
  have hnodupOrder : (accepted.order ++ [writeId]).Nodup := by grind [cases Remembers]
  have hsuffix : accepted.order ++ [writeId] <:+ history ++ [writeId] := by
    obtain ⟨before, hbefore⟩ := h.suffix
    exact ⟨before, by rw [← List.append_assoc, hbefore]⟩
  have hle := h.le
  have hremember : accepted.remember writeId
      = forget (writeId :: accepted.ids) (accepted.order ++ [writeId]) := by
    grind [AcceptedStdinWriteIds.remember]
  rw [hremember]
  by_cases hroom : accepted.order.length < retainedStdinWriteIdsPerProcess
  · rw [forget_of_length_le _ _ (by rw [List.length_append, List.length_singleton]; omega)]
    refine ⟨hmem, hnodup, hnodupOrder, hsuffix, Or.inl ?_, ?_⟩
    · grind [cases Remembers]
    · grind
  · -- the queue is full: the oldest id goes
    have hfull : accepted.order.length = retainedStdinWriteIdsPerProcess := by omega
    cases horder : accepted.order with
    | nil =>
      rw [horder] at hfull
      cases hfull
    | cons evicted rest =>
      rw [horder] at hfull hmem hnodupOrder hsuffix
      rw [List.length_cons] at hfull
      have hlength : (rest ++ [writeId]).length = retainedStdinWriteIdsPerProcess := by grind
      have hforget : forget (writeId :: accepted.ids) (evicted :: rest ++ [writeId])
          = ⟨(writeId :: accepted.ids).erase evicted, rest ++ [writeId]⟩ := by
        rw [List.cons_append]
        unfold forget
        rw [if_pos (by rw [List.length_cons, hlength]; omega), forget_of_length_le _ _ hlength.le]
      obtain ⟨hfirst, hrest⟩ := List.nodup_cons.mp hnodupOrder
      rw [hforget]
      refine ⟨fun other => ?_, hnodup.erase _, hrest, ?_, Or.inr hlength, hlength.le⟩
      · grind
      · exact (List.suffix_cons _ _).trans hsuffix

end AcceptedStdinWriteIds

/-! ## At most once -/

/-- Between two occurrences of an id there are as many other ids as are remembered. -/
def Spaced (history : List WriteId) : Prop :=
  ∀ before middle after writeId,
    history = before ++ writeId :: (middle ++ writeId :: after) →
      retainedStdinWriteIdsPerProcess ≤ (middle.toFinset.erase writeId).card

theorem spaced_nil : Spaced [] := by
  intro before middle after writeId h
  exact absurd h.symm (by simp)

/-- An id that is not remembered was accepted long ago, or never. -/
theorem Spaced.append {accepted : AcceptedStdinWriteIds} {history : List WriteId}
    (h : Spaced history) (hremembers : accepted.Remembers history) {writeId : WriteId}
    (hnew : accepted.contains writeId = false) : Spaced (history ++ [writeId]) := by
  have hnotMem : writeId ∉ accepted.order := by
    rw [← AcceptedStdinWriteIds.contains_iff hremembers, hnew]
    exact Bool.false_ne_true
  intro before middle after other heq
  -- whether the second occurrence is the new one
  rcases List.eq_nil_or_concat after with rfl | ⟨init, last, rfl⟩
  · have hcut : history ++ [writeId] = (before ++ other :: middle) ++ [other] := by grind
    obtain ⟨hhistory, hlast⟩ := List.append_inj' hcut rfl
    obtain rfl : writeId = other := List.cons.inj hlast |>.1
    have hsuffix : accepted.order <:+ middle := by
      have hwhole := hremembers.suffix
      rw [hhistory] at hwhole
      rcases List.suffix_or_suffix_of_suffix hwhole (List.suffix_append before _) with hin | hout
      · rcases List.suffix_cons_iff.mp hin with hsame | hmiddle
        · exact absurd (hsame ▸ List.mem_cons_self) hnotMem
        · exact hmiddle
      · exact absurd (hout.subset List.mem_cons_self) hnotMem
    have hfull : accepted.order.length = retainedStdinWriteIdsPerProcess := by
      rcases hremembers.full with hall | hfull
      · exact absurd (hall ▸ hhistory ▸ List.mem_append_right _ List.mem_cons_self) hnotMem
      · exact hfull
    have hsubset : accepted.order.toFinset ⊆ middle.toFinset.erase writeId := by
      intro k hk
      have hmem := List.mem_toFinset.mp hk
      refine Finset.mem_erase.mpr ⟨?_, List.mem_toFinset.mpr (hsuffix.subset hmem)⟩
      rintro rfl
      exact hnotMem hmem
    have hcard := Finset.card_le_card hsubset
    rw [List.toFinset_card_of_nodup hremembers.nodupOrder, hfull] at hcard
    exact hcard
  · have hcut : history ++ [writeId]
        = (before ++ other :: (middle ++ other :: init)) ++ [last] := by grind
    exact h before middle init other (List.append_inj' hcut rfl).1

namespace StdinState

/-- The ids of what was sent. -/
def sentIds (s : StdinState) : List WriteId := s.sent.map WriteParams.writeId

structure Inv (s : StdinState) : Prop where
  remembers : s.accepted.Remembers s.sentIds
  spaced : Spaced s.sentIds
  replies : ∀ reply ∈ s.replies, reply.result = .ok .accepted → reply.writeId ∈ s.sentIds

theorem inv_start (entry : ProcessEntry) : (start entry).Inv where
  remembers := AcceptedStdinWriteIds.remembers_empty
  spaced := spaced_nil
  replies := nofun

variable {s t : StdinState} {e : Event}

/-- A reply keeps the invariant if it says that bytes were accepted only when they were sent. -/
theorem Inv.reply (h : s.Inv) (id : Nat) (params : WriteParams)
    (result : Except String WriteStatus)
    (hsent : result = .ok .accepted → params.writeId ∈ s.sentIds) :
    (s.reply id params result).Inv := by
  refine ⟨h.remembers, h.spaced, fun reply hreply haccepted => ?_⟩
  rcases List.mem_append.mp hreply with hold | hnew
  · exact h.replies reply hold haccepted
  · rw [List.mem_singleton.mp hnew] at haccepted ⊢
    exact hsent haccepted

theorem Inv.goOn (h : s.Inv) (id : Nat) (params : WriteParams) (point : WritePoint) :
    (s.goOn id params point).Inv :=
  ⟨h.remembers, h.spaced, h.replies⟩

theorem Inv.send (h : s.Inv) {params : WriteParams}
    (hnew : s.accepted.contains params.writeId = false) : (s.send params).Inv := by
  have hids : (s.send params).sentIds = s.sentIds ++ [params.writeId] := List.map_append
  refine ⟨?_, ?_, fun reply hreply haccepted => ?_⟩
  · rw [hids]
    exact h.remembers.remember hnew
  · rw [hids]
    exact h.spaced.append h.remembers hnew
  · rw [hids]
    exact List.mem_append_left _ (h.replies reply hreply haccepted)

/-- What is remembered was sent. -/
theorem Inv.mem_sentIds (h : s.Inv) {writeId : WriteId}
    (hcontains : s.accepted.contains writeId = true) : writeId ∈ s.sentIds :=
  h.remembers.suffix.subset ((AcceptedStdinWriteIds.contains_iff h.remembers writeId).mp hcontains)

theorem Inv.execWrite (h : s.Inv) (id : Nat) (params : WriteParams) (room : Bool)
    (point : WritePoint) : (s.execWrite id params room point).Inv := by
  unfold StdinState.execWrite
  cases point with
  | lockingProcesses =>
    dsimp only
    split
    · exact h.reply _ _ _ fun hresult => by cases hresult
    · exact h.reply _ _ _ fun hresult => by cases hresult
    · split
      · exact h.reply _ _ _ fun hresult => by cases hresult
      · exact h.goOn _ _ _
  | firstCheck =>
    dsimp only
    split
    · next hcontains => exact h.reply _ _ _ fun _ => h.mem_sentIds hcontains
    · exact h.goOn _ _ _
  | reserving =>
    dsimp only
    split
    · exact h.goOn _ _ _
    · exact h.reply _ _ _ fun hresult => by cases hresult
  | secondCheck =>
    dsimp only
    split
    · next hcontains => exact h.reply _ _ _ fun _ => h.mem_sentIds hcontains
    · next hnew =>
      refine (h.send (Bool.eq_false_iff.mpr hnew)).reply _ _ _ fun _ => ?_
      exact List.mem_map.mpr ⟨params, List.mem_append_right _ List.mem_cons_self, rfl⟩

theorem inv_step (h : s.Inv) (hstep : step s e = some t) : t.Inv := by
  cases e with
  | call id params =>
    simp only [step] at hstep
    split at hstep
    · cases hstep
    · split at hstep
      · cases hstep
        exact h.reply _ _ _ fun hresult => by cases hresult
      · cases hstep
        exact h.goOn _ _ _
  | advance id room =>
    obtain ⟨call, _, rfl⟩ := Option.map_eq_some_iff.mp hstep
    exact h.execWrite id call.1 room call.2
  | cancel id =>
    simp only [step] at hstep
    split at hstep
    · cases hstep
      exact ⟨h.remembers, h.spaced, h.replies⟩
    · cases hstep
  | setEntry entry =>
    cases hstep
    exact ⟨h.remembers, h.spaced, h.replies⟩

/-- **The bytes of a write are sent at most once** while its id is among the last 4096 that were
accepted: between two sends of an id, as many other ids were accepted. And a call answers that
its bytes were accepted only if they were sent. -/
theorem sent_once (entry : ProcessEntry) (es : List Event) (t : StdinState)
    (h : run step (start entry) es = some t) :
    (∀ before middle after writeId,
      t.sentIds = before ++ writeId :: (middle ++ writeId :: after) →
        4096 ≤ (middle.toFinset.erase writeId).card)
      ∧ ∀ reply ∈ t.replies, reply.result = .ok .accepted → reply.writeId ∈ t.sentIds := by
  have hinv : t.Inv :=
    run_invariant_of_step (fun _ _ _ => inv_step) es (start entry) t (inv_start entry) h
  exact ⟨hinv.spaced, hinv.replies⟩

/-- A write that is cancelled while it waits for room and tried again, twice. -/
def retriedRun : List Event :=
  [.call 0 ⟨"w", [1]⟩, .advance 0 true, .advance 0 true, .call 1 ⟨"w", [1]⟩, .advance 1 true,
    .advance 1 true, .advance 0 true, .advance 1 true, .advance 1 true, .cancel 0,
    .call 2 ⟨"w", [1]⟩, .advance 2 true, .advance 2 true]

theorem sent_once_retriedRun :
    ∃ t, run step (start (.running true false)) retriedRun = some t ∧ t.sent = [⟨"w", [1]⟩]
      ∧ t.replies = [⟨"w", .ok .accepted⟩, ⟨"w", .ok .accepted⟩]
      ∧ "w" ∈ t.sentIds := by
  have hmap : (run step (start (.running true false)) retriedRun).map
      (fun t => (t.sent, t.replies))
        = some ([⟨"w", [1]⟩], [⟨"w", .ok .accepted⟩, ⟨"w", .ok .accepted⟩]) := by
    decide +kernel
  obtain ⟨t, hrun, hlogs⟩ := Option.map_eq_some_iff.mp hmap
  obtain ⟨hsent, hreplies⟩ := Prod.mk.inj hlogs
  have hanswered := (sent_once (.running true false) retriedRun t hrun).2
    ⟨"w", .ok .accepted⟩ (by rw [hreplies]; exact List.mem_cons_self) rfl
  exact ⟨t, hrun, hsent, hreplies, hanswered⟩

end StdinState

end CodexRouter.ExecServer
