import CodexRouter.Rollout.Reconstruction

set_option autoImplicit false

/-! # What the reverse scan finds

When the scan stops early, nothing older than the item where it stops is looked at again, so that
older items change none of the results (`reconstruct_append_of_stopsEarly`). On a rollout of
complete turns with rollback markers in between, the segments that it settles while no rollback is
pending are the turns that a replay of the markers leaves (`finalizedTurns_surviving`): the counter
of pending turns says how many user turns the markers read so far still take from the turns before
them.
-/

namespace CodexRouter.Rollout

open HistoryItem

variable {I S W : Type} [HistoryItem I] (lib : Libraries S W)

/-! ## The early exit -/

/-- Older items are not looked at, and the scan ends complete. -/
theorem reverseScan_of_stopsEarly {items suffix : List (RolloutItem I S)} {scan : Scan I S}
    (h : stopsEarly lib items suffix scan = true) (older : List (RolloutItem I S)) :
    reverseScan lib (items ++ older) suffix scan = reverseScan lib items suffix scan
      ∧ (reverseScan lib items suffix scan).isComplete = true := by
  induction items generalizing suffix scan with
  | nil => cases h
  | cons item items ih =>
    simp only [stopsEarly, Bool.or_eq_true] at h
    simp only [List.cons_append, reverseScan]
    split
    · next hcomplete => exact ⟨rfl, hcomplete⟩
    · next hcomplete => exact ih (h.resolve_left hcomplete)

omit [HistoryItem I] in
theorem baseCompaction_finalize {scan : Scan I S} (segment : ActiveReplaySegment I S)
    {checkpoint : ReplayCheckpoint I S} (h : scan.baseCompaction = some checkpoint) :
    (finalizeActiveSegment segment scan).baseCompaction = some checkpoint := by
  unfold finalizeActiveSegment
  split
  · exact h
  · simp [h]

/-- **The early exit is final.** When the scan of a rollout stops early, items put in front of the
rollout change neither the history nor what is restored from it. -/
theorem reconstruct_append_of_stopsEarly (older rollout : List (RolloutItem I S))
    (h : stopsEarly lib rollout.reverse [] .start = true) :
    (reconstructHistoryFromRollout lib (older ++ rollout)).history
        = (reconstructHistoryFromRollout lib rollout).history
      ∧ (reconstructHistoryFromRollout lib (older ++ rollout)).previousTurnSettings
        = (reconstructHistoryFromRollout lib rollout).previousTurnSettings
      ∧ (reconstructHistoryFromRollout lib (older ++ rollout)).referenceContextItem
        = (reconstructHistoryFromRollout lib rollout).referenceContextItem
      ∧ (reconstructHistoryFromRollout lib (older ++ rollout)).worldStateBaseline
        = (reconstructHistoryFromRollout lib rollout).worldStateBaseline := by
  obtain ⟨hsame, hcomplete⟩ := reverseScan_of_stopsEarly lib h older.reverse
  have hscan : scanRollout lib (older ++ rollout) = scanRollout lib rollout := by
    simp only [scanRollout, List.reverse_append]
    rw [hsame]
  have hbase : ∃ checkpoint, (scanRollout lib rollout).baseCompaction = some checkpoint := by
    simp only [Scan.isComplete, Bool.and_eq_true] at hcomplete
    obtain ⟨checkpoint, hcheckpoint⟩ := Option.isSome_iff_exists.mp hcomplete.1.1
    refine ⟨checkpoint, ?_⟩
    simp only [scanRollout]
    split
    · exact baseCompaction_finalize _ hcheckpoint
    · exact hcheckpoint
  obtain ⟨checkpoint, hcheckpoint⟩ := hbase
  -- the forward pass starts from the checkpoint and sees only what follows it
  have hreplay : replayBase (older ++ rollout) (scanRollout lib rollout)
      = replayBase rollout (scanRollout lib rollout) := by
    simp only [replayBase, hcheckpoint]
  refine ⟨?_, ?_, ?_, ?_⟩ <;> simp only [reconstructHistoryFromRollout, hscan, hreplay]

/-! ## Turns and markers -/

/-- An item that neither starts nor completes a turn and is no rollback marker. -/
def isTurnItem : RolloutItem I S → Bool
  | .eventMsg (.turnStarted _) | .eventMsg (.turnComplete _)
  | .eventMsg (.threadRolledBack _) => false
  | _ => true

/-- What makes the segment of an item a user turn. -/
def countsAsUserTurn : RolloutItem I S → Bool
  | .eventMsg (.userMessage _) | .interAgentCommunication _ => true
  | .responseItem item => isUserTurnBoundary item
  | _ => false

/-- A complete turn. -/
structure Turn (I S : Type) where
  id : String
  items : List (RolloutItem I S)
  inside : ∀ item ∈ items, isTurnItem item = true

def Turn.rollout (turn : Turn I S) : List (RolloutItem I S) :=
  .eventMsg (.turnStarted turn.id) :: turn.items ++ [.eventMsg (.turnComplete turn.id)]

def Turn.isUserTurn (turn : Turn I S) : Bool := turn.items.any countsAsUserTurn

inductive Entry (I S : Type)
  | turn (turn : Turn I S)
  | rolledBack (numTurns : UInt32)

def Entry.rollout : Entry I S → List (RolloutItem I S)
  | .turn complete => complete.rollout
  | .rolledBack numTurns => [.eventMsg (.threadRolledBack numTurns)]

def rolloutOf (entries : List (Entry I S)) : List (RolloutItem I S) :=
  entries.flatMap Entry.rollout

omit [HistoryItem I] in
theorem rolloutOf_concat_reverse (entries : List (Entry I S)) (entry : Entry I S) :
    (rolloutOf (entries ++ [entry])).reverse
      = entry.rollout.reverse ++ (rolloutOf entries).reverse := by
  simp [rolloutOf]

/-! ## Replaying the markers -/

/-- Of turns, newest first: without the `n` newest user turns and without what is newer than the
last of these. -/
def dropUserTurns : Nat → List (Turn I S) → List (Turn I S)
  | 0, turns => turns
  | _ + 1, [] => []
  | n + 1, turn :: older => dropUserTurns (if turn.isUserTurn then n else n + 1) older

/-- The turns that the markers leave, oldest first. -/
def surviving (entries : List (Entry I S)) : List (Turn I S) :=
  entries.foldl (fun turns entry => match entry with
    | .turn turn => turns ++ [turn]
    | .rolledBack numTurns => (dropUserTurns numTurns.toNat turns.reverse).reverse) []

@[simp] theorem dropUserTurns_nil (n : Nat) : dropUserTurns n ([] : List (Turn I S)) = [] := by
  cases n <;> rfl

@[simp] theorem dropUserTurns_zero (turns : List (Turn I S)) : dropUserTurns 0 turns = turns := by
  cases turns <;> rfl

/-- Rollbacks add up. -/
theorem dropUserTurns_dropUserTurns (m n : Nat) (turns : List (Turn I S)) :
    dropUserTurns m (dropUserTurns n turns) = dropUserTurns (m + n) turns := by
  induction turns generalizing n with
  | nil => simp
  | cons turn older ih =>
    cases n with
    | zero => simp
    | succ n =>
      rw [dropUserTurns, ih, ← Nat.add_assoc, dropUserTurns]
      split <;> rfl

theorem surviving_concat_turn (entries : List (Entry I S)) (turn : Turn I S) :
    surviving (entries ++ [.turn turn]) = surviving entries ++ [turn] := by
  simp [surviving]

theorem surviving_concat_rolledBack (entries : List (Entry I S)) (numTurns : UInt32) :
    (surviving (entries ++ [.rolledBack numTurns])).reverse
      = dropUserTurns numTurns.toNat (surviving entries).reverse := by
  simp [surviving]

/-! ## Scanning a turn -/

/-- The turn whose segment an item settles. -/
def settles? (item : RolloutItem I S) (scan : Scan I S) : Option String :=
  match item, scan.activeSegment with
  | .eventMsg (.turnStarted turnId), some segment =>
    if turnIdsAreCompatible segment.turnId (some turnId) then some turnId else none
  | _, _ => none

/-- The turns whose segments the scan settles while no rollback is pending, newest first. -/
def finalizedTurns : List (RolloutItem I S) → List (RolloutItem I S) → Scan I S → List String
  | [], _, _ => []
  | item :: older, suffix, scan =>
    let here := if scan.pendingRollbackTurns = 0 then (settles? item scan).toList else []
    let scan := scanItem lib suffix item scan
    here ++ if scan.isComplete then [] else finalizedTurns older (item :: suffix) scan

/-- The active segment belongs to a turn; `counts` says whether it is a user turn so far. -/
def Scan.InTurn (scan : Scan I S) (turnId : String) (counts : Bool) : Prop :=
  ∃ segment, scan.activeSegment = some segment ∧ segment.turnId = some turnId
    ∧ segment.countsAsUserTurn = counts

/-- The variables of the scan that a segment does not touch before it is settled. -/
structure Scan.SameResults (scan other : Scan I S) : Prop where
  baseCompaction : scan.baseCompaction = other.baseCompaction
  previousTurnSettings : scan.previousTurnSettings = other.previousTurnSettings
  referenceContextItem : scan.referenceContextItem = other.referenceContextItem
  pendingRollbackTurns : scan.pendingRollbackTurns = other.pendingRollbackTurns

omit [HistoryItem I] in
theorem Scan.SameResults.isComplete_eq {scan other : Scan I S} (h : scan.SameResults other) :
    scan.isComplete = other.isComplete := by
  simp only [Scan.isComplete, h.baseCompaction, h.previousTurnSettings, h.referenceContextItem]

omit [HistoryItem I] in
theorem Scan.SameResults.trans {scan other third : Scan I S} (h : scan.SameResults other)
    (h' : other.SameResults third) : scan.SameResults third :=
  ⟨h.1.trans h'.1, h.2.trans h'.2, h.3.trans h'.3, h.4.trans h'.4⟩

omit [HistoryItem I] in
/-- An update of the segment keeps the scan inside its turn. -/
theorem Scan.InTurn.updateSegment {scan : Scan I S} {turnId : String} {counts : Bool}
    (h : scan.InTurn turnId counts) (update : ActiveReplaySegment I S → ActiveReplaySegment I S)
    (more : Bool) (hid : ∀ segment, segment.turnId = some turnId →
      (update segment).turnId = some turnId)
    (hcounts : ∀ segment, (update segment).countsAsUserTurn = (segment.countsAsUserTurn || more)) :
    (scan.updateSegment update).InTurn turnId (counts || more) := by
  obtain ⟨segment, hsegment, hturnId, rfl⟩ := h
  refine ⟨update segment, ?_, hid segment hturnId, hcounts segment⟩
  rw [Scan.updateSegment, hsegment]
  rfl

omit [HistoryItem I] in
theorem segmentTurnContext_turnId (context : TurnContextItem) (segment : ActiveReplaySegment I S) :
    (segmentTurnContext context segment).turnId = segment.turnId.or context.turnId
      ∧ (segmentTurnContext context segment).countsAsUserTurn = segment.countsAsUserTurn := by
  unfold segmentTurnContext
  dsimp only
  split <;> exact ⟨rfl, rfl⟩

/-- The items of a turn stay in its segment and leave everything else alone. -/
theorem scanItem_turnItem (suffix : List (RolloutItem I S)) {item : RolloutItem I S}
    {scan : Scan I S} {turnId : String} {counts : Bool} (hitem : isTurnItem item = true)
    (h : scan.InTurn turnId counts) :
    (scanItem lib suffix item scan).SameResults scan
      ∧ (scanItem lib suffix item scan).InTurn turnId (counts || countsAsUserTurn item) := by
  have hsame : ∀ more, more = false → scan.InTurn turnId (counts || more) := by grind
  cases item with
  | compacted | worldState =>
    refine ⟨⟨rfl, rfl, rfl, rfl⟩, ?_⟩
    exact h.updateSegment _ _ (fun _ hid => hid) fun segment => (Bool.or_false _).symm
  | turnContext context =>
    refine ⟨⟨rfl, rfl, rfl, rfl⟩, ?_⟩
    simp only [scanItem]
    refine h.updateSegment _ _ (fun segment hid => ?_) fun segment => ?_
    · rw [(segmentTurnContext_turnId context segment).1, hid]
      rfl
    · rw [(segmentTurnContext_turnId context segment).2]
      exact (Bool.or_false _).symm
  | responseItem item =>
    refine ⟨⟨rfl, rfl, rfl, rfl⟩, ?_⟩
    simp only [scanItem]
    exact h.updateSegment _ _ (fun _ hid => hid) fun segment => rfl
  | interAgentCommunication item =>
    refine ⟨⟨rfl, rfl, rfl, rfl⟩, ?_⟩
    simp only [scanItem]
    exact h.updateSegment _ _ (fun _ hid => hid) fun segment => (Bool.or_true _).symm
  | eventMsg event =>
    cases event with
    | turnStarted | turnComplete | threadRolledBack => cases hitem
    | userMessage message =>
      refine ⟨⟨rfl, rfl, rfl, rfl⟩, ?_⟩
      exact h.updateSegment _ _ (fun _ hid => hid) fun segment => (Bool.or_true _).symm
    | turnAborted other =>
      obtain ⟨segment, hsegment, hid, rfl⟩ := h
      simp only [scanItem, hsegment]
      refine ⟨⟨rfl, rfl, rfl, rfl⟩, { segment with turnId := segment.turnId.or other }, rfl, ?_,
        (Bool.or_false _).symm⟩
      simp [hid]
    | other event => exact ⟨⟨rfl, rfl, rfl, rfl⟩, hsame _ rfl⟩
  | _ => exact ⟨⟨rfl, rfl, rfl, rfl⟩, hsame _ rfl⟩

omit [HistoryItem I] in
theorem settles?_turnItem {item : RolloutItem I S} (hitem : isTurnItem item = true)
    (scan : Scan I S) : settles? item scan = none := by
  cases item with
  | eventMsg event => cases event <;> first | rfl | cases hitem
  | _ => rfl

/-- The items of a turn, newest first, do not end the scan and settle nothing. -/
theorem scan_turnItems (items : List (RolloutItem I S))
    (hitems : ∀ item ∈ items, isTurnItem item = true) {scan : Scan I S} {turnId : String}
    {counts : Bool} (h : scan.InTurn turnId counts) (hcomplete : scan.isComplete = false)
    (suffix older : List (RolloutItem I S)) :
    ∃ scan', scan'.SameResults scan ∧ scan'.InTurn turnId (counts || items.any countsAsUserTurn)
      ∧ finalizedTurns lib (items ++ older) suffix scan
        = finalizedTurns lib older (items.reverse ++ suffix) scan'
      ∧ stopsEarly lib (items ++ older) suffix scan
        = stopsEarly lib older (items.reverse ++ suffix) scan' := by
  induction items generalizing scan counts suffix with
  | nil => exact ⟨scan, ⟨rfl, rfl, rfl, rfl⟩, by simpa using h, rfl, rfl⟩
  | cons item items ih =>
    obtain ⟨hitem, hitems⟩ := List.forall_mem_cons.mp hitems
    obtain ⟨hresults, hturn⟩ := scanItem_turnItem lib suffix hitem h
    have hnext : (scanItem lib suffix item scan).isComplete = false :=
      hresults.isComplete_eq.trans hcomplete
    obtain ⟨scan', hresults', hturn', hfinalized, hstops⟩ :=
      ih hitems hturn hnext (item :: suffix)
    refine ⟨scan', hresults'.trans hresults, ?_, ?_, ?_⟩
    · rw [List.any_cons, ← Bool.or_assoc]
      exact hturn'
    · simp only [List.cons_append, finalizedTurns, settles?_turnItem hitem, hnext,
        Option.toList_none, ite_self, List.nil_append, Bool.false_eq_true, if_false, hfinalized,
        List.reverse_cons, List.append_assoc]
    · simp only [List.cons_append, stopsEarly, hnext, Bool.false_or, hstops, List.reverse_cons,
        List.append_assoc, List.nil_append]

/-- The pending turns after a segment. -/
def pendingAfter (pending : Nat) (isUserTurn : Bool) : Nat :=
  if isUserTurn then pending - 1 else pending

omit [HistoryItem I] in
theorem finalize_activeSegment (segment : ActiveReplaySegment I S) (scan : Scan I S) :
    (finalizeActiveSegment segment scan).activeSegment = scan.activeSegment
      ∧ (finalizeActiveSegment segment scan).pendingRollbackTurns
        = pendingAfter scan.pendingRollbackTurns segment.countsAsUserTurn := by
  unfold finalizeActiveSegment pendingAfter
  split
  · exact ⟨rfl, rfl⟩
  · grind

/-- A complete turn is one segment. -/
theorem scan_turn (turn : Turn I S) {scan : Scan I S} (hactive : scan.activeSegment = none)
    (hcomplete : scan.isComplete = false) (suffix older : List (RolloutItem I S)) :
    ∃ scan', scan'.activeSegment = none
      ∧ scan'.pendingRollbackTurns = pendingAfter scan.pendingRollbackTurns turn.isUserTurn
      ∧ finalizedTurns lib (turn.rollout.reverse ++ older) suffix scan
        = (if scan.pendingRollbackTurns = 0 then [turn.id] else [])
          ++ (if scan'.isComplete then []
            else finalizedTurns lib older (turn.rollout ++ suffix) scan')
      ∧ stopsEarly lib (turn.rollout.reverse ++ older) suffix scan
        = (scan'.isComplete || stopsEarly lib older (turn.rollout ++ suffix) scan') := by
  -- the completion opens the segment
  let completed := RolloutItem.eventMsg (I := I) (S := S) (.turnComplete turn.id)
  let opened := scanItem lib suffix completed scan
  have hopened : opened.SameResults scan := ⟨rfl, rfl, rfl, rfl⟩
  have hturn : opened.InTurn turn.id false := by
    refine ⟨{ ActiveReplaySegment.default with turnId := some turn.id }, ?_, rfl, rfl⟩
    simp only [opened, completed, scanItem, Scan.updateSegment, hactive]
    rfl
  have hnext : opened.isComplete = false := hopened.isComplete_eq.trans hcomplete
  have hitems : ∀ item ∈ turn.items.reverse, isTurnItem item = true := fun item hitem =>
    turn.inside item (List.mem_reverse.mp hitem)
  let started := RolloutItem.eventMsg (I := I) (S := S) (.turnStarted turn.id)
  obtain ⟨inside, hinside, ⟨segment, hsegment, hid, hcounts⟩, hfinalized, hstops⟩ :=
    scan_turnItems lib turn.items.reverse hitems hturn hnext (completed :: suffix)
      (started :: older)
  -- the start settles it
  have hcompatible : turnIdsAreCompatible segment.turnId (some turn.id) = true := by
    simp [turnIdsAreCompatible, hid]
  have hsettles : settles? started inside = some turn.id := by
    simp only [settles?, started, hsegment, hcompatible, if_true]
  have hscan : ∀ suffix, scanItem lib suffix started inside
      = finalizeActiveSegment segment { inside with activeSegment := none } := by
    intro suffix
    simp only [scanItem, started, hsegment, hcompatible, if_true]
  have hpending := hinside.pendingRollbackTurns.trans hopened.pendingRollbackTurns
  have hreverse : turn.rollout.reverse ++ older
      = completed :: (turn.items.reverse ++ started :: older) := by
    simp [Turn.rollout, completed, started]
  have hrollout : started :: (turn.items.reverse.reverse ++ completed :: suffix)
      = turn.rollout ++ suffix := by
    simp [Turn.rollout, completed, started]
  refine ⟨finalizeActiveSegment segment { inside with activeSegment := none },
    (finalize_activeSegment _ _).1, ?_, ?_, ?_⟩
  · rw [(finalize_activeSegment _ _).2, hcounts, Bool.false_or, List.any_reverse]
    exact congrArg (pendingAfter · turn.isUserTurn) hpending
  · have hcompleted : settles? completed scan = none := rfl
    rw [hreverse, finalizedTurns]
    simp only [hcompleted, Option.toList_none, ite_self, List.nil_append]
    rw [if_neg (by simp [opened, hnext]), hfinalized, finalizedTurns]
    simp only [hsettles, hscan, hpending, hrollout, Option.toList_some]
  · rw [hreverse, stopsEarly]
    show (opened.isComplete || stopsEarly lib _ _ opened) = _
    rw [hnext, Bool.false_or, hstops, stopsEarly]
    simp only [hscan, hrollout]

theorem dropUserTurns_cons (n : Nat) (turn : Turn I S) (older : List (Turn I S)) :
    dropUserTurns n (turn :: older)
      = (if n = 0 then [turn] else []) ++ dropUserTurns (pendingAfter n turn.isUserTurn) older := by
  cases n with
  | zero => simp [pendingAfter]
  | succ n =>
    rfl

/-- With some turns pending, the scan settles the newest turns that the pending rollbacks leave of
the surviving ones, and all of them unless it stops early. -/
theorem finalizedTurns_pending (entries : List (Entry I S)) (suffix : List (RolloutItem I S))
    (scan : Scan I S) (hactive : scan.activeSegment = none) (hcomplete : scan.isComplete = false) :
    finalizedTurns lib (rolloutOf entries).reverse suffix scan
        <+: (dropUserTurns scan.pendingRollbackTurns (surviving entries).reverse).map Turn.id
      ∧ (stopsEarly lib (rolloutOf entries).reverse suffix scan = false →
        finalizedTurns lib (rolloutOf entries).reverse suffix scan
          = (dropUserTurns scan.pendingRollbackTurns (surviving entries).reverse).map Turn.id) := by
  induction entries using List.reverseRecOn generalizing suffix scan with
  | nil => simp [rolloutOf, finalizedTurns, surviving]
  | append_singleton entries entry ih =>
    rw [rolloutOf_concat_reverse]
    cases entry with
    | turn turn =>
      obtain ⟨scan', hactive', hpending, hfinalized, hstops⟩ :=
        scan_turn lib turn hactive hcomplete suffix (rolloutOf entries).reverse
      rw [Entry.rollout, hfinalized, hstops, surviving_concat_turn, List.reverse_append,
        List.reverse_singleton, List.singleton_append, dropUserTurns_cons, ← hpending,
        List.map_append]
      have hhere : (if scan.pendingRollbackTurns = 0 then [turn.id] else [])
          = (if scan.pendingRollbackTurns = 0 then [turn] else []).map Turn.id := by
        split <;> rfl
      rw [hhere]
      cases hcomplete' : scan'.isComplete with
      | true => simp
      | false => grind
    | rolledBack numTurns =>
      have hsame : (scanItem lib suffix (.eventMsg (.threadRolledBack numTurns))
          scan).isComplete = false := hcomplete
      obtain ⟨hinitial, hall⟩ := ih (.eventMsg (.threadRolledBack numTurns) :: suffix)
        (scanItem lib suffix (.eventMsg (.threadRolledBack numTurns)) scan) hactive hsame
      rw [surviving_concat_rolledBack, dropUserTurns_dropUserTurns]
      have hnone : settles? (.eventMsg (.threadRolledBack numTurns)) scan = none := rfl
      simp only [Entry.rollout, List.reverse_singleton, List.singleton_append, finalizedTurns,
        stopsEarly, hnone, hsame, Option.toList_none, ite_self, List.nil_append,
        Bool.false_eq_true, if_false, Bool.false_or]
      exact ⟨hinitial, hall⟩

/-- **The scan settles the surviving turns.** On complete turns with rollback markers in between,
the turns whose segments are settled while no rollback is pending are, oldest first, the newest of
the turns that the markers leave; they are all of these unless the scan stops early. -/
theorem finalizedTurns_surviving (entries : List (Entry I S)) :
    (finalizedTurns lib (rolloutOf entries).reverse [] .start).reverse
        <:+ (surviving entries).map Turn.id
      ∧ (stopsEarly lib (rolloutOf entries).reverse [] .start = false →
        (finalizedTurns lib (rolloutOf entries).reverse [] .start).reverse
          = (surviving entries).map Turn.id) := by
  obtain ⟨hinitial, hall⟩ := finalizedTurns_pending lib entries [] .start rfl rfl
  simp only [Scan.start, dropUserTurns_zero] at hinitial hall
  refine ⟨?_, fun h => ?_⟩
  · rw [← List.reverse_prefix, List.reverse_reverse, ← List.map_reverse]
    exact hinitial
  · simp only [Scan.start] at h ⊢
    rw [hall h, ← List.map_reverse, List.reverse_reverse]

/-! ## A checkpoint in the newest turn -/

inductive Role
  | user
  | assistant
  | developer
deriving DecidableEq

/-- A message as a history item. -/
structure Message where
  role : Role
  contextual : Bool
  turnId : Option String
  text : String
deriving DecidableEq

instance : HistoryItem Message where
  isUserTurnBoundary message := message.role = .user && !message.contextual
  isContextUpdate message := message.role ≠ .assistant && message.contextual
  isApiMessage _ := true
  truncateOutput := id
  turnId := Message.turnId
  isDeveloperMessage message := message.role = .developer
  withoutModelState := some
  buildCompactedHistory history summary :=
    history.filter (fun message => message.role = .user && !message.contextual)
      ++ [⟨.user, false, none, summary⟩]

/-- Without UUIDs and world states. -/
def Libraries.plain : Libraries Unit Unit := ⟨fun _ => none, id, fun _ => id⟩

def userMessage (text : String) : RolloutItem Message Unit :=
  .responseItem ⟨.user, false, none, text⟩

/-- A user turn without a checkpoint. -/
def firstTurn : Turn Message Unit where
  id := "1"
  items := [userMessage "a"]
  inside := by decide

/-- A user turn with its context and a checkpoint. -/
def checkpointTurn : Turn Message Unit where
  id := "2"
  items := [.turnContext ⟨some "2", "model", none, none, ""⟩, userMessage "b",
    .compacted ⟨"summary", some [⟨.user, false, none, "summary"⟩], none, none, none, none⟩]
  inside := by decide

/-- Both turns survive, and the scan stops at the second. -/
theorem finalizedTurns_ne_surviving :
    (finalizedTurns .plain (rolloutOf [.turn firstTurn, .turn checkpointTurn]).reverse []
        .start).reverse = ["2"]
      ∧ (surviving [.turn firstTurn, .turn checkpointTurn]).map Turn.id = ["1", "2"] := by
  decide +kernel

theorem reconstruct_append_checkpointTurn :
    stopsEarly .plain checkpointTurn.rollout.reverse [] .start = true
      ∧ (reconstructHistoryFromRollout .plain (firstTurn.rollout ++ checkpointTurn.rollout)).history
        = (reconstructHistoryFromRollout .plain checkpointTurn.rollout).history := by
  have h : stopsEarly .plain checkpointTurn.rollout.reverse [] .start = true := by decide +kernel
  exact ⟨h, (reconstruct_append_of_stopsEarly .plain firstTurn.rollout checkpointTurn.rollout h).1⟩

end CodexRouter.Rollout
