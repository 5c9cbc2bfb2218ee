import Mathlib.Tactic

set_option autoImplicit false

/-! # Reconstructing a session from its rollout

`reconstruct_history_from_rollout` reads a rollout twice. A reverse scan collects the items of one
turn into a segment and settles the segment at the turn's `TurnStarted`; a rollback marker makes it
skip the next user turns. The scan stops as soon as it knows a checkpoint of the history, the
settings of the previous turn and the reference context. Then the items after the checkpoint are
replayed forward.

Of a response item the two passes use what the class `HistoryItem` has. What belongs to other
crates (UUIDs, merge patches) is in `Libraries`.
-/

namespace CodexRouter.Rollout

/-! ## Items of a rollout -/

/-- What replay asks of a response item with its metadata. -/
class HistoryItem (I : Type) where
  isUserTurnBoundary : I → Bool
  /-- A contextual developer or user message. -/
  isContextUpdate : I → Bool
  isApiMessage : I → Bool
  /-- The item with a long tool output truncated. -/
  truncateOutput : I → I
  turnId : I → Option String
  isDeveloperMessage : I → Bool
  /-- A developer message without what the next step's model and effort rebuild; `none` when
  nothing else is in it. -/
  withoutModelState : I → Option I
  /-- The history after a compaction without replacement history: the user messages of the
  history so far, and the summary. -/
  buildCompactedHistory : List I → String → List I

open HistoryItem

structure TurnContextItem where
  turnId : Option String
  model : String
  compHash : Option String
  realtimeActive : Option Bool
  /-- The other fields, as serialized. -/
  rest : String
deriving DecidableEq

structure WorldStateItem (S : Type) where
  full : Bool
  state : S
deriving DecidableEq

structure CompactedItem (I : Type) where
  message : String
  replacementHistory : Option (List I)
  windowNumber : Option Nat
  firstWindowId : Option String
  previousWindowId : Option String
  windowId : Option String
deriving DecidableEq

inductive EventMsg
  | threadRolledBack (numTurns : UInt32)
  | turnStarted (turnId : String)
  | turnComplete (turnId : String)
  | turnAborted (turnId : Option String)
  | userMessage (message : String)
  /-- The events that replay passes over. -/
  | other (event : String)
deriving DecidableEq

inductive RolloutItem (I S : Type)
  | sessionMeta (contextWindowId : Option String)
  | responseItem (item : I)
  /-- With the item that it is for the model. -/
  | interAgentCommunication (item : I)
  | interAgentCommunicationMetadata (triggerTurn : Bool)
  | compacted (compacted : CompactedItem I)
  | turnContext (context : TurnContextItem)
  | tokenUsageRecord (turnId : String)
  | worldState (worldState : WorldStateItem S)
  | securityRiskScore
  | retainedContext
  | eventMsg (event : EventMsg)
  | realtimeItem
deriving DecidableEq

/-! ## Segments -/

structure PreviousTurnSettings where
  model : String
  compHash : Option String
  realtimeActive : Option Bool
deriving DecidableEq

def TurnContextItem.settings (context : TurnContextItem) : PreviousTurnSettings :=
  ⟨context.model, context.compHash, context.realtimeActive⟩

inductive TurnReferenceContextItem
  | neverSet
  | cleared
  | latest (context : TurnContextItem)
deriving DecidableEq

structure ReconstructedWindow where
  number : Nat
  firstId : Option Nat
  previousId : Option Nat
  id : Option Nat
deriving DecidableEq

/-- A compaction with the items after it. -/
structure ReplayCheckpoint (I S : Type) where
  compacted : CompactedItem I
  suffix : List (RolloutItem I S)

structure ActiveReplaySegment (I S : Type) where
  turnId : Option String
  countsAsUserTurn : Bool
  previousTurnSettings : Option PreviousTurnSettings
  referenceContextItem : TurnReferenceContextItem
  /-- Newest first, as everything the scan collects. -/
  worldStateReplay : List (RolloutItem I S)
  baseCompaction : Option (ReplayCheckpoint I S)
  window : Option ReconstructedWindow

def ActiveReplaySegment.default {I S : Type} : ActiveReplaySegment I S :=
  ⟨none, false, none, .neverSet, [], none, none⟩

def turnIdsAreCompatible (activeTurnId itemTurnId : Option String) : Bool :=
  activeTurnId.all fun turnId => itemTurnId.all fun itemTurnId => itemTurnId = turnId

/-- The variables of the reverse scan. -/
structure Scan (I S : Type) where
  baseCompaction : Option (ReplayCheckpoint I S)
  previousTurnSettings : Option PreviousTurnSettings
  referenceContextItem : TurnReferenceContextItem
  worldStateReplay : List (RolloutItem I S)
  window : Option ReconstructedWindow
  pendingRollbackTurns : Nat
  activeSegment : Option (ActiveReplaySegment I S)

def Scan.start {I S : Type} : Scan I S := ⟨none, none, .neverSet, [], none, 0, none⟩

variable {I S W : Type}

def isCompacted : RolloutItem I S → Bool
  | .compacted _ => true
  | _ => false

def isFullWorldState : RolloutItem I S → Bool
  | .worldState worldState => worldState.full
  | _ => false

/-- A user turn, or a segment with a full snapshot of the world state after its last compaction. -/
def ActiveReplaySegment.hasContextBaseline (segment : ActiveReplaySegment I S) : Bool :=
  segment.countsAsUserTurn
    || (segment.worldStateReplay.takeWhile fun item => !isCompacted item).any isFullWorldState

def finalizeActiveSegment (segment : ActiveReplaySegment I S) (scan : Scan I S) : Scan I S :=
  if 0 < scan.pendingRollbackTurns then
    { scan with pendingRollbackTurns :=
        if segment.countsAsUserTurn then scan.pendingRollbackTurns - 1
        else scan.pendingRollbackTurns }
  else
    { scan with
      worldStateReplay := scan.worldStateReplay ++ segment.worldStateReplay
      baseCompaction := scan.baseCompaction.or segment.baseCompaction
      window := scan.window.or segment.window
      previousTurnSettings :=
        if scan.previousTurnSettings.isNone && segment.hasContextBaseline then
          segment.previousTurnSettings
        else scan.previousTurnSettings
      referenceContextItem :=
        if scan.referenceContextItem = .neverSet
            && (segment.hasContextBaseline || segment.referenceContextItem = .cleared) then
          segment.referenceContextItem
        else scan.referenceContextItem }

/-! ## The reverse scan -/

/-- What the code takes from other crates. -/
structure Libraries (S W : Type) where
  parseUuidV7 : String → Option Nat
  snapshotOf : S → W
  applyMergePatch : W → S → W

variable (lib : Libraries S W)

def compactedWindow (compacted : CompactedItem I) : Option ReconstructedWindow :=
  compacted.windowNumber.map fun number =>
    { number := number
      firstId := compacted.firstWindowId.bind lib.parseUuidV7
      previousId := compacted.previousWindowId.bind lib.parseUuidV7
      id := compacted.windowId.bind lib.parseUuidV7 }

/-- `get_or_insert_with(ActiveReplaySegment::default)`, and an update of the segment. -/
def Scan.updateSegment (scan : Scan I S)
    (update : ActiveReplaySegment I S → ActiveReplaySegment I S) : Scan I S :=
  { scan with activeSegment := some (update (scan.activeSegment.getD .default)) }

def segmentCompacted (item : RolloutItem I S) (compacted : CompactedItem I)
    (suffix : List (RolloutItem I S)) (segment : ActiveReplaySegment I S) :
    ActiveReplaySegment I S :=
  { segment with
    worldStateReplay := segment.worldStateReplay ++ [item]
    window := segment.window.or (compactedWindow lib compacted)
    referenceContextItem :=
      if segment.referenceContextItem = .neverSet then .cleared else segment.referenceContextItem
    baseCompaction :=
      if segment.baseCompaction.isNone && compacted.replacementHistory.isSome then
        some ⟨compacted, suffix⟩
      else segment.baseCompaction }

def segmentTurnContext (context : TurnContextItem) (segment : ActiveReplaySegment I S) :
    ActiveReplaySegment I S :=
  let segment := { segment with turnId := segment.turnId.or context.turnId }
  if turnIdsAreCompatible segment.turnId context.turnId then
    { segment with
      previousTurnSettings := some context.settings
      referenceContextItem :=
        if segment.referenceContextItem = .neverSet then .latest context
        else segment.referenceContextItem }
  else segment

variable [HistoryItem I]

/-- One item of the reverse scan; `suffix` is what follows it in the rollout. -/
def scanItem (suffix : List (RolloutItem I S)) (item : RolloutItem I S) (scan : Scan I S) :
    Scan I S :=
  match item with
  | .compacted compacted => scan.updateSegment (segmentCompacted lib item compacted suffix)
  | .eventMsg (.threadRolledBack numTurns) =>
    { scan with pendingRollbackTurns := scan.pendingRollbackTurns + numTurns.toNat }
  | .eventMsg (.turnComplete turnId) =>
    scan.updateSegment fun segment => { segment with turnId := segment.turnId.or (some turnId) }
  | .eventMsg (.turnAborted turnId) =>
    match scan.activeSegment, turnId with
    | some segment, turnId =>
      { scan with activeSegment := some { segment with turnId := segment.turnId.or turnId } }
    | none, some turnId =>
      { scan with activeSegment := some { ActiveReplaySegment.default with turnId := some turnId } }
    | none, none => scan
  | .eventMsg (.userMessage _) =>
    scan.updateSegment fun segment => { segment with countsAsUserTurn := true }
  | .turnContext context => scan.updateSegment (segmentTurnContext context)
  | .worldState _ =>
    scan.updateSegment fun segment =>
      { segment with worldStateReplay := segment.worldStateReplay ++ [item] }
  | .eventMsg (.turnStarted turnId) =>
    match scan.activeSegment with
    | some segment =>
      if turnIdsAreCompatible segment.turnId (some turnId) then
        finalizeActiveSegment segment { scan with activeSegment := none }
      else scan
    | none => scan
  | .responseItem responseItem =>
    scan.updateSegment fun segment =>
      { segment with
        countsAsUserTurn := segment.countsAsUserTurn || isUserTurnBoundary responseItem }
  | .interAgentCommunication _ =>
    scan.updateSegment fun segment => { segment with countsAsUserTurn := true }
  | .eventMsg (.other _) | .sessionMeta _ | .realtimeItem | .retainedContext | .securityRiskScore
  | .tokenUsageRecord _ | .interAgentCommunicationMetadata _ => scan

/-- A checkpoint and the metadata for resuming are known. -/
def Scan.isComplete (scan : Scan I S) : Bool :=
  scan.baseCompaction.isSome && scan.previousTurnSettings.isSome
    && scan.referenceContextItem ≠ .neverSet

/-- The loop over the items, newest first, with what follows them in the rollout. -/
def reverseScan : List (RolloutItem I S) → List (RolloutItem I S) → Scan I S → Scan I S
  | [], _, scan => scan
  | item :: older, suffix, scan =>
    let scan := scanItem lib suffix item scan
    if scan.isComplete then scan else reverseScan older (item :: suffix) scan

/-- The loop ends by its `break`. -/
def stopsEarly : List (RolloutItem I S) → List (RolloutItem I S) → Scan I S → Bool
  | [], _, _ => false
  | item :: older, suffix, scan =>
    let scan := scanItem lib suffix item scan
    scan.isComplete || stopsEarly older (item :: suffix) scan

/-- The scan with what is left in the active segment. -/
def scanRollout (rollout : List (RolloutItem I S)) : Scan I S :=
  let scan := reverseScan lib rollout.reverse [] .start
  match scan.activeSegment with
  | some segment => finalizeActiveSegment segment { scan with activeSegment := none }
  | none => scan

/-! ## The forward pass -/

def userMessagePositions (items : List I) : List Nat :=
  (items.zipIdx.filter fun entry => isUserTurnBoundary entry.1).map Prod.snd

/-- Step back over the context messages right before the cut. -/
def trimPreTurnContextUpdates (snapshot : List I) (firstInstructionTurnIdx : Nat) : Nat → Nat
  | 0 => 0
  | cutIdx + 1 =>
    if firstInstructionTurnIdx < cutIdx + 1 ∧ snapshot[cutIdx]?.any isContextUpdate then
      trimPreTurnContextUpdates snapshot firstInstructionTurnIdx cutIdx
    else cutIdx + 1

/-- The developer messages of a turn that is removed as a whole lose the state of its model. -/
def retainDeveloperMessages (turnId : String) (items : List I) : List I :=
  items.filterMap fun item =>
    if HistoryItem.turnId item = some turnId ∧ isDeveloperMessage item then withoutModelState item
    else some item

def dropLastNUserTurns (numTurns : Nat) (items : List I) : List I :=
  if numTurns = 0 then items
  else
    let userPositions := userMessagePositions items
    match userPositions with
    | [] => items
    | firstInstructionTurnIdx :: _ =>
      let cutIdx :=
        if userPositions.length ≤ numTurns then firstInstructionTurnIdx
        else userPositions.getD (userPositions.length - numTurns) 0
      let cutIdx := trimPreTurnContextUpdates items firstInstructionTurnIdx cutIdx
      let retained := items.take cutIdx
      if cutIdx = firstInstructionTurnIdx then
        match items[firstInstructionTurnIdx]?.bind HistoryItem.turnId with
        | some firstTurnId => retainDeveloperMessages firstTurnId retained
        | none => retained
      else retained

/-- The history, and whether a compaction without replacement history was met. -/
def replayItem (state : List I × Bool) (item : RolloutItem I S) : List I × Bool :=
  match item with
  | .responseItem item | .interAgentCommunication item =>
    if isApiMessage item then (state.1 ++ [truncateOutput item], state.2) else state
  | .compacted compacted =>
    match compacted.replacementHistory with
    | some _ => state
    | none => (buildCompactedHistory state.1 compacted.message, true)
  | .eventMsg (.threadRolledBack numTurns) => (dropLastNUserTurns numTurns.toNat state.1, state.2)
  | _ => state

def replayForward (history : List I) (suffix : List (RolloutItem I S)) : List I × Bool :=
  suffix.foldl replayItem (history, false)

/-- The baseline after an item of the world state, oldest first. -/
def replayWorldState (baseline : Option W) (item : RolloutItem I S) : Option W :=
  match item with
  | .worldState worldState =>
    if worldState.full then some (lib.snapshotOf worldState.state)
    else baseline.map fun snapshot => lib.applyMergePatch snapshot worldState.state
  | _ => none

/-! ## Reconstruction -/

structure RolloutReconstruction (I W : Type) where
  history : List I
  previousTurnSettings : Option PreviousTurnSettings
  referenceContextItem : Option TurnContextItem
  worldStateBaseline : Option W
  window : ReconstructedWindow

def TurnReferenceContextItem.context? : TurnReferenceContextItem → Option TurnContextItem
  | .latest context => some context
  | .neverSet | .cleared => none

def initialWindow (rollout : List (RolloutItem I S)) : Option ReconstructedWindow :=
  let isLegacy : RolloutItem I S → Bool
    | .compacted compacted => compacted.windowNumber.isNone
    | _ => false
  if rollout.any isLegacy then none
  else rollout.findSome? fun item =>
    match item with
    | .sessionMeta contextWindowId =>
      (contextWindowId.bind lib.parseUuidV7).map fun id => ⟨0, some id, none, some id⟩
    | _ => none

/-- The history that the forward pass starts from, and the items that it replays. -/
def replayBase (rollout : List (RolloutItem I S)) (scan : Scan I S) :
    List I × List (RolloutItem I S) :=
  match scan.baseCompaction with
  | some checkpoint => (checkpoint.compacted.replacementHistory.getD [], checkpoint.suffix)
  | none => ([], rollout)

def reconstructHistoryFromRollout (rollout : List (RolloutItem I S)) :
    RolloutReconstruction I W :=
  let scan := scanRollout lib rollout
  let (base, suffix) := replayBase rollout scan
  let (history, sawLegacyCompaction) := replayForward base suffix
  { history := history
    previousTurnSettings := scan.previousTurnSettings
    referenceContextItem :=
      if sawLegacyCompaction then none else scan.referenceContextItem.context?
    worldStateBaseline := scan.worldStateReplay.reverse.foldl (replayWorldState lib) none
    window := (scan.window.or (initialWindow lib rollout)).getD
      ⟨rollout.countP isCompacted, none, none, none⟩ }

end CodexRouter.Rollout
