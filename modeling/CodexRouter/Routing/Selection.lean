import CodexRouter.Lib.Table
import CodexRouter.Routing.Cost

set_option autoImplicit false

/-! # Selecting a worker

`SelectionSnapshot::decide` of `routing_state/selection.rs` and the three rankings of `policies/`.
The snapshot says which workers there are and what is known of their caches. The first thing that
is wrong or unknown becomes the reason to fall back to the least loaded worker. An index or an
`unwrap` that would panic is an error of the model.
-/

namespace CodexRouter.Routing

open Lib

/-! ## Data -/

inductive Ranking
  | prefixMax
  | leastLoadKv
  | kvBatchEct
  deriving DecidableEq

inductive PrefixEvidence
  | observed (tokens : Nat) (engineEpoch : String) (sequence : Option Nat) (ageMs : Nat)
  | lmCacheObserved (tokens cachedTokens : Nat) (instanceId location : String)
      (engineEpoch : Option String) (ageMs : Nat)
  | unknown
  | stale
  | unsupported
  deriving DecidableEq

structure WorkerMetadata where
  workerId : String
  model : String
  fingerprint : String
  engineEpoch : String
  blockSize : Nat
  deriving DecidableEq

def WorkerMetadata.valid (m : WorkerMetadata) : Bool :=
  m.workerId ≠ "" ∧ m.model ≠ "" ∧ m.fingerprint ≠ "" ∧ m.engineEpoch ≠ "" ∧ m.blockSize > 0

structure BackendLoadSnapshot (F : Type) where
  running : Nat
  waiting : Nat
  kvUsageFraction : Option F
  ageMs : Nat

structure WorkerSnapshot (F : Type) where
  workerIndex : Nat
  workerUrl : String
  available : Bool
  inflight : Nat
  backendLoad : Option (BackendLoadSnapshot F)
  metadata : Option WorkerMetadata
  evidence : PrefixEvidence

structure SessionHomeSnapshot where
  workerUrl : String
  engineEpoch : String
  ageMs : Nat

structure SelectionSnapshot (F : Type) where
  workers : List (WorkerSnapshot F)
  home : Option SessionHomeSnapshot

structure CandidateSnapshot (F : Type) where
  workerIndex : Nat
  inflight : Nat
  reusableTokens : Nat
  ectMs : Option F
  cost : Option (CostEstimate F)
  completionCost : Option (CompletionEstimate F)
  backendLoad : Option (BackendLoadSnapshot F)
  tieRank : Nat
  evidence : PrefixEvidence

structure RoutingDecision (F : Type) where
  identityMode : String
  ectModel : String
  chosenWorker : Nat
  fallbackReason : Option String
  affinityApplied : Bool
  candidates : List (CandidateSnapshot F)

/-- The fields of a request that the selection reads. -/
structure RequestFeatures where
  sessionId : Option String
  tokens : Option (List Nat)
  fingerprint : Option String
  model : Option String
  outputLimit : Option Nat
  numChoices : Nat
  fallbackReason : Option String

/-! ## Configuration -/

inductive EctModel
  | decomposed
  | completionTime
  deriving DecidableEq

def EctModel.name : EctModel → String
  | .decomposed => "decomposed"
  | .completionTime => "completion_time"

inductive IdentityMode
  | verified
  | endpoint
  deriving DecidableEq

def IdentityMode.name : IdentityMode → String
  | .verified => "verified"
  | .endpoint => "endpoint"

structure LmCacheWorker where
  instanceId : String
  blockSize : Nat

/-- `workers` holds the entries of the map in the order of its iteration. -/
structure LmCacheConfig where
  identityMode : IdentityMode
  model : String
  workers : List (String × LmCacheWorker)

/-- `url.trim_end_matches('/')`. -/
def trimEndSlashes (url : String) : String :=
  String.ofList (url.toList.rdropWhile fun c => c = '/')

def LmCacheConfig.worker (config : LmCacheConfig) (url : String) : Option LmCacheWorker :=
  (config.workers.find? fun e => trimEndSlashes e.1 = trimEndSlashes url).map Prod.snd

/-- `urls` holds the keys of the map: the URLs of the workers. -/
structure BackendMetricsConfig where
  model : String
  urls : List String
  maxAgeMs : Nat

structure RoutingConfig (F : Type) where
  maxEvidenceAgeMs : Nat
  sessionTtlSecs : Nat
  costModels : Table String (CostModel F)
  restoreModels : Table String (RestoreCostModel F)
  ectModel : EctModel
  completionModels : Table String (CompletionModel F)
  backendMetrics : Option BackendMetricsConfig
  lmcache : Option LmCacheConfig

namespace RoutingConfig

variable {F : Type} (config : RoutingConfig F)

def endpointIdentity : Bool := config.lmcache.any fun c => c.identityMode = .endpoint

def identityModeName : String := config.lmcache.elim "native" fun c => c.identityMode.name

end RoutingConfig

/-- Where the code would panic. -/
inductive Panic
  | indexMissing
  | unwrapNone
  deriving DecidableEq

def unwrap {α : Type} : Option α → Except Panic α
  | some a => .ok a
  | none => .error .unwrapNone

/-- `get_or_insert`: a reason that is there stays. -/
def getOrInsert (fallback : Option String) (reason : String) : Option String :=
  some (fallback.getD reason)

variable {F : Type} [FloatLike F] (features : RequestFeatures) (config : RoutingConfig F)

/-! ## The loop over the workers -/

def maxUsize : Nat := 2 ^ 64 - 1

/-- The worker serves another model or another fingerprint. -/
def incompatible (info : WorkerMetadata) : Bool :=
  (info.model ≠ "" ∧ features.model.any fun m => m ≠ info.model) ∨
    (¬ config.endpointIdentity ∧ info.fingerprint ≠ "" ∧
      features.fingerprint.any fun f => f ≠ info.fingerprint)

/-- Evidence that is too old is stale. -/
def freshEvidence (evidence : PrefixEvidence) : PrefixEvidence :=
  match evidence with
  | .observed _ _ _ ageMs => if ageMs > config.maxEvidenceAgeMs then .stale else evidence
  | .lmCacheObserved _ _ _ _ _ ageMs => if ageMs > config.maxEvidenceAgeMs then .stale else evidence
  | _ => evidence

def observedValid (metadata : Option WorkerMetadata) (tokens : Nat) (engineEpoch : String) :
    Bool :=
  metadata.any fun info =>
    info.valid ∧ features.fingerprint = some info.fingerprint ∧ info.engineEpoch = engineEpoch ∧
      info.blockSize ∣ tokens ∧ features.tokens.any fun t => tokens ≤ t.length

def lmCacheIdentityValid (workerUrl : String) (info : WorkerMetadata)
    (engineEpoch : Option String) : Bool :=
  if config.endpointIdentity then
    config.lmcache.any fun c =>
      info.model = c.model ∧ (c.worker workerUrl).any fun w =>
        w.instanceId = info.workerId ∧ w.blockSize = info.blockSize ∧ info.blockSize > 0
  else info.valid ∧ engineEpoch = some info.engineEpoch

def lmCacheValid (workerUrl : String) (metadata : Option WorkerMetadata)
    (tokens cachedTokens : Nat) (instanceId location : String) (engineEpoch : Option String) :
    Bool :=
  metadata.any fun info =>
    lmCacheIdentityValid config workerUrl info engineEpoch ∧ instanceId = info.workerId ∧
      location = "LocalCPUBackend" ∧ info.blockSize ∣ tokens ∧ tokens ≤ cachedTokens ∧
      features.tokens.any fun t => tokens < t.length ∧ cachedTokens ≤ t.length

/-- The tokens that the worker need not compute again, or the reason why that is not known. -/
def reusable (worker : WorkerSnapshot F) : PrefixEvidence → Except String Nat
  | .observed tokens engineEpoch _ _ =>
    if observedValid features worker.metadata tokens engineEpoch then .ok tokens
    else .error "invalid_kv_evidence"
  | .unknown => .error "unknown_kv"
  | .lmCacheObserved tokens cachedTokens instanceId location engineEpoch _ =>
    if lmCacheValid features config worker.workerUrl worker.metadata tokens cachedTokens
        instanceId location engineEpoch then .ok tokens
    else if ¬ config.endpointIdentity ∧ engineEpoch = none then
      .error "unverified_lmcache_identity"
    else .error "invalid_lmcache_evidence"
  | .stale => .error "stale_kv"
  | .unsupported => .error "unsupported_kv"

/-- The locals of the loop. -/
structure Scan (F : Type) where
  fallback : Option String
  candidates : List (CandidateSnapshot F)
  inputs : Table Nat (WorkerSnapshot F)
  identities : List String
  indices : List Nat
  urls : List String

/-- The identity of the worker is noted; a second worker with it is a reason to fall back. -/
def Scan.noteIdentity (scan : Scan F) (metadata : Option WorkerMetadata) : Scan F :=
  match metadata with
  | none => scan
  | some info =>
    if info.valid ∨ (config.endpointIdentity ∧ info.workerId ≠ "") then
      if info.workerId ∈ scan.identities then
        { scan with fallback := getOrInsert scan.fallback "ambiguous_worker_identity" }
      else { scan with identities := info.workerId :: scan.identities }
    else scan

/-- The worker becomes a candidate. -/
def Scan.addCandidate (scan : Scan F) (tieRank : Nat) (worker : WorkerSnapshot F) : Scan F :=
  let evidence := freshEvidence config worker.evidence
  let found := reusable features config worker evidence
  { scan with
    fallback := match found with
      | .ok _ => scan.fallback
      | .error reason => getOrInsert scan.fallback reason
    candidates := scan.candidates ++
      [{ workerIndex := worker.workerIndex
         inflight := worker.inflight
         reusableTokens := match found with
          | .ok tokens => tokens
          | .error _ => 0
         ectMs := none
         cost := none
         completionCost := none
         backendLoad := worker.backendLoad
         tieRank
         evidence }]
    inputs := scan.inputs.insert worker.workerIndex worker }

/-- One round; two workers with one index or URL end the selection. -/
def Scan.visit (scan : Scan F) (tieRank : Nat) (worker : WorkerSnapshot F) : Option (Scan F) :=
  if worker.workerIndex ∈ scan.indices ∨ worker.workerUrl ∈ scan.urls then none
  else
    let scan := { scan with
      indices := worker.workerIndex :: scan.indices
      urls := worker.workerUrl :: scan.urls }
    -- an incompatible worker takes no part, but its index and URL count as seen
    if worker.metadata.any fun info => incompatible features config info then some scan
    else
      some ((scan.noteIdentity config worker.metadata).addCandidate features config tieRank worker)

def scanWorkers : Nat → Scan F → List (WorkerSnapshot F) → Option (Scan F)
  | _, scan, [] => some scan
  | tieRank, scan, worker :: rest =>
    match scan.visit features config tieRank worker with
    | none => none
    | some scan => scanWorkers (tieRank + 1) scan rest

/-! ## Pricing the candidates -/

/-- The prediction of the completion-time model, or a reason. -/
def predictCompletion (worker : WorkerSnapshot F) (info : WorkerMetadata)
    (candidate : CandidateSnapshot F) : Except Panic (Except String (CompletionEstimate F)) :=
  if features.numChoices ≠ 1 then .ok (.error "unsupported_completion_choices")
  else
    match config.completionModels.get? info.workerId with
    | none => .ok (.error "missing_completion_model")
    | some model =>
      match candidate.evidence with
      | .lmCacheObserved _ cachedTokens _ _ _ _ =>
        match config.backendMetrics with
        | none => .ok (.error "missing_backend_metrics")
        | some metrics =>
          if metrics.model ≠ info.model ∨ ¬ metrics.urls.any fun url =>
              trimEndSlashes url = trimEndSlashes worker.workerUrl then
            .ok (.error "invalid_backend_metrics_binding")
          else
            match candidate.backendLoad with
            | none => .ok (.error "missing_backend_metrics")
            | some backend =>
              if backend.ageMs > metrics.maxAgeMs then
                .ok (.error "stale_backend_metrics")
              else
                match unwrap features.tokens with
                | .error panic => .error panic
                | .ok tokens =>
                  .ok (model.estimate
                    (if config.endpointIdentity then model.fingerprint
                      else info.fingerprint)
                    tokens.length cachedTokens features.outputLimit candidate.inflight
                    backend.running backend.waiting backend.kvUsageFraction)
      | _ => .ok (.error "unsupported_completion_evidence")

/-- The cost of restoring what the controller has cached, on top of an estimate. -/
def addRestore (info : WorkerMetadata) (candidate : CandidateSnapshot F)
    (estimate : CostEstimate F) : Except String (CostEstimate F) :=
  match candidate.evidence with
  | .lmCacheObserved _ cachedTokens _ location _ _ =>
    if cachedTokens > 0 then
      match config.restoreModels.get? info.workerId with
      | none => .error "missing_restore_model"
      | some restore =>
        restore.apply
          (if config.endpointIdentity then restore.fingerprint else info.fingerprint)
          location cachedTokens estimate
    else .ok estimate
  | _ => .ok estimate

/-- The prediction of the decomposed model, or a reason. -/
def predictCost (info : WorkerMetadata) (candidate : CandidateSnapshot F) :
    Except Panic (Except String (CostEstimate F)) :=
  match config.costModels.get? info.workerId with
  | none => .ok (.error "missing_cost_model")
  | some model =>
    match unwrap features.tokens with
    | .error panic => .error panic
    | .ok tokens =>
      match model.estimate
          (if config.endpointIdentity then model.fingerprint else info.fingerprint)
          tokens.length candidate.reusableTokens features.outputLimit candidate.inflight with
      | .error reason => .ok (.error reason)
      | .ok estimate => .ok (addRestore config info candidate estimate)

/-- A candidate with its estimate, or as it was with the reason why it has none. -/
def price (worker : WorkerSnapshot F) (info : WorkerMetadata) (candidate : CandidateSnapshot F) :
    Except Panic (CandidateSnapshot F × Option String) :=
  match config.ectModel with
  | .completionTime =>
    match predictCompletion features config worker info candidate with
    | .error panic => .error panic
    | .ok (.error reason) => .ok (candidate, some reason)
    | .ok (.ok estimate) =>
      .ok ({ candidate with
        ectMs := some estimate.ectMs
        completionCost := some estimate }, none)
  | .decomposed =>
    match predictCost features config info candidate with
    | .error panic => .error panic
    | .ok (.error reason) => .ok (candidate, some reason)
    | .ok (.ok estimate) =>
      .ok ({ candidate with ectMs := some estimate.ectMs, cost := some estimate }, none)

/-- The loop over the candidates; no result when one has no metadata. -/
def priceAll (inputs : Table Nat (WorkerSnapshot F)) :
    Option String → List (CandidateSnapshot F) →
      Except Panic (Option (Option String × List (CandidateSnapshot F)))
  | fallback, [] => .ok (some (fallback, []))
  | fallback, candidate :: rest =>
    match inputs.get? candidate.workerIndex with
    | none => .error .indexMissing
    | some worker =>
      match worker.metadata with
      | none => .ok none
      | some info =>
        match price features config worker info candidate with
        | .error panic => .error panic
        | .ok (priced, reason) =>
          match priceAll inputs (reason.elim fallback (getOrInsert fallback)) rest with
          | .error panic => .error panic
          | .ok none => .ok none
          | .ok (some (fallback, rest)) => .ok (some (fallback, priced :: rest))

/-! ## Rankings -/

/-- `min_by_key`: the first of the least. -/
def firstMin {α : Type} (before : α → α → Bool) (l : List α) : Option α :=
  l.foldl (fun best x =>
    match best with
    | none => some x
    | some b => if before x b then some x else some b) none

/-- Lexicographic order. -/
def thenLt (a b : Nat) (rest : Bool) : Bool := a < b ∨ a = b ∧ rest

/-- `min_by_key(|c| (c.inflight, c.tie_rank))`. -/
def leastLoaded (candidates : List (CandidateSnapshot F)) : Option Nat :=
  (firstMin (fun c d => thenLt c.inflight d.inflight (c.tieRank < d.tieRank)) candidates).map
    CandidateSnapshot.workerIndex

/-- `policies/prefix_max.rs`. -/
def prefixMaxChoose (candidates : List (CandidateSnapshot F)) : Option Nat :=
  (firstMin (fun c d => thenLt d.reusableTokens c.reusableTokens
    (thenLt c.inflight d.inflight (c.tieRank < d.tieRank))) candidates).map
      CandidateSnapshot.workerIndex

/-- `policies/least_load_kv.rs`. -/
def leastLoadKvChoose (candidates : List (CandidateSnapshot F)) : Option Nat :=
  (firstMin (fun c d => thenLt c.inflight d.inflight
    (thenLt d.reusableTokens c.reusableTokens (c.tieRank < d.tieRank))) candidates).map
      CandidateSnapshot.workerIndex

/-- The loop of `policies/kv_batch_ect.rs`, which gives up at a candidate without a usable
estimate. -/
def kvBatchEctLoop : Option (CandidateSnapshot F) → List (CandidateSnapshot F) →
    Except Panic (Except String (Option (CandidateSnapshot F)))
  | best, [] => .ok (.ok best)
  | best, candidate :: rest =>
    match candidate.ectMs with
    | none => .ok (.error "missing_cost_model")
    | some score =>
      if badCoefficient score then .ok (.error "invalid_cost_prediction")
      else
        match best with
        | none => kvBatchEctLoop (some candidate) rest
        | some current =>
          match unwrap current.ectMs with
          | .error panic => .error panic
          | .ok currentScore =>
            let order := (FloatLike.totalCmp score currentScore).then
              (compare candidate.tieRank current.tieRank)
            if order = .lt then kvBatchEctLoop (some candidate) rest
            else kvBatchEctLoop (some current) rest

/-- `policies/kv_batch_ect.rs`, with `.ok().flatten()`. -/
def kvBatchEctChoose (candidates : List (CandidateSnapshot F)) : Except Panic (Option Nat) :=
  match kvBatchEctLoop none candidates with
  | .error panic => .error panic
  | .ok (.error _) => .ok none
  | .ok (.ok best) => .ok (best.map CandidateSnapshot.workerIndex)

def choose (ranking : Ranking) (fallback : Option String)
    (candidates : List (CandidateSnapshot F)) : Except Panic (Option Nat) :=
  -- any reason to fall back means the least load, whatever the ranking
  if fallback ≠ none then .ok (leastLoaded candidates)
  else
    match ranking with
    | .prefixMax => .ok (prefixMaxChoose candidates)
    | .leastLoadKv => .ok (leastLoadKvChoose candidates)
    | .kvBatchEct => kvBatchEctChoose candidates

/-! ## Session affinity -/

/-- `find(|c| inputs[&c.worker_index].worker_url == url)`. -/
def candidateAt (inputs : Table Nat (WorkerSnapshot F)) (url : String) :
    List (CandidateSnapshot F) →
      Except Panic (Option (CandidateSnapshot F × WorkerSnapshot F))
  | [] => .ok none
  | candidate :: rest =>
    match inputs.get? candidate.workerIndex with
    | none => .error .indexMissing
    | some worker =>
      if worker.workerUrl = url then .ok (some (candidate, worker))
      else candidateAt inputs url rest

/-- Whether the home of the session is close enough to the best candidate to be taken. -/
def prefersHome (home : SessionHomeSnapshot) (info : WorkerMetadata)
    (candidate best : CandidateSnapshot F) : Except Panic Bool :=
  match unwrap best.ectMs with
  | .error panic => .error panic
  | .ok bestEct =>
    -- within one and a half per cent and ten milliseconds of the best
    let affinityLimit := bestEct + 0.015 * bestEct + 10.0
    if (config.endpointIdentity ∨ info.engineEpoch = home.engineEpoch) ∧
        candidate.reusableTokens ≥ min (best.reusableTokens + info.blockSize) maxUsize then
      match unwrap candidate.ectMs with
      | .error panic => .error panic
      | .ok ect => .ok (ect ≤ affinityLimit)
    else .ok false

/-- The session home that is young enough. -/
def currentHome (home : Option SessionHomeSnapshot) : Option SessionHomeSnapshot :=
  home.filter fun h => h.ageMs < min (config.sessionTtlSecs * 1000) maxUsize

/-- The choice after a look at the session home, and whether that changed it. -/
def applyAffinity (inputs : Table Nat (WorkerSnapshot F))
    (candidates : List (CandidateSnapshot F)) (home : Option SessionHomeSnapshot) (chosen : Nat) :
    Except Panic (Option (Nat × Bool)) :=
  match currentHome config home with
  | none => .ok (some (chosen, false))
  | some home =>
    match candidateAt inputs home.workerUrl candidates with
    | .error panic => .error panic
    | .ok none => .ok (some (chosen, false))
    | .ok (some (candidate, worker)) =>
      match candidates.find? fun c => c.workerIndex = chosen, worker.metadata with
      | none, _ => .ok none
      | _, none => .ok none
      | some best, some info =>
        match prefersHome config home info candidate best with
        | .error panic => .error panic
        | .ok true => .ok (some (candidate.workerIndex, true))
        | .ok false => .ok (some (chosen, false))

/-! ## The decision -/

/-- The available workers in the order of their URLs. -/
def ordered (workers : List (WorkerSnapshot F)) : List (WorkerSnapshot F) :=
  (workers.filter fun w => w.available).insertionSort fun a b => a.workerUrl ≤ b.workerUrl

/-- What the request itself gives as a reason. -/
def requestFallback : Option String :=
  if features.tokens.all List.isEmpty ∨
      (¬ config.endpointIdentity ∧ features.fingerprint.all fun f => f = "") then
    getOrInsert features.fallbackReason "missing_request_features"
  else features.fallbackReason

def Scan.init : Scan F :=
  { fallback := requestFallback features config
    candidates := []
    inputs := Table.empty
    identities := []
    indices := []
    urls := [] }

/-- The rest of `decide` after the loop over the workers. -/
def conclude (ranking : Ranking) (home : Option SessionHomeSnapshot) (scan : Scan F) :
    Except Panic (Option (RoutingDecision F)) :=
  let priced :=
    -- only this ranking needs estimates
    if ranking = .kvBatchEct ∧ scan.fallback = none then
      priceAll features config scan.inputs scan.fallback scan.candidates
    else .ok (some (scan.fallback, scan.candidates))
  match priced with
  | .error panic => .error panic
  | .ok none => .ok none
  | .ok (some (fallback, candidates)) =>
    match choose ranking fallback candidates with
    | .error panic => .error panic
    | .ok none => .ok none
    | .ok (some chosen) =>
      let settled :=
        if ranking = .kvBatchEct ∧ fallback = none ∧ features.sessionId ≠ none then
          applyAffinity config scan.inputs candidates home chosen
        else .ok (some (chosen, false))
      match settled with
      | .error panic => .error panic
      | .ok none => .ok none
      | .ok (some (chosenWorker, affinityApplied)) =>
        .ok (some
          { identityMode := config.identityModeName
            ectModel := config.ectModel.name
            chosenWorker
            fallbackReason := fallback
            affinityApplied
            candidates })

def SelectionSnapshot.decide (snapshot : SelectionSnapshot F) (ranking : Ranking) :
    Except Panic (Option (RoutingDecision F)) :=
  match scanWorkers features config 0 (Scan.init features config) (ordered snapshot.workers) with
  | none => .ok none
  | some scan => conclude features config ranking snapshot.home scan

end CodexRouter.Routing
