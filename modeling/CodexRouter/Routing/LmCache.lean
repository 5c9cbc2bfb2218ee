import CodexRouter.Lib.Fallible
import CodexRouter.Routing.Shared

set_option autoImplicit false

/-! # Observations of LMCache controllers

`routing_state/lmcache.rs`: what a controller answers about the prompt of a request becomes
evidence of how much of it a worker has cached. Whatever the controller answers, the numbers of
the evidence are rounded and capped here, and checked again by `decide`.
-/

namespace CodexRouter.Routing

open Lib

/-! ## Configuration -/

/-- A worker of the configuration, with its controller. -/
structure ControllerWorker extends LmCacheWorker where
  controllerUrl : String
  fingerprint : Option String

/-- `LmCacheConfig` with the fields that only the lookups read; `workers` holds the entries of
the map in the order of its iteration. -/
structure ServiceConfig where
  identityMode : IdentityMode
  rendererBaseUrl : String
  model : String
  fingerprint : Option String
  workers : List (String × ControllerWorker)

/-- What `Url::parse` says of a URL. -/
structure ParsedUrl where
  scheme : String
  host : Option String
  username : String
  password : Option String
  query : Option String
  fragment : Option String

namespace ServiceConfig

def validateUrl (parse : String → Option ParsedUrl) (value : String) : Except String Unit :=
  match parse value with
  | none => .error "invalid LMCache URL"
  | some parsed =>
    if ¬ (parsed.scheme = "http" ∨ parsed.scheme = "https") ∨ parsed.host = none ∨
        parsed.username ≠ "" ∨ parsed.password ≠ none ∨ parsed.query ≠ none ∨
        parsed.fragment ≠ none then
      .error ("LMCache URLs must be explicit HTTP(S) base URLs; " ++
        "use header_env for credentials")
    else .ok ()

/-- The loop over the workers; `instances` and `urls` are those seen so far. -/
def validateWorkers (parse : String → Option ParsedUrl) :
    List String → List String → List (String × ControllerWorker) → Except String Unit
  | _, _, [] => .ok ()
  | instances, urls, (inference, worker) :: rest => do
      validateUrl parse inference
      validateUrl parse worker.controllerUrl
      if worker.instanceId = "" ∨ worker.blockSize = 0 ∨ worker.fingerprint = some "" ∨
          worker.instanceId ∈ instances ∨ trimEndSlashes inference ∈ urls then
        throw "LMCache workers require unique URLs/instance IDs and a positive block size"
      validateWorkers parse (worker.instanceId :: instances) (trimEndSlashes inference :: urls) rest

def validate (parse : String → Option ParsedUrl) (config : ServiceConfig) :
    Except String Unit := do
  validateUrl parse config.rendererBaseUrl
  if config.model = "" ∨ config.fingerprint = some "" then
    throw "LMCache model and supplied fingerprint must not be empty"
  validateWorkers parse [] [] config.workers

def worker (config : ServiceConfig) (url : String) : Option ControllerWorker :=
  (config.workers.find? fun e => trimEndSlashes e.1 = trimEndSlashes url).map Prod.snd

end ServiceConfig

/-! ## Lookups -/

/-- A reply of a controller: its status, its identity headers, and its body if it decodes. -/
structure ControllerReply (α : Type) where
  success : Bool
  workerId : Option String
  engineEpoch : Option String
  body : Option α

/-- The replies to `/lookup` and `/health`; `none` is a failed transport. -/
structure Exchange where
  /-- For an instance, where its copy of the prefix lies, and how long that prefix is. -/
  lookup : Option (ControllerReply (Table String (String × Nat)))
  /-- The error codes. -/
  health : Option (ControllerReply (Table String Int))
  started : Nat

structure Observation where
  metadata : WorkerMetadata
  evidence : PrefixEvidence
  started : Nat

/-- The age of the evidence counts from the start of the lookup. -/
def Observation.evidenceAt (o : Observation) (now : Nat) : PrefixEvidence :=
  match o.evidence with
  | .lmCacheObserved tokens cachedTokens instanceId location engineEpoch _ =>
    .lmCacheObserved tokens cachedTokens instanceId location engineEpoch
      (min (now - o.started) maxUsize)
  | evidence => evidence

inductive ObserveError
  | reason (text : String)
  /-- A division by a block size of zero. -/
  | panicked
  deriving DecidableEq

def localCpuBackend : String := "LocalCPUBackend"

/-- The epoch in the headers, if they are those of the instance. -/
def replyIdentity {α : Type} (instanceId : String) (reply : ControllerReply α) : Option String :=
  match reply.workerId, reply.engineEpoch with
  | some id, some epoch => if id = instanceId ∧ epoch ≠ "" then some epoch else none
  | _, _ => none

/-- The prefix used for routing: whole blocks, and never the last token. -/
def routedPrefix (cachedTokens promptLength blockSize : Nat) : Nat :=
  min cachedTokens (promptLength - 1) / blockSize * blockSize

/-- What two well-formed replies give. -/
def observation (config : ServiceConfig) (worker : ControllerWorker) (tokens : List Nat)
    (epoch : Option String) (location : String) (cachedTokens started : Nat) :
    Except ObserveError Observation :=
  if location ≠ localCpuBackend then .error (.reason "unsupported_cache_tier")
  else if cachedTokens > tokens.length then .error (.reason "invalid_lookup_prefix")
  else if worker.blockSize = 0 then .error .panicked
  else
    .ok
      { metadata :=
          { workerId := worker.instanceId
            model := config.model
            fingerprint := worker.fingerprint.getD ""
            engineEpoch := epoch.getD ""
            blockSize := worker.blockSize }
        evidence :=
          .lmCacheObserved (routedPrefix cachedTokens tokens.length worker.blockSize) cachedTokens
            worker.instanceId location epoch 0
        started }

def observe (config : ServiceConfig) (worker : ControllerWorker) (tokens : List Nat)
    (exchange : Exchange) : Except ObserveError Observation :=
  match exchange.lookup, exchange.health with
  | none, _ => .error (.reason "lookup_transport_error")
  | _, none => .error (.reason "health_transport_error")
  | some lookup, some health =>
    if ¬ lookup.success ∨ ¬ health.success then .error (.reason "controller_http_error")
    else
      -- both replies must agree on the engine
      let epoch := (replyIdentity worker.instanceId lookup).filter fun epoch =>
        replyIdentity worker.instanceId health = some epoch
      match health.body with
      | none => .error (.reason "invalid_controller_health")
      | some errorCodes =>
        if errorCodes.size ≠ 1 ∨ errorCodes.get? "0" ≠ some 0 then
          .error (.reason "unavailable_controller_instance")
        else
          match lookup.body with
          | none => .error (.reason "invalid_lookup")
          | some layoutInfo =>
            let (location, cachedTokens) :=
              (layoutInfo.get? worker.instanceId).getD (localCpuBackend, 0)
            observation config worker tokens epoch location cachedTokens exchange.started

/-- The lookup of one worker; only a good answer counts. -/
def ServiceConfig.lookupWorker (config : ServiceConfig) (tokens : List Nat)
    (exchange : String → Exchange) (observations : Table String Observation)
    (w : State.WorkerView) : Table String Observation :=
  match config.worker w.url with
  | none => observations
  | some configured =>
    match observe config configured tokens (exchange w.url) with
    | .ok o => observations.insert w.url o
    | .error _ => observations

/-- The available workers are looked up with their controllers. -/
def ServiceConfig.lookupWorkers (config : ServiceConfig) (workers : List State.WorkerView)
    (features : RequestFeatures) (exchange : String → Exchange) : Table String Observation :=
  match features.tokens with
  | none => .empty
  | some tokens =>
    (workers.filter fun w => w.available).foldl (config.lookupWorker tokens exchange) .empty

/-! ## The numbers of an observation -/

/-- A positive block size of every worker is part of the validation. -/
theorem blockSize_pos_of_validateWorkers (parse : String → Option ParsedUrl)
    (workers : List (String × ControllerWorker)) :
    ∀ instances urls, ServiceConfig.validateWorkers parse instances urls workers = .ok () →
      ∀ e ∈ workers, 0 < e.2.blockSize := by
  induction workers with
  | nil => intro _ _ _ e he; cases he
  | cons entry rest ih =>
    intro instances urls h
    unfold ServiceConfig.validateWorkers at h
    obtain ⟨_, _, h⟩ := bind_eq_ok_iff.mp h
    obtain ⟨_, _, h⟩ := bind_eq_ok_iff.mp h
    split at h
    · cases h
    · next hworker => grind

variable {config : ServiceConfig} {url : String} {worker : ControllerWorker} {o : Observation}

theorem blockSize_pos_of_validate {parse : String → Option ParsedUrl}
    (h : config.validate parse = .ok ()) (hworker : config.worker url = some worker) :
    0 < worker.blockSize := by
  unfold ServiceConfig.validate at h
  obtain ⟨_, _, h⟩ := bind_eq_ok_iff.mp h
  split at h
  · cases h
  · obtain ⟨e, he, rfl⟩ := Option.map_eq_some_iff.mp hworker
    exact blockSize_pos_of_validateWorkers parse config.workers [] [] h e
      (List.mem_of_find?_eq_some he)

theorem routedPrefix_le (cachedTokens promptLength blockSize : Nat) :
    routedPrefix cachedTokens promptLength blockSize ≤ min cachedTokens (promptLength - 1) :=
  Nat.div_mul_le_self _ _

/-- Evidence from a controller, with numbers that fit the prompt: whole blocks, no more than is
cached, and not the last token. An empty prompt has nothing cached. -/
structure ControllerNumbers (prompt : List Nat) (info : WorkerMetadata)
    (tokens cachedTokens : Nat) : Prop where
  positive : 0 < info.blockSize
  wholeBlocks : info.blockSize ∣ tokens
  leCached : tokens ≤ cachedTokens
  cachedLe : cachedTokens ≤ prompt.length
  lt : prompt ≠ [] → tokens < prompt.length

theorem observation_spec {tokens : List Nat} {epoch : Option String} {location : String}
    {cachedTokens started : Nat}
    (h : observation config worker tokens epoch location cachedTokens started = .ok o) :
    o.evidence = .lmCacheObserved (routedPrefix cachedTokens tokens.length worker.blockSize)
        cachedTokens worker.instanceId location epoch 0 ∧
      ControllerNumbers tokens o.metadata
        (routedPrefix cachedTokens tokens.length worker.blockSize) cachedTokens := by
  unfold observation at h
  split at h
  · cases h
  · split at h
    · cases h
    · next hcached =>
      split at h
      · cases h
      · next hblock =>
        cases h
        have hle := routedPrefix_le cachedTokens tokens.length worker.blockSize
        refine ⟨rfl, Nat.pos_of_ne_zero hblock, Dvd.intro_left _ rfl, by omega, by omega,
          fun hne => ?_⟩
        have := List.length_pos_iff.mpr hne
        omega

/-- A lookup fails for a reason, or is settled by the two replies. -/
theorem observe_cases (config : ServiceConfig) (worker : ControllerWorker) (tokens : List Nat)
    (exchange : Exchange) :
    (∃ text, observe config worker tokens exchange = .error (.reason text)) ∨
      ∃ epoch location cachedTokens, observe config worker tokens exchange
        = observation config worker tokens epoch location cachedTokens exchange.started := by
  unfold observe
  split
  · exact Or.inl ⟨_, rfl⟩
  · exact Or.inl ⟨_, rfl⟩
  · split
    · exact Or.inl ⟨_, rfl⟩
    · dsimp only
      split
      · exact Or.inl ⟨_, rfl⟩
      · split
        · exact Or.inl ⟨_, rfl⟩
        · split
          · exact Or.inl ⟨_, rfl⟩
          · exact Or.inr ⟨_, _, _, rfl⟩

/-- What `observe` accepts has numbers that fit. -/
theorem observe_spec {tokens : List Nat} {exchange : Exchange}
    (h : observe config worker tokens exchange = .ok o) :
    ∃ reusable cachedTokens instanceId location epoch,
      o.evidence = .lmCacheObserved reusable cachedTokens instanceId location epoch 0 ∧
      ControllerNumbers tokens o.metadata reusable cachedTokens := by
  rcases observe_cases config worker tokens exchange with ⟨_, herror⟩ | ⟨_, _, _, hobservation⟩
  · rw [herror] at h
    cases h
  · rw [hobservation] at h
    exact ⟨_, _, _, _, _, observation_spec h⟩

/-- Under a validated configuration no lookup divides by zero. -/
theorem observe_ne_panicked {parse : String → Option ParsedUrl}
    (hconfig : config.validate parse = .ok ()) (hworker : config.worker url = some worker)
    (tokens : List Nat) (exchange : Exchange) :
    observe config worker tokens exchange ≠ .error .panicked := by
  have hblock := (blockSize_pos_of_validate hconfig hworker).ne'
  intro h
  rcases observe_cases config worker tokens exchange with ⟨_, herror⟩ | ⟨_, _, _, hobservation⟩
  · rw [herror] at h
    cases h
  · rw [hobservation] at h
    unfold observation at h
    split at h
    · cases h
    · grind

/-- Every observation of the lookups comes from a reply that `observe` accepts. -/
theorem lookupWorkers_spec {workers : List State.WorkerView} {features : RequestFeatures}
    {exchange : String → Exchange}
    (h : (config.lookupWorkers workers features exchange).get? url = some o) :
    ∃ tokens worker, features.tokens = some tokens ∧
      observe config worker tokens (exchange url) = .ok o := by
  unfold ServiceConfig.lookupWorkers at h
  split at h
  · cases h
  · next tokens htokens =>
    -- the invariant of the loop: what is in the table was observed
    have hloop : ∀ (ws : List State.WorkerView) (observations : Table String Observation),
        (∀ o, observations.get? url = some o →
          ∃ worker, observe config worker tokens (exchange url) = .ok o) →
        ∀ o, (ws.foldl (config.lookupWorker tokens exchange) observations).get? url = some o →
          ∃ worker, observe config worker tokens (exchange url) = .ok o := by
      intro ws
      induction ws with
      | nil => exact fun _ hinv => hinv
      | cons w ws ih => grind [ServiceConfig.lookupWorker, Table.get?_insert]
    obtain ⟨worker, hobserve⟩ := hloop _ Table.empty (fun o ho => by cases ho) o h
    exact ⟨tokens, worker, htokens, hobserve⟩

/-! ## The numbers of an index -/

theorem matchBlocks_spec (index : Telemetry.KvIndex) (blockSize : Nat)
    (blocks : List (List Nat)) (parents : List (Option String)) :
    blockSize ∣ matchBlocks index blockSize parents blocks ∧
      matchBlocks index blockSize parents blocks ≤ blocks.length * blockSize := by
  induction blocks generalizing parents with
  | nil => simp [matchBlocks]
  | cons block rest ih =>
    unfold matchBlocks
    dsimp only
    split
    · exact ⟨Nat.dvd_zero _, Nat.zero_le _⟩
    · obtain ⟨hdvd, hle⟩ := ih (parents.flatMap fun parent =>
        ((index.edges.get? (parent, block)).getD []).map some)
      refine ⟨(Nat.dvd_add_right (Nat.dvd_refl _)).mpr hdvd, ?_⟩
      rw [List.length_cons, Nat.succ_mul]
      omega

/-- What an index says is reusable: whole blocks, and never the last token. -/
theorem reusableTokens_spec (index : Telemetry.KvIndex) (tokens : List Nat) (blockSize : Nat) :
    blockSize ∣ reusableTokens index tokens blockSize ∧
      reusableTokens index tokens blockSize ≤ tokens.length - 1 := by
  unfold reusableTokens
  split
  · exact ⟨Nat.dvd_zero _, Nat.zero_le _⟩
  · obtain ⟨hdvd, hle⟩ := matchBlocks_spec index blockSize
      (chunksExact blockSize (tokens.take (tokens.length - 1))) [none]
    refine ⟨hdvd, hle.trans ?_⟩
    have hblocks : (chunksExact blockSize (tokens.take (tokens.length - 1))).length
        = (tokens.length - 1) / blockSize := by
      simp [chunksExact]
    rw [hblocks]
    exact Nat.div_mul_le_self _ _

end CodexRouter.Routing
