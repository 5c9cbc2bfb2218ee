import CodexRouter.Lib.Json
import CodexRouter.Lib.Outcome
import CodexRouter.Lib.Table

set_option autoImplicit false

/-! # Two-stage requests of the vLLM router

`router/src/routers/http/vllm_pd_router.rs`, `process_vllm_two_stage_request`: a request is sent
to a prefill worker and then, with what the prefill returned, to a decode worker. Each worker's
load counter is raised for its own stage, by hand, around many early returns.

A computation ends with a response, with an error of the router, or with a panic: assigning to a
key of a JSON value that is neither an object nor null panics, and a panic is not a return. What
the awaited calls give is an argument, `Awaited`. Metrics, logs and the profiling calls are left
out: they do not touch the loads, and nothing here reads them.
-/

namespace CodexRouter.Routers

open Lib

/-! ## Requests as JSON -/

/-- `value[key] = item`; `none` is the panic on a value that has no keys. -/
def setKey (value : Json) (key : String) (item : Json) : Option Json :=
  match value with
  | .null => some (.obj [(key, item)])
  | .obj members =>
    if members.any (·.1 = key) then
      some (.obj (members.map fun m => if m.1 = key then (key, item) else m))
    else some (.obj (members ++ [(key, item)]))
  | _ => none

def bool? : Json → Option Bool
  | .bool b => some b
  | _ => none

/-- `min_tokens` may not exceed the one token of the prefill. -/
def capMinTokens (value : Json) : Option Json :=
  match (value.get? "min_tokens").bind Json.u64? with
  | some minTokens => if minTokens > 1 then setKey value "min_tokens" (.int 1) else some value
  | none => some value

def removeStreamOptions : Json → Json
  | .obj members => .obj (members.filter fun m => m.1 ≠ "stream_options")
  | value => value

def hasSubstr (text part : String) : Bool :=
  text.toList.tails.any fun rest => part.toList.isPrefixOf rest

/-- The request limited to one token, and not streaming. -/
def preparePrefillRequest (request : Json) (path : String) : Option Json := do
  let request ←
    if hasSubstr path "inference/v1/generate" then
      match request.get? "sampling_params" with
      | some samplingParams => do
          let samplingParams ← setKey samplingParams "max_tokens" (.int 1)
          let samplingParams ← capMinTokens samplingParams
          setKey request "sampling_params" samplingParams
      | none =>
        setKey request "sampling_params" (.obj [("max_tokens", .int 1), ("min_tokens", .int 1)])
    else if hasSubstr path "/v1/responses" then
      setKey request "max_output_tokens" (.int 1)
    else do
      let request ← setKey request "max_tokens" (.int 1)
      let request ←
        if (request.get? "max_completion_tokens").isSome then
          setKey request "max_completion_tokens" (.int 1)
        else some request
      capMinTokens request
  let request ← setKey request "stream" (.bool false)
  return removeStreamOptions request

/-! ## The router and its workers -/

inductive KvConnector
  | nixl
  | mooncake
  | moriio
  deriving DecidableEq

inductive MoriioTransferMode
  | read
  | write
  deriving DecidableEq

inductive ServiceType
  | prefill
  | decode
  deriving DecidableEq

structure ServiceInstance where
  zmqAddress : String
  tpSize : Nat
  dpSize : Nat

structure MooncakePrefillInfo where
  bootstrapAddr : String
  dpEngineIds : Table Nat String

structure VllmPdRouter where
  kvConnector : KvConnector
  /-- Set by the first MoRI-IO instance that registers. -/
  moriioTransferMode : Option MoriioTransferMode
  instances : ServiceType → Table String ServiceInstance
  mooncakePrefillInfo : Table String MooncakePrefillInfo
  intraNodeDataParallelSize : Nat

/-- A worker object: `object` tells two allocations apart. -/
structure PdWorker where
  object : Nat
  baseUrl : String
  dpRank : Option Nat

def PdWorker.endpointUrl (w : PdWorker) (route : String) : String := w.baseUrl ++ route

variable (r : VllmPdRouter)

namespace VllmPdRouter

def getTpDpSize (httpAddress : String) (serviceType : ServiceType) : Nat × Nat :=
  (((r.instances serviceType).get? httpAddress).map fun i => (i.tpSize, i.dpSize)).getD (1, 1)

/-- Without a registration the HTTP address stands for the ZMQ address. -/
def getZmqAddress (httpUrl : String) (serviceType : ServiceType) : String :=
  let httpAddress := (httpUrl.replace "http://" "").replace "https://" ""
  match (r.instances serviceType).get? httpAddress with
  | some i => i.zmqAddress
  | none => httpAddress

def generateVllmRequestId (prefillAddr decodeAddr uuid : String) : String :=
  "___prefill_addr_" ++ prefillAddr ++ "___decode_addr_" ++ decodeAddr ++ "_" ++
    uuid.replace "-" ""

def generateTransferId (uuid : String) : Option String :=
  match r.kvConnector with
  | .mooncake => some ("xfer-" ++ uuid)
  | .moriio => some ("tx-" ++ uuid.replace "-" "")
  | .nixl => none

def noTransferMode : String :=
  "No MoRI-IO instances have registered a transfer mode; " ++
    "cannot dispatch request without knowing READ vs WRITE mode"

def buildPrefillKvTransferParams (transferId decodeBase : Option String)
    (decodeDpRank : Option Nat) : Except String Json :=
  match r.kvConnector with
  | .mooncake =>
    .ok (.obj [("do_remote_decode", .bool true), ("do_remote_prefill", .bool false),
      ("transfer_id", .str (transferId.getD ""))])
  | .moriio =>
    match r.moriioTransferMode with
    | none => .error noTransferMode
    | some .write =>
      let remoteTpSize :=
        (decodeBase.map fun base => (r.getTpDpSize base .decode).1).getD 1
      .ok (.obj ([("do_remote_decode", .bool true), ("do_remote_prefill", .bool false),
        ("remote_engine_id", .null), ("remote_block_ids", .null),
        ("remote_dp_size", .int r.intraNodeDataParallelSize),
        ("remote_tp_size", .int remoteTpSize), ("transfer_id", .str (transferId.getD ""))] ++
        if r.intraNodeDataParallelSize > 1 then
          [("remote_dp_rank", .int (decodeDpRank.getD 0))] else []))
    | some .read =>
      .ok (.obj [("do_remote_decode", .bool true), ("do_remote_prefill", .bool false),
        ("remote_engine_id", .null), ("remote_block_ids", .null),
        ("transfer_id", .str (transferId.getD "")),
        ("remote_dp_size", .int r.intraNodeDataParallelSize)])
  | .nixl =>
    .ok (.obj [("do_remote_decode", .bool true), ("do_remote_prefill", .bool false),
      ("remote_engine_id", .null), ("remote_block_ids", .null), ("remote_host", .null),
      ("remote_port", .null)])

def buildMooncakeDecodeKvTransferParams (transferId bootstrapAddr engineId : String) : Json :=
  .obj [("do_remote_decode", .bool false), ("do_remote_prefill", .bool true),
    ("transfer_id", .str transferId), ("remote_bootstrap_addr", .str bootstrapAddr),
    ("remote_engine_id", .str engineId)]

/-- The engine of the rank, or else the first one there is. -/
def getMooncakeInfo (prefillUrl : String) (dpRank : Option Nat) : Option (String × String) := do
  let info ← r.mooncakePrefillInfo.get? prefillUrl
  let engineId ← (info.dpEngineIds.get? (dpRank.getD 0)).or info.dpEngineIds.values.head?
  return (info.bootstrapAddr, engineId)

end VllmPdRouter

/-! ## The computation -/

/-- The load counter of each worker object. -/
abbrev Loads := Nat → Nat

inductive PdRouterError
  | invalidConfiguration (reason : String)
  | networkError (message : String)
  deriving DecidableEq

inductive Exit
  | error (e : PdRouterError)
  | panicked
  deriving DecidableEq

abbrev TwoStage := ExceptT Exit (StateM Loads)

def incrementLoad (w : PdWorker) : TwoStage PUnit :=
  modify fun loads => Function.update loads w.object (loads w.object + 1)

/-- `checked_sub`: a counter at zero stays there. -/
def decrementLoad (w : PdWorker) : TwoStage PUnit :=
  modify fun loads => Function.update loads w.object (loads w.object - 1)

def orPanic {α : Type} : Option α → TwoStage α
  | some a => pure a
  | none => throw .panicked

def networkError {α : Type} (message : String) : TwoStage α :=
  throw (.error (.networkError message))

/-- A request as it is posted; the rank goes into a header. -/
structure Posted where
  url : String
  requestId : String
  dpRank : Option Nat
  body : Json

/-- A reply with its status and headers; the body is read later, which may fail. -/
structure Reply where
  status : Nat
  headers : List (String × String)
  bytes : Except String (List UInt8)

inductive Body
  | bytes (content : List UInt8)
  | stream (content : Except String (List UInt8))

structure Response where
  status : Nat
  headers : List (String × String)
  body : Body

/-- What the calls that are awaited and the libraries give. -/
structure Awaited where
  requestUuid : String
  transferUuid : String
  prefill : Posted → Except String Reply
  decode : Posted → Except String Reply
  fromSlice : List UInt8 → Except String Json
  toVec : Json → Except String (List UInt8)
  mergeLogprobsInJson : Json → Json → Json
  build : Response → Except String Response

/-- What the first stage hands to the second. -/
structure Prefilled where
  requestId : String
  transferId : Option String
  responseJson : Json

variable (env : Awaited) (originalRequest : Json) (prefillWorker decodeWorker : PdWorker)
  (path : String) (prefilled : Prefilled)

/-- The first stage, up to the parsed response of the prefill worker. -/
def prefillStage : TwoStage Prefilled := do
  incrementLoad prefillWorker
  let prefillZmqAddr := r.getZmqAddress prefillWorker.baseUrl .prefill
  let decodeZmqAddr := r.getZmqAddress decodeWorker.baseUrl .decode
  let requestId :=
    VllmPdRouter.generateVllmRequestId prefillZmqAddr decodeZmqAddr env.requestUuid
  let prefillRequest ← orPanic (preparePrefillRequest originalRequest path)
  let transferId := r.generateTransferId env.transferUuid
  match r.buildPrefillKvTransferParams transferId (some decodeWorker.baseUrl)
      decodeWorker.dpRank with
  | .error reason => throw (.error (.invalidConfiguration reason))
  | .ok params =>
    let prefillRequest ← orPanic (setKey prefillRequest "kv_transfer_params" params)
    let prefillUrl := prefillWorker.endpointUrl path
    match env.prefill ⟨prefillUrl, requestId, prefillWorker.dpRank, prefillRequest⟩ with
    | .error e =>
      decrementLoad prefillWorker
      networkError ("Prefill request failed to " ++ prefillUrl ++ ": " ++ e)
    | .ok reply =>
      match reply.bytes with
      | .error e =>
        decrementLoad prefillWorker
        networkError ("Failed to read prefill response from " ++ prefillUrl ++ ": " ++ e)
      | .ok bytes =>
        match env.fromSlice bytes with
        | .error e =>
          decrementLoad prefillWorker
          networkError ("Failed to parse prefill response as JSON: " ++ e)
        | .ok responseJson => return ⟨requestId, transferId, responseJson⟩

/-- The MoRI-IO decode connector has to know how many prefill ranks there are. -/
def addRemoteDpSize (params : Json) : TwoStage Json :=
  if r.kvConnector = .moriio then
    orPanic (setKey params "remote_dp_size" (.int r.intraNodeDataParallelSize))
  else pure params

/-- The decode request: the original one with the parameters of the transfer, if any. -/
def prepareDecodeRequest : TwoStage Json :=
  match r.kvConnector with
  | .mooncake =>
    match r.getMooncakeInfo prefillWorker.baseUrl prefillWorker.dpRank with
    | some (bootstrapAddr, engineId) =>
      orPanic (setKey originalRequest "kv_transfer_params"
        (VllmPdRouter.buildMooncakeDecodeKvTransferParams (prefilled.transferId.getD "")
          bootstrapAddr engineId))
    | none => pure originalRequest
  | _ =>
    match prefilled.responseJson.get? "kv_transfer_params" with
    | some params => do
        let params ← addRemoteDpSize r params
        orPanic (setKey originalRequest "kv_transfer_params" params)
    | none => pure originalRequest

/-- The second stage, up to the head of the decode worker's reply. -/
def decodeStage : TwoStage Reply := do
  let decodeRequest ← prepareDecodeRequest r originalRequest prefillWorker prefilled
  let decodeUrl := decodeWorker.endpointUrl path
  match env.decode ⟨decodeUrl, prefilled.requestId, decodeWorker.dpRank, decodeRequest⟩ with
  | .error e =>
    decrementLoad decodeWorker
    networkError ("Decode request failed to " ++ decodeUrl ++ ": " ++ e)
  | .ok reply => return reply

def keptHeaders (headers : List (String × String)) : List (String × String) :=
  headers.filter fun h => h.1 ≠ "transfer-encoding" ∧ h.1 ≠ "content-length"

/-- The response: the merged one if log probabilities are asked for and the request does not
stream, otherwise the reply as it comes. -/
def respond (env : Awaited) (originalRequest : Json) (decodeUrl : String) (prefilled : Prefilled)
    (reply : Reply) : TwoStage Response :=
  let needsLogprobs := (originalRequest.get? "logprobs").isSome ||
    ((originalRequest.get? "echo").bind bool?).getD false
  let isStreaming := ((originalRequest.get? "stream").bind bool?).getD false
  let build (body : Body) : TwoStage Response :=
    match env.build ⟨reply.status, keptHeaders reply.headers, body⟩ with
    | .ok response => return response
    | .error e => networkError ("Failed to build response from " ++ decodeUrl ++ ": " ++ e)
  if needsLogprobs && !isStreaming then
    match reply.bytes with
    | .error e => networkError ("Failed to read decode response from " ++ decodeUrl ++ ": " ++ e)
    | .ok decodeBody =>
      match env.fromSlice decodeBody with
      | .error e => networkError ("Failed to parse decode response as JSON: " ++ e)
      | .ok decodeJson =>
        match env.toVec (env.mergeLogprobsInJson prefilled.responseJson decodeJson) with
        | .error e => networkError ("Failed to serialize merged response: " ++ e)
        | .ok mergedBody => build (.bytes mergedBody)
  else build (.stream reply.bytes)

def processVllmTwoStageRequest : TwoStage Response := do
  let prefilled ← prefillStage r env originalRequest prefillWorker decodeWorker path
  decrementLoad prefillWorker
  incrementLoad decodeWorker
  let reply ← decodeStage r env originalRequest prefillWorker decodeWorker path prefilled
  decrementLoad decodeWorker
  respond env originalRequest (decodeWorker.endpointUrl path) prefilled reply

/-! ## Loads along the stages -/

/-- The loads with the worker's counter raised by one. -/
def raised (w : PdWorker) (loads : Loads) : Loads :=
  Function.update loads w.object (loads w.object + 1)

theorem outcome_incrementLoad (w : PdWorker) (loads : Loads) :
    outcome (incrementLoad w) loads = (.ok ⟨⟩, raised w loads) := rfl

/-- Lowering a raised counter gives the loads back. -/
theorem outcome_decrementLoad_raised (w : PdWorker) (loads : Loads) :
    outcome (decrementLoad w) (raised w loads) = (.ok ⟨⟩, loads) := by
  have hback : Function.update (raised w loads) w.object (raised w loads w.object - 1)
      = loads := by
    funext object
    by_cases h : object = w.object <;> simp [raised, Function.update, h]
  exact congrArg (Prod.mk (Except.ok PUnit.unit)) hback

theorem raised_ne (w : PdWorker) (loads : Loads) : raised w loads w.object ≠ loads w.object := by
  simp [raised]

theorem ends_orPanic {α β : Type} {o : Option α} {f : α → TwoStage β} {loads : Loads}
    {Q : Except Exit β → Loads → Prop} (hok : ∀ a, Ends (f a) loads Q)
    (hpanic : Q (.error .panicked) loads) : Ends (orPanic o >>= f) loads Q := by
  cases o with
  | none => exact hpanic
  | some a => exact hok a

/-- The error path that lowers the counter it has raised. -/
theorem ends_decrement_networkError {α : Type} (w : PdWorker) (loads : Loads) (message : String)
    {Q : Except Exit α → Loads → Prop} (h : Q (.error (.error (.networkError message))) loads) :
    Ends (decrementLoad w >>= fun _ => networkError message) (raised w loads) Q :=
  Ends.bind_of_ok (outcome_decrementLoad_raised w loads) h

/-- The router works with MoRI-IO, and no instance has registered its transfer mode. -/
def Unregistered : Prop :=
  r.kvConnector = .moriio ∧ r.moriioTransferMode = none

instance : Decidable (Unregistered r) :=
  inferInstanceAs (Decidable (_ ∧ _))

section Params

variable {r} {transferId decodeBase : Option String} {decodeDpRank : Option Nat}

theorem buildPrefillKvTransferParams_error {reason : String}
    (h : r.buildPrefillKvTransferParams transferId decodeBase decodeDpRank = .error reason) :
    Unregistered r := by
  grind [VllmPdRouter.buildPrefillKvTransferParams, Unregistered]

theorem buildPrefillKvTransferParams_ok {params : Json}
    (h : r.buildPrefillKvTransferParams transferId decodeBase decodeDpRank = .ok params) :
    ¬ Unregistered r := by
  rintro ⟨hconnector, hmode⟩
  simp [VllmPdRouter.buildPrefillKvTransferParams, hconnector, hmode] at h

end Params

/-- What a stage that began with `loads` and raised the counter of `w` leaves. -/
def StageLeaves {α : Type} (r : VllmPdRouter) (w : PdWorker) (loads : Loads) :
    Except Exit α → Loads → Prop
  | .ok _, loads' => loads' = raised w loads ∧ ¬ Unregistered r
  | .error (.error (.invalidConfiguration _)), loads' => loads' = raised w loads ∧ Unregistered r
  | .error (.error (.networkError _)), loads' => loads' = loads ∧ ¬ Unregistered r
  | .error .panicked, _ => True

variable (loads : Loads)

theorem prefillStage_leaves :
    Ends (prefillStage r env originalRequest prefillWorker decodeWorker path) loads
      (StageLeaves r prefillWorker loads) := by
  refine Ends.bind_of_ok (outcome_incrementLoad prefillWorker loads) ?_
  refine ends_orPanic (fun prefillRequest => ?_) trivial
  dsimp only
  split
  · next hparams => exact ⟨rfl, buildPrefillKvTransferParams_error hparams⟩
  · next hparams =>
    have hreg := buildPrefillKvTransferParams_ok hparams
    refine ends_orPanic (fun prefillRequest => ?_) trivial
    -- each of the three failures lowers the counter again
    split
    · exact ends_decrement_networkError _ _ _ ⟨rfl, hreg⟩
    · split
      · exact ends_decrement_networkError _ _ _ ⟨rfl, hreg⟩
      · split
        · exact ends_decrement_networkError _ _ _ ⟨rfl, hreg⟩
        · exact ⟨rfl, hreg⟩

/-- The loads are untouched, and the only failure is a panic. -/
def Untouched (loads : Loads) (res : Except Exit Json) (loads' : Loads) : Prop :=
  loads' = loads ∧ ∀ e, res = .error e → e = .panicked

theorem ends_pure_untouched (value : Json) :
    Ends (pure value : TwoStage Json) loads (Untouched loads) :=
  ⟨rfl, fun e he => by cases he⟩

theorem ends_orPanic_untouched (o : Option Json) :
    Ends (orPanic o) loads (Untouched loads) := by
  cases o with
  | none => exact ⟨rfl, fun e he => by cases he; rfl⟩
  | some value => exact ends_pure_untouched loads value

theorem addRemoteDpSize_ends (params : Json) :
    Ends (addRemoteDpSize r params) loads (Untouched loads) := by
  unfold addRemoteDpSize
  split
  · exact ends_orPanic_untouched loads _
  · exact ends_pure_untouched loads params

theorem prepareDecodeRequest_ends :
    Ends (prepareDecodeRequest r originalRequest prefillWorker prefilled) loads
      (Untouched loads) := by
  unfold prepareDecodeRequest
  split
  · split
    · exact ends_orPanic_untouched loads _
    · exact ends_pure_untouched loads originalRequest
  · split
    · refine Ends.bind (addRemoteDpSize_ends r loads _) ?_ ?_
      · rintro params loads' ⟨rfl, _⟩
        exact ends_orPanic_untouched loads' _
      · grind
    · exact ends_pure_untouched loads originalRequest

/-- From raised loads, the second stage ends with a reply and the loads still raised, or with
an error and the loads it began with. -/
theorem decodeStage_leaves (hreg : ¬ Unregistered r) :
    Ends (decodeStage r env originalRequest prefillWorker decodeWorker path prefilled)
      (raised decodeWorker loads) (StageLeaves r decodeWorker loads) := by
  refine Ends.bind (prepareDecodeRequest_ends ..) ?_ ?_
  · rintro decodeRequest loads' ⟨rfl, _⟩
    dsimp only
    split
    · exact ends_decrement_networkError _ _ _ ⟨rfl, hreg⟩
    · exact ⟨rfl, hreg⟩
  · rintro e loads' ⟨_, he⟩
    rw [he e rfl]
    trivial

/-- Making the response leaves the loads. -/
theorem respond_ends (decodeUrl : String) (reply : Reply) :
    Ends (respond env originalRequest decodeUrl prefilled reply) loads
      (fun _ loads' => loads' = loads) := by
  unfold respond
  dsimp only
  split
  · split
    · rfl
    · split
      · rfl
      · split
        · rfl
        · split <;> rfl
  · split <;> rfl

/-- A return without a panic leaves the loads as they were, unless the transfer mode is missing:
then the counter of the prefill worker stays raised. -/
def ReturnLeaves {α : Type} (r : VllmPdRouter) (w : PdWorker) (loads : Loads)
    (res : Except Exit α) (loads' : Loads) : Prop :=
  res = .error .panicked ∨ (¬ Unregistered r ∧ loads' = loads) ∨
    (Unregistered r ∧ loads' = raised w loads)

theorem processVllmTwoStageRequest_leaves :
    Ends (processVllmTwoStageRequest r env originalRequest prefillWorker decodeWorker path) loads
      (ReturnLeaves r prefillWorker loads) := by
  refine Ends.bind (prefillStage_leaves ..) ?_ ?_
  · rintro prefilled loads' ⟨rfl, hreg⟩
    -- between the stages the first counter goes down and the second goes up
    refine Ends.bind_of_ok (outcome_decrementLoad_raised prefillWorker loads) ?_
    refine Ends.bind_of_ok (outcome_incrementLoad decodeWorker loads) ?_
    refine Ends.bind (decodeStage_leaves r _ _ _ _ _ _ _ hreg) ?_ ?_
    · rintro reply loads' ⟨rfl, _⟩
      refine Ends.bind_of_ok (outcome_decrementLoad_raised decodeWorker loads) ?_
      exact Or.inr (Or.inl ⟨hreg, respond_ends ..⟩)
    · rintro (_ | _) loads' h
      · rename_i e
        cases e with
        | invalidConfiguration reason => exact absurd h.2 hreg
        | networkError message => exact Or.inr (Or.inl ⟨hreg, h.1⟩)
      · exact Or.inl rfl
  · rintro (e | _) loads' h
    · cases e with
      | invalidConfiguration reason => exact Or.inr (Or.inr ⟨h.2, h.1⟩)
      | networkError message => exact Or.inr (Or.inl ⟨h.2, h.1⟩)
    · exact Or.inl rfl

/-- **Every return leaves both load counters as they were, exactly unless the router works with
MoRI-IO and no instance has registered its transfer mode.** -/
theorem loads_restored_iff (r : VllmPdRouter) (env : Awaited) (originalRequest : Json)
    (prefillWorker decodeWorker : PdWorker) (path : String) (loads : Loads)
    (hreturn : (outcome (processVllmTwoStageRequest r env originalRequest prefillWorker
      decodeWorker path) loads).1 ≠ .error .panicked) :
    ((outcome (processVllmTwoStageRequest r env originalRequest prefillWorker
        decodeWorker path) loads).2 prefillWorker.object = loads prefillWorker.object ∧
      (outcome (processVllmTwoStageRequest r env originalRequest prefillWorker
        decodeWorker path) loads).2 decodeWorker.object = loads decodeWorker.object)
      ↔ ¬ (r.kvConnector = .moriio ∧ r.moriioTransferMode = none) := by
  have hleaves := processVllmTwoStageRequest_leaves r env originalRequest prefillWorker
    decodeWorker path loads
  rcases hleaves with h | ⟨hreg, hloads⟩ | ⟨hreg, hloads⟩
  · exact absurd h hreturn
  · rw [hloads]
    exact iff_of_true ⟨rfl, rfl⟩ hreg
  · rw [hloads]
    exact iff_of_false (fun h => raised_ne prefillWorker loads h.1) (not_not_intro hreg)

/-! ## Two concrete requests -/

/-- A router without any registration. -/
def bareRouter (kvConnector : KvConnector) : VllmPdRouter :=
  ⟨kvConnector, none, fun _ => Table.empty, Table.empty, 1⟩

/-- No worker can be reached. -/
def unreachable : Awaited where
  requestUuid := "0"
  transferUuid := "0"
  prefill _ := .error "connection refused"
  decode _ := .error "connection refused"
  fromSlice _ := .error "EOF"
  toVec _ := .ok []
  mergeLogprobsInJson _ decode := decode
  build := .ok

/-- With NIXL, a prefill worker that cannot be reached gets its count back. -/
theorem loads_restored_iff_unreachable :
    (outcome (processVllmTwoStageRequest (bareRouter .nixl) unreachable (.obj [])
        ⟨0, "http://p", none⟩ ⟨1, "http://d", none⟩ "/v1/completions") fun _ => 0).2 0 = 0 :=
  ((loads_restored_iff (bareRouter .nixl) unreachable (.obj []) ⟨0, "http://p", none⟩
    ⟨1, "http://d", none⟩ "/v1/completions" (fun _ => 0) (fun h => by cases h)).mpr (by decide)).1

/-- **Without a registered transfer mode the request returns an error, and the prefill worker
keeps a load that no request carries.** -/
theorem unregistered_keeps_load :
    (outcome (processVllmTwoStageRequest (bareRouter .moriio) unreachable (.obj [])
        ⟨0, "http://p", none⟩ ⟨1, "http://d", none⟩ "/v1/completions") fun _ => 0).1
      = .error (.error (.invalidConfiguration VllmPdRouter.noTransferMode)) ∧
    (outcome (processVllmTwoStageRequest (bareRouter .moriio) unreachable (.obj [])
        ⟨0, "http://p", none⟩ ⟨1, "http://d", none⟩ "/v1/completions") fun _ => 0).2 0 = 1 :=
  ⟨rfl, rfl⟩

end CodexRouter.Routers
