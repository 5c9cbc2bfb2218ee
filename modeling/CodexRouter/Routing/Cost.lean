import Mathlib.Tactic
import CodexRouter.Lib.Chars

set_option autoImplicit false

/-! # Cost models of the router

`routing_state/cost.rs` and `routing_state/completion.rs`: the estimated completion time (ECT) of a
request on a worker, from measured coefficients. A model that is not calibrated for the request
gives a reason instead. The arithmetic is that of any type with the operations of `f64`; rationals
are one.
-/

namespace CodexRouter.Routing

/-- The operations of `f64` that the routing code uses. Nothing is assumed about them. -/
class FloatLike (F : Type) extends Add F, Sub F, Mul F, Div F, NatCast F, OfScientific F, LT F, LE F
    where
  decLt : DecidableLT F
  decLe : DecidableLE F
  isFinite : F → Bool
  totalCmp : F → F → Ordering

instance (priority := low) decidableLT {F : Type} [FloatLike F] : DecidableLT F := FloatLike.decLt

instance (priority := low) decidableLE {F : Type} [FloatLike F] : DecidableLE F := FloatLike.decLe

/-- Exact arithmetic. -/
instance : FloatLike ℚ where
  decLt := inferInstance
  decLe := inferInstance
  isFinite _ := true
  totalCmp := compare

variable {F : Type} [FloatLike F]

open FloatLike (isFinite)

/-- `[low, high]`. -/
abbrev Range (α : Type) := α × α

/-- The value is not in the range, or the range is no range. -/
def outside (value : Nat) (range : Range Nat) : Bool :=
  range.1 > range.2 ∨ ¬ (range.1 ≤ value ∧ value ≤ range.2)

/-- A coefficient that no calibration can have. -/
def badCoefficient (x : F) : Bool := ¬ isFinite x ∨ x < 0.0

/-! ## The decomposed model -/

structure CostModel (F : Type) where
  fingerprint : String
  calibrationVersion : String
  promptRange : Range Nat
  outputRange : Range Nat
  concurrencyRange : Range Nat
  outputPrior : Nat
  prefill : F × F × F
  decode : F × F × F
  beta : F
  queueMs : F

structure CostEstimate (F : Type) where
  calibrationVersion : String
  uncachedTokens : Nat
  estimatedOutputTokens : Nat
  prefillMs : F
  restoreMs : F
  restoreCalibrationVersion : Option String
  decodeMs : F
  loadMultiplier : F
  queueMs : F
  ectMs : F

def CostModel.coefficients (model : CostModel F) : List F :=
  [model.prefill.1, model.prefill.2.1, model.prefill.2.2, model.decode.1, model.decode.2.1,
    model.decode.2.2, model.beta, model.queueMs]

def CostModel.estimate (model : CostModel F) (fingerprint : String) (prompt reusable : Nat)
    (outputLimit : Option Nat) (inflight : Nat) : Except String (CostEstimate F) :=
  if model.fingerprint ≠ fingerprint ∨ model.calibrationVersion = "" then
    .error "incompatible_cost_model"
  else
    -- the limit of the request only ever lowers the prior
    let output := outputLimit.elim model.outputPrior fun limit => min limit model.outputPrior
    if [(prompt, model.promptRange), (output, model.outputRange),
        (inflight, model.concurrencyRange)].any fun p => outside p.1 p.2 then
      .error "outside_calibration_range"
    else if reusable > prompt ∨ model.outputPrior = 0 ∨ model.coefficients.any badCoefficient then
      .error "invalid_cost_prediction"
    else
      let l : F := (prompt : F)
      let h : F := (reusable : F)
      let o : F := (output : F)
      let prefill := model.prefill.1 + model.prefill.2.1 * (l - h)
        + model.prefill.2.2 * (l * l - h * h)
      let decode := model.decode.1 + model.decode.2.1 * o + model.decode.2.2 * l * o
      let loadMultiplier := 1.0 + model.beta * (inflight : F)
      let ect := (prefill + decode) * loadMultiplier + model.queueMs
      if [prefill, decode, loadMultiplier, ect].any badCoefficient then
        .error "invalid_cost_prediction"
      else
        .ok
          { calibrationVersion := model.calibrationVersion
            uncachedTokens := prompt - reusable
            estimatedOutputTokens := output
            prefillMs := prefill
            restoreMs := 0.0
            restoreCalibrationVersion := none
            decodeMs := decode
            loadMultiplier
            queueMs := model.queueMs
            ectMs := ect }

/-! ## The cost of restoring cached tokens -/

structure RestoreCostModel (F : Type) where
  fingerprint : String
  calibrationVersion : String
  location : String
  tokenRange : Range Nat
  fixedMs : F
  perTokenMs : F

def RestoreCostModel.apply (model : RestoreCostModel F) (fingerprint location : String)
    (tokens : Nat) (cost : CostEstimate F) : Except String (CostEstimate F) :=
  if model.fingerprint ≠ fingerprint ∨ model.location ≠ location ∨ model.calibrationVersion = ""
  then .error "incompatible_restore_model"
  else if ¬ (model.tokenRange.1 ≤ tokens ∧ tokens ≤ model.tokenRange.2) then
    .error "outside_restore_calibration_range"
  else
    let restore := model.fixedMs + model.perTokenMs * (tokens : F)
    if [model.fixedMs, model.perTokenMs, restore].any badCoefficient then
      .error "invalid_restore_prediction"
    else
      let ectMs := cost.ectMs + restore * cost.loadMultiplier
      if ¬ isFinite ectMs then .error "invalid_restore_prediction"
      else
        .ok { cost with
          ectMs
          restoreMs := restore
          restoreCalibrationVersion := some model.calibrationVersion }

/-! ## The completion-time model -/

inductive CompletionModelSource
  | measured
  | estimated
  | synthetic
  deriving DecidableEq

structure CompletionCoefficients (F : Type) where
  interceptMs : F
  promptTokenMs : F
  outputTokenMs : F
  promptOutputTokenMs : F
  cacheTokenMs : F
  routerInflightMs : F
  backendRunningMs : F
  backendWaitingMs : F
  kvUsageMs : F

def CompletionCoefficients.all (c : CompletionCoefficients F) : List F :=
  [c.interceptMs, c.promptTokenMs, c.outputTokenMs, c.promptOutputTokenMs, c.cacheTokenMs,
    c.routerInflightMs, c.backendRunningMs, c.backendWaitingMs, c.kvUsageMs]

structure CompletionModel (F : Type) where
  fingerprint : String
  calibrationVersion : String
  source : CompletionModelSource
  promptRange : Range Nat
  outputRange : Range Nat
  concurrencyRange : Range Nat
  cacheFractionRange : Range F
  backendRunningRange : Range Nat
  backendWaitingRange : Range Nat
  kvUsageRange : Range F
  outputPrior : Nat
  coefficients : CompletionCoefficients F

structure CompletionEstimate (F : Type) where
  calibrationVersion : String
  source : CompletionModelSource
  estimatedOutputTokens : Nat
  cachedTokens : Nat
  routerInflight : Nat
  backendRunning : Nat
  backendWaiting : Nat
  kvUsageFraction : Option F
  cacheCreditMs : F
  backendPressureMs : F
  ectMs : F

/-- A range of fractions that is not within `0..1`. -/
def badFractionRange (range : Range F) : Bool :=
  ¬ isFinite range.1 ∨ ¬ isFinite range.2 ∨ range.1 < 0.0 ∨ range.2 > 1.0 ∨ range.1 > range.2

def inRange (value : F) (range : Range F) : Bool := range.1 ≤ value ∧ value ≤ range.2

/-- The points for the occupancy of the backend's cache. -/
def CompletionModel.kvPressureMs (model : CompletionModel F) :
    Option F → Except String F
  | some usage =>
    if ¬ isFinite usage ∨ ¬ inRange usage (0.0, 1.0) then .error "invalid_backend_kv_usage"
    else if ¬ inRange usage model.kvUsageRange then
      .error "outside_completion_calibration_range"
    else .ok (usage * model.coefficients.kvUsageMs)
  | none =>
    -- a model that does not use the gauge does without it
    if model.coefficients.kvUsageMs > 0.0 then .error "missing_backend_kv_usage" else .ok 0.0

def CompletionModel.estimate (model : CompletionModel F) (fingerprint : String)
    (prompt rawCached : Nat) (outputLimit : Option Nat)
    (inflight backendRunning backendWaiting : Nat) (kvUsageFraction : Option F) :
    Except String (CompletionEstimate F) :=
  if model.fingerprint ≠ fingerprint ∨ model.calibrationVersion.toList.all Lib.isWhitespace then
    .error "incompatible_completion_model"
  else
    let output := outputLimit.elim model.outputPrior fun limit => min limit model.outputPrior
    if prompt = 0 ∨ rawCached > prompt ∨ model.outputPrior = 0 ∨ output = 0 then
      .error "invalid_completion_prediction"
    else if [(prompt, model.promptRange), (output, model.outputRange),
        (inflight, model.concurrencyRange), (backendRunning, model.backendRunningRange),
        (backendWaiting, model.backendWaitingRange)].any fun p => outside p.1 p.2 then
      .error "outside_completion_calibration_range"
    else if badFractionRange model.cacheFractionRange then
      .error "invalid_completion_prediction"
    else if ¬ inRange ((rawCached : F) / (prompt : F)) model.cacheFractionRange then
      .error "outside_completion_calibration_range"
    else if model.coefficients.all.any badCoefficient then .error "invalid_completion_prediction"
    else if badFractionRange model.kvUsageRange then .error "invalid_completion_prediction"
    else
      match model.kvPressureMs kvUsageFraction with
      | .error e => .error e
      | .ok kvPressureMs =>
        let c := model.coefficients
        let cacheCreditMs := (rawCached : F) * c.cacheTokenMs
        let backendPressureMs := (backendRunning : F) * c.backendRunningMs
          + (backendWaiting : F) * c.backendWaitingMs + kvPressureMs
        let ectMs := c.interceptMs + (prompt : F) * c.promptTokenMs
          + (output : F) * c.outputTokenMs + (prompt : F) * (output : F) * c.promptOutputTokenMs
          - cacheCreditMs + (inflight : F) * c.routerInflightMs + backendPressureMs
        if ¬ isFinite ectMs ∨ ectMs ≤ 0.0 then .error "invalid_completion_prediction"
        else
          .ok
            { calibrationVersion := model.calibrationVersion
              source := model.source
              estimatedOutputTokens := output
              cachedTokens := rawCached
              routerInflight := inflight
              backendRunning, backendWaiting, kvUsageFraction, cacheCreditMs, backendPressureMs
              ectMs }

end CodexRouter.Routing
