import CodexRouter.Routing.LmCache
import CodexRouter.Routing.Permutation

set_option autoImplicit false

/-! # The numbers of the evidence

`decide` checks the evidence of each worker again, its identity and its numbers, and falls back
when the check fails. The numbers come from `observe` or from `KvIndex::reusable_tokens`, which
round and cap them on their own. Here the two sides meet: if `decide` falls back because the
evidence is invalid, then it is the identity that fails.
-/

namespace CodexRouter.Routing

open Lib

variable {F : Type}

/-! ## The snapshot that is decided on -/

/-- The loop of `select_with_observations`: what the controllers said takes the place of the
telemetry. Outside endpoint identity mode, an observation of an engine that failed the identity
check, or that is not the one last seen, is stale. -/
def State.withObservation (s : State) (config : RoutingConfig F)
    (observations : Table String Observation) (now : Nat) (w : WorkerSnapshot F) :
    WorkerSnapshot F :=
  match observations.get? w.workerUrl with
  | none => { w with metadata := none, evidence := .unknown }
  | some o =>
    { w with
      metadata := some o.metadata
      evidence :=
        if ¬ config.endpointIdentity ∧
            (s.identityMismatches.get? w.workerUrl = some o.metadata.engineEpoch ∨
              (s.controllerMetadata.get? w.workerUrl).any fun m =>
                m.engineEpoch ≠ o.metadata.engineEpoch) then
          .stale
        else o.evidenceAt now }

/-- The snapshot of `select_with_observations`. -/
def State.selectionSnapshot (s : State) (config : RoutingConfig F)
    (workers : List State.WorkerView) (features : RequestFeatures) (now : Nat)
    (backendLoad : String → Option (BackendLoadSnapshot F)) (home : Option SessionHomeSnapshot)
    (observations : Option (Table String Observation)) : SelectionSnapshot F :=
  let snapshot := s.snapshot workers features now backendLoad home
  match observations with
  | none => snapshot
  | some observations =>
    { snapshot with
      workers := snapshot.workers.map (s.withObservation config observations now) }

/-! ## Numbers -/

/-- The numbers of the evidence fit the prompt and the worker. -/
def NumbersFit (prompt : List Nat) (w : WorkerSnapshot F) : Prop :=
  match w.evidence with
  | .observed tokens _ _ _ =>
    ∃ info, w.metadata = some info ∧ info.blockSize ∣ tokens ∧ tokens ≤ prompt.length ∧
      (prompt ≠ [] → tokens < prompt.length)
  | .lmCacheObserved tokens cachedTokens _ _ _ _ =>
    ∃ info, w.metadata = some info ∧ ControllerNumbers prompt info tokens cachedTokens
  | _ => True

variable {prompt : List Nat}

section

variable (s : State) (workers : List State.WorkerView) (features : RequestFeatures) (now : Nat)
  (hprompt : features.tokens = some prompt)

include hprompt

theorem numbersFit_snapshot (backendLoad : String → Option (BackendLoadSnapshot F))
    (home : Option SessionHomeSnapshot) :
    ∀ w ∈ (s.snapshot workers features now backendLoad home).workers, NumbersFit prompt w := by
  intro w hw
  obtain ⟨index, hindex, rfl⟩ := List.mem_mapIdx.mp hw
  simp only [NumbersFit, State.evidence, hprompt]
  cases hworker : s.workers.get? workers[index].url with
  | none => trivial
  | some t =>
    by_cases hsupported : t.supported
    · by_cases hsynced : t.synced
      · obtain ⟨hdvd, hle⟩ := reusableTokens_spec t.index prompt t.info.block_size
        simp only [hsupported, hsynced, not_true_eq_false, if_false]
        refine ⟨_, rfl, hdvd, by omega, fun hne => ?_⟩
        have := List.length_pos_iff.mpr hne
        omega
      · simp [hsupported, hsynced]
    · simp [hsupported]

theorem numbersFit_withObservation (config : RoutingConfig F) (service : ServiceConfig)
    (exchange : String → Exchange) (w : WorkerSnapshot F) :
    NumbersFit prompt
      (s.withObservation config (service.lookupWorkers workers features exchange) now w) := by
  unfold State.withObservation
  cases ho : (service.lookupWorkers workers features exchange).get? w.workerUrl with
  | none => trivial
  | some o =>
    obtain ⟨tokens, worker, htokens, hobserve⟩ := lookupWorkers_spec ho
    rw [hprompt] at htokens
    cases htokens
    obtain ⟨reusable, cachedTokens, _, _, _, hevidence, hnumbers⟩ := observe_spec hobserve
    simp only [NumbersFit, Observation.evidenceAt, hevidence]
    split
    · next hstale => grind
    · next hobserved => grind
    · trivial

theorem numbersFit_selectionSnapshot (config : RoutingConfig F) (service : ServiceConfig)
    (backendLoad : String → Option (BackendLoadSnapshot F)) (home : Option SessionHomeSnapshot)
    (exchange : Option (String → Exchange)) :
    ∀ w ∈ (s.selectionSnapshot config workers features now backendLoad home
      (exchange.map (service.lookupWorkers workers features))).workers, NumbersFit prompt w := by
  cases exchange with
  | none => exact numbersFit_snapshot s workers features now hprompt backendLoad home
  | some exchange =>
    intro w hw
    obtain ⟨w', _, rfl⟩ := List.mem_map.mp hw
    exact numbersFit_withObservation s workers features now hprompt config service exchange w'

end

/-! ## Reasons to fall back -/

/-- The reasons that say that evidence is invalid. -/
def AboutEvidence (reason : String) : Prop :=
  reason = "invalid_kv_evidence" ∨ reason = "invalid_lmcache_evidence"

instance : DecidablePred AboutEvidence := fun _ => inferInstanceAs (Decidable (_ ∨ _))

section Decide

variable {features : RequestFeatures} {config : RoutingConfig F}

/-- The part of the check of the evidence that is not about numbers. -/
def IdentityHolds (features : RequestFeatures) (config : RoutingConfig F) (w : WorkerSnapshot F) :
    Prop :=
  match w.evidence with
  | .observed _ engineEpoch _ _ =>
    ∃ info, w.metadata = some info ∧ info.valid = true ∧
      features.fingerprint = some info.fingerprint ∧ info.engineEpoch = engineEpoch
  | .lmCacheObserved _ _ instanceId location engineEpoch _ =>
    ∃ info, w.metadata = some info ∧
      lmCacheIdentityValid config w.workerUrl info engineEpoch = true ∧
      instanceId = info.workerId ∧ location = "LocalCPUBackend"
  | _ => True

variable (config) in
theorem freshEvidence_cases (evidence : PrefixEvidence) :
    freshEvidence config evidence = .stale ∨ freshEvidence config evidence = evidence := by
  unfold freshEvidence
  split
  · grind
  · grind
  · exact Or.inr rfl

variable {w : WorkerSnapshot F} {reason : String} {scan scan' : Scan F} {tieRank : Nat} {α : Type}
  {info : WorkerMetadata} {candidate : CandidateSnapshot F}

/-- Evidence with numbers that fit is called invalid only if its identity does not hold. -/
theorem not_identityHolds_of_reusable {prompt : List Nat} (hprompt : features.tokens = some prompt)
    (hne : prompt ≠ []) (hfit : NumbersFit prompt w) (hreason : AboutEvidence reason)
    (h : reusable features config w (freshEvidence config w.evidence) = .error reason) :
    ¬ IdentityHolds features config w := by
  rcases freshEvidence_cases config w.evidence with hfresh | hfresh
  · rw [hfresh] at h
    cases h
    exact absurd hreason (by decide)
  · rw [hfresh] at h
    intro hid
    unfold NumbersFit at hfit
    unfold IdentityHolds at hid
    cases hevidence : w.evidence with
    | observed tokens engineEpoch sequence ageMs =>
      rw [hevidence] at h hfit hid
      obtain ⟨info, hinfo, hdvd, hle, _⟩ := hfit
      obtain ⟨info', hinfo', hvalid, hfingerprint, hepoch⟩ := hid
      rw [hinfo] at hinfo'
      cases hinfo'
      have hall : observedValid features w.metadata tokens engineEpoch = true := by
        simp [observedValid, hinfo, hvalid, hfingerprint, hepoch, hdvd, hprompt, hle]
      simp [reusable, hall] at h
    | lmCacheObserved tokens cachedTokens instanceId location engineEpoch ageMs =>
      rw [hevidence] at h hfit hid
      obtain ⟨info, hinfo, hnumbers⟩ := hfit
      obtain ⟨info', hinfo', hvalid, hinstance, hlocation⟩ := hid
      rw [hinfo] at hinfo'
      cases hinfo'
      have hall : lmCacheValid features config w.workerUrl w.metadata tokens cachedTokens
          instanceId location engineEpoch = true := by
        simp [lmCacheValid, hinfo, hvalid, hinstance, hlocation, hnumbers.wholeBlocks,
          hnumbers.leCached, hnumbers.cachedLe, hnumbers.lt hne, hprompt]
      simp [reusable, hall] at h
    | unknown | stale | unsupported =>
      rw [hevidence] at h
      cases h
      exact absurd hreason (by decide)

variable (config) in
theorem fallback_noteIdentity (scan : Scan F) (metadata : Option WorkerMetadata) :
    (scan.noteIdentity config metadata).fallback = scan.fallback ∨
      (scan.noteIdentity config metadata).fallback
        = getOrInsert scan.fallback "ambiguous_worker_identity" := by
  unfold Scan.noteIdentity
  split
  · exact Or.inl rfl
  · grind

theorem getOrInsert_eq_some {fallback : Option String} {reason' : String}
    (h : getOrInsert fallback reason = some reason') :
    fallback = some reason' ∨ fallback = none ∧ reason = reason' := by
  cases fallback with
  | none => exact Or.inr ⟨rfl, Option.some.inj h⟩
  | some r => exact Or.inl h

/-- The reason that a compatible worker adds, if there was none. -/
theorem fallback_addCandidate
    (h : (scan.addCandidate features config tieRank w).fallback = some reason) :
    scan.fallback = some reason ∨ scan.fallback = none ∧
      reusable features config w (freshEvidence config w.evidence) = .error reason := by
  unfold Scan.addCandidate at h
  dsimp only at h
  split at h
  · exact Or.inl h
  · next herror =>
    rcases getOrInsert_eq_some h with hscan | ⟨hscan, rfl⟩
    · exact Or.inl hscan
    · exact Or.inr ⟨hscan, herror⟩

/-- The worker counts as seen. -/
def Scan.see (scan : Scan F) (w : WorkerSnapshot F) : Scan F :=
  { scan with indices := w.workerIndex :: scan.indices, urls := w.workerUrl :: scan.urls }

section

variable (h : scan.visit features config tieRank w = some scan')

include h

/-- A round leaves out an incompatible worker, or makes it a candidate. -/
theorem visit_cases :
    scan' = scan.see w ∨
      scan' = ((scan.see w).noteIdentity config w.metadata).addCandidate features config tieRank
        w := by
  unfold Scan.visit at h
  split at h
  · cases h
  · split at h
    · exact Or.inl (Option.some.inj h).symm
    · exact Or.inr (Option.some.inj h).symm

/-- No reason after a round means that there was none before it. -/
theorem fallback_none_of_visit (hnone : scan'.fallback = none) : scan.fallback = none := by
  rcases visit_cases h with rfl | rfl
  · exact hnone
  · unfold Scan.addCandidate at hnone
    dsimp only at hnone
    split at hnone
    · rcases fallback_noteIdentity config (scan.see w) w.metadata with hnote | hnote
      · exact hnote.symm.trans hnone
      · rw [hnote] at hnone
        cases hnone
    · cases hnone

/-- A reason about evidence after a round was there before it, or is that of the worker. -/
theorem fallback_visit (hreason : scan'.fallback = some reason) (habout : AboutEvidence reason) :
    scan.fallback = some reason ∨ scan.fallback = none ∧
      reusable features config w (freshEvidence config w.evidence) = .error reason := by
  rcases visit_cases h with rfl | rfl
  · exact Or.inl hreason
  · have hnote := fallback_noteIdentity config (scan.see w) w.metadata
    rcases fallback_addCandidate hreason with hnoted | ⟨hnoted, herror⟩
    · rcases hnote with hnote | hnote
      · exact Or.inl (hnote.symm.trans hnoted)
      · rw [hnote] at hnoted
        rcases getOrInsert_eq_some hnoted with hscan | ⟨_, rfl⟩
        · exact Or.inl hscan
        · exact absurd habout (by decide)
    · rcases hnote with hnote | hnote
      · exact Or.inr ⟨hnote.symm.trans hnoted, herror⟩
      · rw [hnote] at hnoted
        cases hnoted

end

/-- Where a reason about evidence comes from, with which the loop over the workers ends. -/
theorem fallback_scanWorkers (workers : List (WorkerSnapshot F)) :
    ∀ (tieRank : Nat) (scan scan' : Scan F) (reason : String),
      scanWorkers features config tieRank scan workers = some scan' →
      scan'.fallback = some reason → AboutEvidence reason →
      scan.fallback = some reason ∨ (scan.fallback = none ∧
        ∃ w ∈ workers, reusable features config w (freshEvidence config w.evidence)
          = .error reason) := by
  induction workers with
  | nil =>
    intro tieRank scan scan' reason h hreason _
    cases h
    exact Or.inl hreason
  | cons w workers ih =>
    intro tieRank scan scan' reason h hreason habout
    unfold scanWorkers at h
    split at h
    · cases h
    · next visited hvisit =>
      rcases ih _ _ _ _ h hreason habout with hvisited | ⟨hvisited, w', hw', herror⟩
      · rcases fallback_visit hvisit hvisited habout with hscan | ⟨hscan, herror⟩
        · exact Or.inl hscan
        · exact Or.inr ⟨hscan, w, List.mem_cons_self, herror⟩
      · exact Or.inr ⟨fallback_none_of_visit hvisit hvisited, w',
          List.mem_cons_of_mem w hw', herror⟩

/-! ## Pricing gives reasons of its own -/

/-- A computation that fails for no reason about evidence. -/
def Unrelated {α : Type} (x : Except String α) : Prop :=
  ∀ reason, x = .error reason → ¬ AboutEvidence reason

theorem unrelated_ok (a : α) : Unrelated (.ok a : Except String α) := by
  rintro reason ⟨⟩

theorem unrelated_error {e : String} (he : ¬ AboutEvidence e) :
    Unrelated (.error e : Except String α) := by
  rintro reason ⟨⟩
  exact he

theorem unrelated_guard {c : Prop} [Decidable c] {e : String} {x : Except String α}
    (he : ¬ AboutEvidence e) (hx : Unrelated x) : Unrelated (if c then .error e else x) := by
  split
  · exact unrelated_error he
  · exact hx

variable [FloatLike F]

theorem unrelated_kvPressureMs (model : CompletionModel F) (usage : Option F) :
    Unrelated (model.kvPressureMs usage) := by
  cases usage with
  | some usage =>
    refine unrelated_guard (by decide) ?_
    exact unrelated_guard (by decide) (unrelated_ok _)
  | none => exact unrelated_guard (by decide) (unrelated_ok _)

theorem unrelated_completionEstimate (model : CompletionModel F) (fingerprint : String)
    (prompt rawCached : Nat) (outputLimit : Option Nat) (inflight running waiting : Nat)
    (usage : Option F) :
    Unrelated
      (model.estimate fingerprint prompt rawCached outputLimit inflight running waiting usage) := by
  iterate 7 refine unrelated_guard (by decide) ?_
  cases hpressure : model.kvPressureMs usage with
  | error e => exact unrelated_error (unrelated_kvPressureMs model usage e hpressure)
  | ok kvPressureMs => exact unrelated_guard (by decide) (unrelated_ok _)

theorem predictCompletion_reason {worker : WorkerSnapshot F}
    (h : predictCompletion features config worker info candidate = .ok (.error reason)) :
    ¬ AboutEvidence reason := by
  unfold predictCompletion at h
  repeat' split at h
  all_goals first
    | exact unrelated_completionEstimate _ _ _ _ _ _ _ _ _ _ (Except.ok.inj h)
    | (cases h <;> decide)

theorem unrelated_costEstimate (model : CostModel F) (fingerprint : String)
    (prompt reusable : Nat) (outputLimit : Option Nat) (inflight : Nat) :
    Unrelated (model.estimate fingerprint prompt reusable outputLimit inflight) := by
  iterate 3 refine unrelated_guard (by decide) ?_
  exact unrelated_guard (by decide) (unrelated_ok _)

theorem unrelated_restore (model : RestoreCostModel F) (fingerprint location : String)
    (tokens : Nat) (cost : CostEstimate F) :
    Unrelated (model.apply fingerprint location tokens cost) := by
  iterate 3 refine unrelated_guard (by decide) ?_
  exact unrelated_guard (by decide) (unrelated_ok _)

theorem addRestore_reason {estimate : CostEstimate F}
    (h : addRestore config info candidate estimate = .error reason) : ¬ AboutEvidence reason := by
  unfold addRestore at h
  repeat' split at h
  all_goals first
    | exact unrelated_restore _ _ _ _ _ _ h
    | (cases h <;> decide)

theorem predictCost_reason (h : predictCost features config info candidate = .ok (.error reason)) :
    ¬ AboutEvidence reason := by
  unfold predictCost at h
  split at h
  · cases h
    decide
  · split at h
    · cases h
    · split at h
      · next hestimate =>
        cases h
        exact unrelated_costEstimate _ _ _ _ _ _ _ hestimate
      · exact addRestore_reason (Except.ok.inj h)

theorem price_reason {worker : WorkerSnapshot F} {priced : CandidateSnapshot F}
    (h : price features config worker info candidate = .ok (priced, some reason)) :
    ¬ AboutEvidence reason := by
  unfold price at h
  split at h
  · split at h
    · cases h
    · next hpredict =>
      cases h
      exact predictCompletion_reason hpredict
    · cases h
  · split at h
    · cases h
    · next hpredict =>
      cases h
      exact predictCost_reason hpredict
    · cases h

/-- Pricing does not add a reason about evidence. -/
theorem priceAll_reason (inputs : Table Nat (WorkerSnapshot F))
    (candidates : List (CandidateSnapshot F)) :
    ∀ (fallback fallback' : Option String) (priced : List (CandidateSnapshot F))
      (reason : String),
      priceAll features config inputs fallback candidates = .ok (some (fallback', priced)) →
      fallback' = some reason → AboutEvidence reason → fallback = some reason := by
  induction candidates with
  | nil =>
    intro fallback fallback' priced reason h hreason _
    cases h
    exact hreason
  | cons candidate rest ih =>
    intro fallback fallback' priced reason h hreason habout
    unfold priceAll at h
    split at h
    · cases h
    · split at h
      · cases h
      · split at h
        · cases h
        · next reason' hprice =>
          split at h
          · cases h
          · cases h
          · next hrest =>
            cases h
            have hnext := ih _ _ _ _ hrest hreason habout
            cases reason' with
            | none => exact hnext
            | some reason' =>
              rcases getOrInsert_eq_some hnext with hfallback | ⟨_, rfl⟩
              · exact hfallback
              · exact absurd habout (price_reason hprice)

theorem conclude_reason {ranking : Ranking} {home : Option SessionHomeSnapshot}
    {d : RoutingDecision F} (h : conclude features config ranking home scan = .ok (some d))
    (hreason : d.fallbackReason = some reason) (habout : AboutEvidence reason) :
    scan.fallback = some reason := by
  unfold conclude at h
  dsimp only at h
  split at h
  · cases h
  · cases h
  · next fallback candidates hpriced =>
    have hfallback : fallback = some reason := by grind
    split at hpriced
    · exact priceAll_reason _ _ _ _ _ _ hpriced hfallback habout
    · cases hpriced
      exact hfallback

/-- A decision falls back because of invalid evidence only if the request brought that reason, or
the identity of an available worker's evidence does not hold. -/
theorem decide_reason {snapshot : SelectionSnapshot F} {ranking : Ranking} {d : RoutingDecision F}
    {prompt : List Nat} (hprompt : features.tokens = some prompt)
    (hfit : ∀ w ∈ snapshot.workers, NumbersFit prompt w)
    (h : snapshot.decide features config ranking = .ok (some d))
    (hreason : d.fallbackReason = some reason) (habout : AboutEvidence reason) :
    features.fallbackReason = some reason ∨
      ∃ w ∈ snapshot.workers, w.available = true ∧ ¬ IdentityHolds features config w := by
  unfold SelectionSnapshot.decide at h
  split at h
  · cases h
  · next scan hscan =>
    have hfallback := conclude_reason h hreason habout
    have hinit : (Scan.init features config : Scan F).fallback
        = requestFallback features config := rfl
    rcases fallback_scanWorkers _ _ _ _ _ hscan hfallback habout with hreq | ⟨hreq, w, hw, herror⟩
    · rw [hinit, requestFallback] at hreq
      split at hreq
      · rcases getOrInsert_eq_some hreq with hreq | ⟨_, rfl⟩
        · exact Or.inl hreq
        · exact absurd habout (by decide)
      · exact Or.inl hreq
    · -- the prompt is not empty, or the request would have been the reason
      have hne : prompt ≠ [] := by
        rintro rfl
        rw [hinit, requestFallback, if_pos (Or.inl (by simp [hprompt]))] at hreq
        cases hreq
      rw [ordered, List.mem_insertionSort, List.mem_filter] at hw
      exact Or.inr ⟨w, hw.1, hw.2,
        not_identityHolds_of_reusable hprompt hne (hfit w hw.1) habout herror⟩

end Decide

/-- **The numbers of the evidence always fit.** Under a validated configuration, whatever the
controllers answer, no lookup panics; the evidence of every worker of the snapshot, from the
controllers or from the index, has whole blocks, no more than is cached, no more cached than the
prompt is long, and less than the prompt unless that is empty; and `decide` falls back because of
invalid evidence only if the request brought that reason, or the identity of some evidence does
not hold. -/
theorem evidence_numbers_fit [FloatLike F] (parse : String → Option ParsedUrl)
    (service : ServiceConfig) (hservice : service.validate parse = .ok ()) (s : State)
    (workers : List State.WorkerView) (features : RequestFeatures) (config : RoutingConfig F)
    (now : Nat) (backendLoad : String → Option (BackendLoadSnapshot F))
    (home : Option SessionHomeSnapshot) (exchange : Option (String → Exchange))
    (prompt : List Nat) (hprompt : features.tokens = some prompt) :
    (∀ url worker answer, service.worker url = some worker →
      observe service worker prompt answer ≠ .error .panicked) ∧
    (∀ w ∈ (s.selectionSnapshot config workers features now backendLoad home
      (exchange.map (service.lookupWorkers workers features))).workers, NumbersFit prompt w) ∧
    ∀ ranking d reason,
      (s.selectionSnapshot config workers features now backendLoad home
        (exchange.map (service.lookupWorkers workers features))).decide features config ranking
          = .ok (some d) →
      d.fallbackReason = some reason → AboutEvidence reason →
      features.fallbackReason = some reason ∨
        ∃ w ∈ (s.selectionSnapshot config workers features now backendLoad home
          (exchange.map (service.lookupWorkers workers features))).workers,
          w.available = true ∧ ¬ IdentityHolds features config w := by
  have hfit := numbersFit_selectionSnapshot s workers features now hprompt config service
    backendLoad home exchange
  refine ⟨fun url worker answer hworker => observe_ne_panicked hservice hworker prompt answer,
    hfit, fun ranking d reason hdecide hreason habout => ?_⟩
  exact decide_reason hprompt hfit hdecide hreason habout

/-- Every URL is taken for a plain one. -/
def plainUrl (_ : String) : Option ParsedUrl := some ⟨"http", some "host", "", none, none, none⟩

def plainWorker : ControllerWorker :=
  { instanceId := "i"
    blockSize := 2
    controllerUrl := "http://c"
    fingerprint := some "fingerprint" }

def plainService : ServiceConfig :=
  { identityMode := .verified
    rendererBaseUrl := "http://r"
    model := "model"
    fingerprint := some "fingerprint"
    workers := [("http://a", plainWorker)] }

/-- A healthy controller whose instance has this much of the prompt. -/
def healthyExchange (cachedTokens : Nat) : Exchange :=
  { lookup := some ⟨true, some "i", some "epoch",
      some (Table.empty.insert "i" (localCpuBackend, cachedTokens))⟩
    health := some ⟨true, some "i", some "epoch", some (Table.empty.insert "0" 0)⟩
    started := 0 }

/-- A worker that has the whole prompt cached reuses all but its last, partial block. -/
theorem evidence_numbers_fit_allCached :
    ∃ w ∈ (State.init.selectionSnapshot plainConfig [⟨"http://a", true, 0⟩] plainRequest 0
      (fun _ => none) none ((some fun _ => healthyExchange 5).map
        (plainService.lookupWorkers [⟨"http://a", true, 0⟩] plainRequest))).workers,
      w.evidence = .lmCacheObserved 4 5 "i" localCpuBackend (some "epoch") 0 ∧
        NumbersFit [1, 2, 3, 4, 5] w :=
  ⟨_, List.mem_cons_self, rfl, (evidence_numbers_fit plainUrl plainService rfl State.init
    [⟨"http://a", true, 0⟩] plainRequest plainConfig 0 (fun _ => none) none
    (some fun _ => healthyExchange 5) [1, 2, 3, 4, 5] rfl).2.1 _ List.mem_cons_self⟩

/-- **An empty prompt is accepted, and its count is not strictly below its length.** -/
theorem empty_prompt_not_below :
    plainService.validate plainUrl = .ok () ∧ plainService.worker "http://a" = some plainWorker ∧
      ∃ o, observe plainService plainWorker [] (healthyExchange 0) = .ok o ∧
        o.evidence = .lmCacheObserved 0 0 "i" localCpuBackend (some "epoch") 0 ∧
        ¬ 0 < ([] : List Nat).length :=
  ⟨rfl, rfl, _, rfl, rfl, by decide⟩

end CodexRouter.Routing
