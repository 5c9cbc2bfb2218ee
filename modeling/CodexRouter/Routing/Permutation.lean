import CodexRouter.Routing.Selection

set_option autoImplicit false

/-! # The order of the workers does not matter

The workers are sorted by URL before anything is decided. With distinct URLs the sorted list does
not depend on the order of the snapshot, and two workers with one URL end the selection, wherever
they stand.
-/

namespace CodexRouter.Routing

variable {F : Type} {features : RequestFeatures} {config : RoutingConfig F}

theorem Scan.urls_visit {scan scan' : Scan F} {tieRank : Nat} {worker : WorkerSnapshot F}
    (h : scan.visit features config tieRank worker = some scan') :
    worker.workerUrl ∉ scan.urls ∧ scan'.urls = worker.workerUrl :: scan.urls := by
  unfold Scan.visit at h
  split at h
  · cases h
  · rename_i hnew
    refine ⟨fun hmem => hnew (Or.inr hmem), ?_⟩
    simp only at h
    split at h
    · cases h
      rfl
    · cases h
      unfold Scan.addCandidate Scan.noteIdentity
      cases worker.metadata with
      | none => rfl
      | some info => grind

/-- The loop goes through only if no URL comes twice. -/
theorem nodup_of_scanWorkers (workers : List (WorkerSnapshot F)) :
    ∀ (tieRank : Nat) (scan scan' : Scan F),
      scanWorkers features config tieRank scan workers = some scan' →
        (∀ w ∈ workers, w.workerUrl ∉ scan.urls) ∧
          (workers.map fun w => w.workerUrl).Nodup := by
  induction workers with
  | nil =>
    intro tieRank scan scan' _
    exact ⟨fun _ h => absurd h List.not_mem_nil, List.nodup_nil⟩
  | cons worker rest ih =>
    intro tieRank scan scan' h
    unfold scanWorkers at h
    cases hvisit : scan.visit features config tieRank worker with
    | none => simp [hvisit] at h
    | some next =>
      simp only [hvisit] at h
      obtain ⟨hnew, hurls⟩ := Scan.urls_visit hvisit
      obtain ⟨hrest, hnodup⟩ := ih _ _ _ h
      rw [hurls] at hrest
      constructor
      · grind
      · grind

theorem perm_ordered (workers : List (WorkerSnapshot F)) :
    (ordered workers).Perm (workers.filter fun w => w.available) :=
  List.perm_insertionSort ..

theorem pairwise_ordered (workers : List (WorkerSnapshot F)) :
    (ordered workers).Pairwise fun a b => a.workerUrl ≤ b.workerUrl := by
  have : Std.Total fun a b : WorkerSnapshot F => a.workerUrl ≤ b.workerUrl :=
    ⟨fun a b => String.le_total a.workerUrl b.workerUrl⟩
  have : IsTrans (WorkerSnapshot F) fun a b => a.workerUrl ≤ b.workerUrl :=
    ⟨fun _ _ _ => String.le_trans⟩
  exact List.pairwise_insertionSort ..

/-- With distinct URLs, sorting takes the order of the list away. -/
theorem ordered_eq_of_perm {workers workers' : List (WorkerSnapshot F)}
    (hperm : workers.Perm workers') (hnodup : ((ordered workers).map fun w => w.workerUrl).Nodup) :
    ordered workers = ordered workers' := by
  have hsame : (ordered workers).Perm (ordered workers') :=
    (perm_ordered workers).trans ((hperm.filter _).trans (perm_ordered workers').symm)
  refine hsame.eq_of_pairwise (fun a b ha hb hab hba => ?_) (pairwise_ordered workers)
    (pairwise_ordered workers')
  exact List.inj_on_of_nodup_map hnodup ha (hsame.mem_iff.mpr hb) (String.le_antisymm hab hba)

/-- **The decision does not depend on the order of the workers**: neither the chosen worker, nor
the fallback reason, nor the affinity, nor anything else of the result. -/
theorem decide_perm [FloatLike F] (snapshot : SelectionSnapshot F) (ranking : Ranking)
    (features : RequestFeatures) (config : RoutingConfig F) (workers : List (WorkerSnapshot F))
    (hperm : workers.Perm snapshot.workers) :
    ({ snapshot with workers := workers }).decide features config ranking
      = snapshot.decide features config ranking := by
  have hurls : ((ordered workers).map fun w => w.workerUrl).Perm
      ((ordered snapshot.workers).map fun w => w.workerUrl) :=
    (((perm_ordered workers).trans (hperm.filter _)).trans (perm_ordered _).symm).map _
  unfold SelectionSnapshot.decide
  simp only
  by_cases hnodup : ((ordered workers).map fun w => w.workerUrl).Nodup
  · rw [ordered_eq_of_perm hperm hnodup]
  · -- two workers with one URL: no decision, in any order
    have hnone : ∀ l : List (WorkerSnapshot F), ¬ (l.map fun w => w.workerUrl).Nodup →
        scanWorkers features config 0 (Scan.init features config) l = none := by
      intro l hl
      cases hscan : scanWorkers features config 0 (Scan.init features config) l with
      | none => rfl
      | some scan => exact absurd (nodup_of_scanWorkers l _ _ _ hscan).2 hl
    rw [hnone _ hnodup, hnone _ fun h => hnodup (hurls.nodup_iff.mpr h)]

/-- A worker with a prefix of the prompt in its cache. -/
def cachingWorker (index tokens : Nat) (url : String) : WorkerSnapshot ℚ :=
  { workerIndex := index
    workerUrl := url
    available := true
    inflight := 0
    backendLoad := none
    metadata := some ⟨url, "model", "fingerprint", "epoch", 2⟩
    evidence := .observed tokens "epoch" none 0 }

def plainConfig : RoutingConfig ℚ :=
  { maxEvidenceAgeMs := 3000
    sessionTtlSecs := 300
    costModels := .empty
    restoreModels := .empty
    ectModel := .decomposed
    completionModels := .empty
    backendMetrics := none
    lmcache := none }

def plainRequest : RequestFeatures :=
  { sessionId := none
    tokens := some [1, 2, 3, 4, 5]
    fingerprint := some "fingerprint"
    model := some "model"
    outputLimit := none
    numChoices := 1
    fallbackReason := none }

theorem decide_perm_twoWorkers :
    let first := cachingWorker 0 2 "http://a"
    let second := cachingWorker 1 4 "http://b"
    (SelectionSnapshot.decide plainRequest plainConfig ⟨[second, first], none⟩ .prefixMax
        = SelectionSnapshot.decide plainRequest plainConfig ⟨[first, second], none⟩ .prefixMax) ∧
      (match SelectionSnapshot.decide plainRequest plainConfig ⟨[first, second], none⟩
          .prefixMax with
        | .ok (some d) => (d.chosenWorker, d.fallbackReason, d.affinityApplied)
        | _ => (0, none, true)) = (1, none, false) :=
  ⟨decide_perm ⟨[cachingWorker 0 2 "http://a", cachingWorker 1 4 "http://b"], none⟩ .prefixMax
    plainRequest plainConfig _ (List.Perm.swap ..), by decide +kernel⟩

end CodexRouter.Routing
