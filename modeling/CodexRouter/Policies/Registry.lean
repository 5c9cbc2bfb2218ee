import CodexRouter.Lib.Interleaving

set_option autoImplicit false

/-! # The policy registry

`router/src/policies/registry.rs`: the load balancing policy of each model, and the number of
its workers. The two maps stand behind locks of their own, and `on_worker_added` and
`on_worker_removed` take them one after the other; so calls for one model can meet between the
two. What is at stake is `Matched`: a model has a policy exactly while it has workers.
-/

namespace CodexRouter.Policies

open Lib

/-! ## Policies -/

/-- A policy object, by what its `name` says. -/
inductive Policy
  | prefixMax
  | leastLoadKv
  | kvBatchEct
  | roundRobin
  | random
  | cacheAware
  | powerOfTwo
  | consistentHash
  | rendezvousHash
  deriving DecidableEq

/-- An unknown type gives the default policy. -/
def createPolicyFromType (defaultPolicy : Policy) (policyType : String) : Policy :=
  match policyType with
  | "prefix_max" => .prefixMax
  | "least_load_kv" => .leastLoadKv
  | "kv_batch_ect" => .kvBatchEct
  | "round_robin" => .roundRobin
  | "random" => .random
  | "cache_aware" => .cacheAware
  | "power_of_two" => .powerOfTwo
  | "rendezvous_hash" => .rendezvousHash
  | _ => defaultPolicy

def determinePolicyForModel (defaultPolicy : Policy) (policyHint : Option String) : Policy :=
  match policyHint with
  | some policyType => createPolicyFromType defaultPolicy policyType
  | none => defaultPolicy

/-! ## The two calls -/

structure PolicyRegistry where
  modelPolicies : Table String Policy
  modelWorkerCounts : Table String Nat
  defaultPolicy : Policy

namespace PolicyRegistry

def new (defaultPolicy : Policy) : PolicyRegistry := ⟨Table.empty, Table.empty, defaultPolicy⟩

def workerCount (r : PolicyRegistry) (modelId : String) : Nat :=
  (r.modelWorkerCounts.get? modelId).getD 0

inductive Operation
  | onWorkerAdded (modelId : String) (policyHint : Option String)
  | onWorkerRemoved (modelId : String)

/-- Where a call stands between two of its locked sections. -/
inductive Point
  /-- The worker is counted; the policies are not read yet. -/
  | counted (modelId : String) (policyHint : Option String)
  /-- No policy was found; the new one is not stored yet. -/
  | determined (modelId : String) (policy : Policy)
  /-- The last worker is gone; the policy is not removed yet. -/
  | shouldCleanup (modelId : String)
  deriving DecidableEq

/-- The section on `model_worker_counts`, with which both calls begin. `on_worker_added` returns
the policy of the model, `on_worker_removed` nothing. -/
def enter (op : Operation) (r : PolicyRegistry) : PolicyRegistry × (Point ⊕ Option Policy) :=
  match op with
  | .onWorkerAdded modelId policyHint =>
    ({ r with modelWorkerCounts :=
        r.modelWorkerCounts.insert modelId (r.workerCount modelId + 1) },
      .inl (.counted modelId policyHint))
  | .onWorkerRemoved modelId =>
    match r.modelWorkerCounts.get? modelId with
    | some count =>
      -- `saturating_sub`, as `Nat` subtraction
      if count - 1 = 0 then
        ({ r with modelWorkerCounts := r.modelWorkerCounts.erase modelId },
          .inl (.shouldCleanup modelId))
      else
        ({ r with modelWorkerCounts := r.modelWorkerCounts.insert modelId (count - 1) },
          .inr none)
    | none => (r, .inr none)

/-- The sections on `model_policies`. -/
def advance (point : Point) (r : PolicyRegistry) : PolicyRegistry × (Point ⊕ Option Policy) :=
  match point with
  | .counted modelId policyHint =>
    match r.modelPolicies.get? modelId with
    | some existingPolicy => (r, .inr (some existingPolicy))
    | none => (r, .inl (.determined modelId (determinePolicyForModel r.defaultPolicy policyHint)))
  | .determined modelId policy =>
    ({ r with modelPolicies := r.modelPolicies.insert modelId policy }, .inr (some policy))
  | .shouldCleanup modelId => ({ r with modelPolicies := r.modelPolicies.erase modelId }, .inr none)

def program : Program PolicyRegistry Operation Point (Option Policy) := ⟨enter, advance⟩

abbrev System := Interleaved PolicyRegistry Point

abbrev step : System → Section Operation → Option System := Interleaved.step program

abbrev init (defaultPolicy : Policy) : System := Interleaved.start (new defaultPolicy)

/-! ## Policies and counts -/

/-- A model has an entry in the policy map exactly while its worker count is positive. -/
def Matched (r : PolicyRegistry) : Prop :=
  ∀ modelId, r.modelPolicies.contains modelId = true ↔ 0 < r.workerCount modelId

/-- The call adds a worker of the model and has not looked at, or not stored, its policy. -/
def IsAdding (modelId : String) : Point → Prop
  | .counted m _ => m = modelId
  | .determined m _ => m = modelId
  | .shouldCleanup _ => False

/-- The call is about to remove the policy of the model. -/
def IsCleaning (modelId : String) : Point → Prop
  | .shouldCleanup m => m = modelId
  | _ => False

instance (modelId : String) : DecidablePred (IsAdding modelId)
  | .counted m _ => inferInstanceAs (Decidable (m = modelId))
  | .determined m _ => inferInstanceAs (Decidable (m = modelId))
  | .shouldCleanup _ => inferInstanceAs (Decidable False)

instance (modelId : String) : DecidablePred (IsCleaning modelId)
  | .counted _ _ => inferInstanceAs (Decidable False)
  | .determined _ _ => inferInstanceAs (Decidable False)
  | .shouldCleanup m => inferInstanceAs (Decidable (m = modelId))

/-- The section of `id` from a point on the policies does not act on a count that has changed
since, unless a call still under way makes up for it: a policy is removed while the model has no
workers, or while another call is adding one; it is stored while the model has workers, or while
another call is about to remove it. -/
def UpToDateAt (s : System) (id : Nat) : Point → Prop
  | .counted _ _ => True
  | .determined modelId _ => 0 < s.shared.workerCount modelId ∨ s.Another id (IsCleaning modelId)
  | .shouldCleanup modelId => s.shared.workerCount modelId = 0 ∨ s.Another id (IsAdding modelId)

def UpToDate (s : System) : Section Operation → Prop
  | .call _ _ => True
  | .advance id => ∀ point ∈ s.calls.get? id, UpToDateAt s id point

instance (s : System) (id : Nat) : DecidablePred (UpToDateAt s id)
  | .counted _ _ => inferInstanceAs (Decidable True)
  | .determined _ _ => inferInstanceAs (Decidable (_ ∨ _))
  | .shouldCleanup _ => inferInstanceAs (Decidable (_ ∨ _))

instance (s : System) : DecidablePred (UpToDate s)
  | .call _ _ => inferInstanceAs (Decidable True)
  | .advance id => inferInstanceAs (Decidable (∀ point ∈ s.calls.get? id, _))

/-! ## What a section does to one model -/

section

variable (r : PolicyRegistry) (modelId m : String)

theorem workerCount_insert (count : Nat) :
    workerCount { r with modelWorkerCounts := r.modelWorkerCounts.insert modelId count } m
      = if m = modelId then count else r.workerCount m := by
  simp only [workerCount, Table.get?_insert]
  split <;> rfl

theorem workerCount_erase :
    workerCount { r with modelWorkerCounts := r.modelWorkerCounts.erase modelId } m
      = if m = modelId then 0 else r.workerCount m := by
  simp only [workerCount, Table.get?_erase]
  split <;> rfl

end

/-- A model without workers has no policy, or a call is about to remove it; a model with workers
has one, or a call is adding it. -/
structure Attended (s : System) (m : String) : Prop where
  cleaning : s.shared.modelPolicies.contains m = true → s.shared.workerCount m = 0 →
    s.Standing (IsCleaning m)
  adding : s.shared.modelPolicies.contains m = false → 0 < s.shared.workerCount m →
    s.Standing (IsAdding m)

theorem attended_init (defaultPolicy : Policy) (m : String) :
    Attended (init defaultPolicy) m where
  cleaning hpolicy := by cases hpolicy
  adding _ hcount := by cases hcount

variable {s t : System} {m : String} {id : Nat}

theorem matched_iff_attended (h : s.Quiescent) : s.shared.Matched ↔ ∀ m, Attended s m := by
  constructor
  · refine fun hm m => ⟨fun hpolicy hcount => ?_, fun hpolicy hcount => ?_⟩
    · have := (hm m).mp hpolicy
      omega
    · rw [(hm m).mpr hcount] at hpolicy
      cases hpolicy
  · intro ha m
    constructor
    · intro hpolicy
      by_contra hcount
      exact h.not_standing ((ha m).cleaning hpolicy (by omega))
    · intro hcount
      by_contra hpolicy
      exact h.not_standing ((ha m).adding (Bool.not_eq_true _ ▸ hpolicy) hcount)

/-- A section that changes neither the policy nor the count of `m` keeps it attended, if its call
does not stand at a point that concerns `m`. -/
theorem Attended.settle_of_eq {done : PolicyRegistry × (Point ⊕ Option Policy)} (h : Attended s m)
    (hpolicy : done.1.modelPolicies.contains m = s.shared.modelPolicies.contains m)
    (hcount : done.1.workerCount m = s.shared.workerCount m)
    (hpoint : ∀ point, s.calls.get? id = some point → ¬ IsCleaning m point ∧ ¬ IsAdding m point) :
    Attended (s.settle id done) m where
  cleaning hp hc :=
    (h.cleaning (hpolicy ▸ hp) (hcount ▸ hc)).settle (fun point hid => (hpoint point hid).1) done
  adding hp hc :=
    (h.adding (hpolicy ▸ hp) (hcount ▸ hc)).settle (fun point hid => (hpoint point hid).2) done

theorem attended_enter (h : Attended s m) (hid : s.calls.get? id = none) (op : Operation) :
    Attended (s.settle id (enter op s.shared)) m := by
  have hnone : ∀ point, s.calls.get? id = some point →
      ¬ IsCleaning m point ∧ ¬ IsAdding m point := by grind
  cases op with
  | onWorkerAdded modelId policyHint =>
    by_cases hm : m = modelId
    · subst hm
      constructor
      · intro _ hc
        simp [Interleaved.settle, enter, workerCount_insert] at hc
      · intro _ _
        exact Interleaved.standing_settle.mpr (Or.inl ⟨_, rfl, rfl⟩)
    · exact h.settle_of_eq rfl (by simp [enter, workerCount_insert, hm]) hnone
  | onWorkerRemoved modelId =>
    simp only [enter]
    cases hc : s.shared.modelWorkerCounts.get? modelId with
    | none => exact h.settle_of_eq rfl rfl hnone
    | some count =>
      dsimp only
      split
      · by_cases hm : m = modelId
        · subst hm
          constructor
          · intro _ _
            exact Interleaved.standing_settle.mpr (Or.inl ⟨_, rfl, rfl⟩)
          · intro _ hpos
            simp [Interleaved.settle, workerCount_erase] at hpos
        · exact h.settle_of_eq rfl (by simp [workerCount_erase, hm]) hnone
      · next hcount =>
        by_cases hm : m = modelId
        · subst hm
          constructor
          · intro _ hzero
            simp [Interleaved.settle, workerCount_insert] at hzero
            omega
          · intro hp _
            refine Interleaved.Standing.settle (h.adding hp ?_)
              (fun point hpoint => (hnone point hpoint).2) _
            simp only [workerCount, hc, Option.getD_some]
            omega
        · exact h.settle_of_eq rfl (by simp [workerCount_insert, hm]) hnone

/-- A section of a call in progress keeps every model attended if it is up to date. -/
theorem attended_advance {point : Point} (h : Attended s m) (hid : s.calls.get? id = some point)
    (hok : UpToDateAt s id point) : Attended (s.settle id (advance point s.shared)) m := by
  have hpoint : ∀ p : Point → Prop, ¬ p point →
      ∀ point', s.calls.get? id = some point' → ¬ p point' := by grind
  cases point with
  | counted modelId policyHint =>
    simp only [advance]
    cases hget : s.shared.modelPolicies.get? modelId with
    | some existingPolicy =>
      refine ⟨fun hp hc => (h.cleaning hp hc).settle (hpoint _ not_false) _, fun hp hc => ?_⟩
      -- the model of the call has the policy that was found
      have hm : modelId ≠ m := by
        rintro rfl
        simp [Interleaved.settle, Table.contains, hget] at hp
      exact (h.adding hp hc).settle (hpoint _ hm) _
    | none =>
      refine ⟨fun hp hc => (h.cleaning hp hc).settle (hpoint _ not_false) _, fun hp hc => ?_⟩
      by_cases hm : modelId = m
      · exact Interleaved.standing_settle.mpr (Or.inl ⟨_, rfl, hm⟩)
      · exact (h.adding hp hc).settle (hpoint _ hm) _
  | determined modelId policy =>
    by_cases hm : m = modelId
    · subst hm
      constructor
      · intro _ hc
        rcases hok with hpos | hother
        · exact absurd hc (by simpa [Interleaved.settle, advance, workerCount] using hpos.ne')
        · exact Interleaved.standing_settle.mpr (Or.inr hother)
      · intro hp _
        simp [Interleaved.settle, advance, Table.contains_insert] at hp
    · refine h.settle_of_eq (by simp [advance, Table.contains_insert, hm]) rfl
        fun point' hpoint' => ?_
      exact ⟨hpoint (IsCleaning m) not_false point' hpoint',
        hpoint (IsAdding m) (Ne.symm hm) point' hpoint'⟩
  | shouldCleanup modelId =>
    by_cases hm : m = modelId
    · subst hm
      constructor
      · intro hp _
        simp [Interleaved.settle, advance, Table.contains_erase] at hp
      · intro _ hc
        rcases hok with hzero | hother
        · exact absurd hzero hc.ne'
        · exact Interleaved.standing_settle.mpr (Or.inr hother)
    · refine h.settle_of_eq (by simp [advance, Table.contains_erase, hm]) rfl
        fun point' hpoint' => ?_
      exact ⟨hpoint (IsCleaning m) (Ne.symm hm) point' hpoint',
        hpoint (IsAdding m) not_false point' hpoint'⟩

theorem step_attended {e : Section Operation} (h : ∀ m, Attended s m) (hok : UpToDate s e)
    (hstep : step s e = some t) : ∀ m, Attended t m := by
  intro m
  cases e with
  | call id op =>
    obtain ⟨hid, rfl⟩ := Interleaved.step_call hstep
    exact attended_enter (h m) hid op
  | advance id =>
    obtain ⟨point, hid, rfl⟩ := Interleaved.step_advance hstep
    exact attended_advance (h m) hid (hok point hid)

/-! ## A model that is lost sight of

Calls in progress never attend to a model again by themselves: only a new call does. -/

/-- What stands at `p` after a section whose call has left `p` stood there before. -/
theorem standing_of_settle {p : Point → Prop} {done : PolicyRegistry × (Point ⊕ Option Policy)}
    (hnext : ∀ point, done.2 = .inl point → ¬ p point) (h : (s.settle id done).Standing p) :
    s.Another id p := by
  rcases Interleaved.standing_settle.mp h with ⟨point, hpoint, hp⟩ | hother
  · exact absurd hp (hnext point hpoint)
  · exact hother

/-- Only a call that has counted goes on, with a policy for its model. -/
theorem advance_next {point next : Point} {r : PolicyRegistry}
    (h : (advance point r).2 = .inl next) : ∃ modelId policyHint policy,
      point = .counted modelId policyHint ∧ next = .determined modelId policy := by
  cases point with
  | counted modelId policyHint =>
    simp only [advance] at h
    split at h
    · cases h
    · cases h
      exact ⟨_, _, _, rfl, rfl⟩
  | _ => cases h

theorem not_isCleaning_advance (point : Point) (r : PolicyRegistry) (m : String) :
    ∀ next, (advance point r).2 = .inl next → ¬ IsCleaning m next := by
  intro next hnext
  obtain ⟨_, _, _, -, rfl⟩ := advance_next hnext
  exact id

/-- The next point of a call that adds is one of the same model. -/
theorem isAdding_of_advance {point : Point} {r : PolicyRegistry} {next : Point}
    (hnext : (advance point r).2 = .inl next) (h : IsAdding m next) : IsAdding m point := by
  obtain ⟨_, _, _, rfl, rfl⟩ := advance_next hnext
  exact h

/-- A section of a call in progress does not make a model attended. -/
theorem attended_of_advance (hstep : step s (.advance id) = some t) (h : Attended t m) :
    Attended s m := by
  obtain ⟨point, hid, rfl⟩ := Interleaved.step_advance hstep
  have hcount : ∀ m, (advance point s.shared).1.workerCount m = s.shared.workerCount m := by
    intro m
    cases point with
    | counted modelId policyHint => simp only [advance]; split <;> rfl
    | determined modelId policy => rfl
    | shouldCleanup modelId => rfl
  constructor
  · intro hp hc
    by_cases hclean : IsCleaning m point
    · exact ⟨id, point, hid, hclean⟩
    · have hp' : (advance point s.shared).1.modelPolicies.contains m = true := by
        cases point with
        | counted modelId policyHint => simp only [advance]; split <;> exact hp
        | determined modelId policy => simp [advance, Table.contains_insert, hp]
        | shouldCleanup modelId => simpa [advance, Table.contains_erase, hp] using Ne.symm hclean
      have hstand := h.cleaning hp' ((hcount m).trans hc)
      exact (standing_of_settle (not_isCleaning_advance point s.shared m) hstand).standing
  · intro hp hc
    by_cases hadd : IsAdding m point
    · exact ⟨id, point, hid, hadd⟩
    · have hp' : (advance point s.shared).1.modelPolicies.contains m = false := by
        cases point with
        | counted modelId policyHint => simp only [advance]; split <;> exact hp
        | determined modelId policy => simpa [advance, Table.contains_insert, hp] using Ne.symm hadd
        | shouldCleanup modelId => simp [advance, Table.contains_erase, hp]
      have hstand := h.adding hp' ((hcount m).symm ▸ hc)
      exact (standing_of_settle (fun next hnext hnadd => hadd (isAdding_of_advance hnext hnadd))
        hstand).standing

/-- A section that is not up to date loses sight of the model of its call. -/
theorem not_attended_of_not_upToDate {e : Section Operation} (hok : ¬ UpToDate s e)
    (hstep : step s e = some t) : ∃ m, ¬ Attended t m := by
  cases e with
  | call id op => exact absurd trivial hok
  | advance id =>
    obtain ⟨point, hid, rfl⟩ := Interleaved.step_advance hstep
    have hat : ¬ UpToDateAt s id point := by
      intro hat
      refine hok fun point' hpoint' => ?_
      rw [hid] at hpoint'
      cases hpoint'
      exact hat
    cases point with
    | counted modelId policyHint => exact absurd trivial hat
    | determined modelId policy =>
      refine ⟨modelId, fun h => ?_⟩
      simp only [UpToDateAt, not_or, Nat.not_lt, Nat.le_zero] at hat
      have hstand := h.cleaning
        (by simp [Interleaved.settle, program, advance, Table.contains_insert]) hat.1
      exact hat.2 (standing_of_settle (not_isCleaning_advance _ _ _) hstand)
    | shouldCleanup modelId =>
      refine ⟨modelId, fun h => ?_⟩
      simp only [UpToDateAt, not_or] at hat
      have hstand := h.adding
        (by simp [Interleaved.settle, program, advance, Table.contains_erase])
        (Nat.pos_of_ne_zero hat.1)
      exact hat.2 (standing_of_settle (fun next hnext => by cases hnext) hstand)

/-! ## Runs -/

/-- How many sections a call has left. -/
def sectionsLeft : Point → Nat
  | .counted _ _ => 2
  | .determined _ _ => 1
  | .shouldCleanup _ => 1

theorem sectionsLeft_advance (point : Point) (r : PolicyRegistry) (next : Point)
    (h : (program.advance point r).2 = .inl next) : sectionsLeft next < sectionsLeft point := by
  obtain ⟨_, _, _, rfl, rfl⟩ := advance_next h
  exact Nat.lt_succ_self 1

/-- **Policies and counts agree between calls** in every run whose sections are up to date. The
condition is not only sufficient: after a section that is not, letting the calls in progress
finish, in any order, always ends with a model whose policy and count disagree. -/
theorem matched_of_upToDate (defaultPolicy : Policy) (es : List (Section Operation)) :
    (Along step UpToDate (init defaultPolicy) es →
      ∀ pre s, pre <+: es → run step (init defaultPolicy) pre = some s → s.Quiescent →
        s.shared.Matched) ∧
    (∀ s e t, run step (init defaultPolicy) es = some s → ¬ UpToDate s e → step s e = some t →
      (∃ rest u, Interleaved.Finishing rest ∧ run step t rest = some u ∧ u.Quiescent) ∧
      ∀ rest u, Interleaved.Finishing rest → run step t rest = some u → u.Quiescent →
        ¬ u.shared.Matched) := by
  constructor
  · intro hal pre s hpre hs hq
    rw [matched_iff_attended hq]
    exact run_invariant (fun _ _ _ => step_attended) pre _ s (attended_init defaultPolicy)
      (along_initial_segment hpre hal) hs
  · intro s e t _ hok hstep
    refine ⟨Interleaved.exists_quiescent sectionsLeft_advance t, fun rest u hrest hu hq => ?_⟩
    obtain ⟨m, hm⟩ := not_attended_of_not_upToDate hok hstep
    have hlost : ¬ Attended u m :=
      Interleaved.finishing_invariant (I := fun s => ¬ Attended s m)
        (fun _ _ _ hlost hadv hatt => hlost (attended_of_advance hadv hatt)) rest t u hrest hm hu
    exact fun hmatched => hlost ((matched_iff_attended hq).mp hmatched m)

/-- A model loses its worker while the call that added it has not stored the policy yet. -/
def removedWhileAdded : List (Section Operation) :=
  [.call 0 (.onWorkerAdded "m" none), .advance 0, .call 1 (.onWorkerRemoved "m"), .advance 0,
    .advance 1]

theorem matched_of_upToDate_removedWhileAdded :
    ∃ s, run step (init .roundRobin) removedWhileAdded = some s ∧ s.Quiescent ∧
      s.shared.Matched := by
  have hal : Along step UpToDate (init .roundRobin) removedWhileAdded := by decide
  exact ⟨_, rfl, rfl, (matched_of_upToDate .roundRobin removedWhileAdded).1 hal removedWhileAdded _
    (List.prefix_refl _) rfl rfl⟩

/-- **A model can end with a worker and no policy.** The last worker is uncounted; before the
policy goes, a new worker is counted and finds the policy that is about to be removed. -/
theorem exists_quiescent_not_matched :
    ∃ es s, run step (init .roundRobin) es = some s ∧ s.Quiescent ∧ ¬ s.shared.Matched := by
  refine ⟨[.call 0 (.onWorkerAdded "m" none), .advance 0, .advance 0,
    .call 1 (.onWorkerRemoved "m"), .call 2 (.onWorkerAdded "m" none), .advance 2, .advance 1],
    ⟨⟨Table.empty, Table.empty.insert "m" 1, .roundRobin⟩, Table.empty⟩, rfl, rfl, ?_⟩
  intro h
  have := (h "m").mpr (by decide)
  cases this

end PolicyRegistry

end CodexRouter.Policies
