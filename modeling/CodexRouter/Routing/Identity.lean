import CodexRouter.Routing.Shared

set_option autoImplicit false

/-! # Telemetry of an epoch that failed the identity check

A mismatch is meant to keep the telemetry of the epoch out until a new epoch is seen. Every step
keeps that up but one: a check that records its mismatch after telemetry of the same epoch was
installed, in the time since the check invalidated it.
-/

namespace CodexRouter.Routing

open Lib

variable {s : State} {url : String}

/-! ## What holds of a trusted state -/

/-- The telemetry of an epoch that failed the check is not in sync. -/
def State.Latched (s : State) : Prop :=
  ∀ url t, s.workers.get? url = some t → s.identityMismatches.get? url = some t.info.engine_epoch →
    t.synced = false

/-- No worker of a snapshot has observed evidence of an epoch that failed the check. -/
def State.Untrusting (s : State) : Prop :=
  ∀ (F : Type) (workers : List State.WorkerView) (features : RequestFeatures) (now : Nat)
    (backendLoad : String → Option (BackendLoadSnapshot F)) (home : Option SessionHomeSnapshot),
    ∀ w ∈ (s.snapshot workers features now backendLoad home).workers,
      ∀ tokens epoch sequence ageMs, w.evidence = .observed tokens epoch sequence ageMs →
        s.identityMismatches.get? w.workerUrl ≠ some epoch

theorem State.evidence_observed {features : RequestFeatures} {now tokens ageMs : Nat}
    {epoch : String} {sequence : Option Nat}
    (h : s.evidence features now url = .observed tokens epoch sequence ageMs) :
    ∃ t, s.workers.get? url = some t ∧ t.synced = true ∧ t.info.engine_epoch = epoch := by
  unfold State.evidence at h
  split at h
  · cases h
  · grind

theorem State.Latched.untrusting (h : s.Latched) : s.Untrusting := by
  intro F workers features now backendLoad home w hw tokens epoch sequence ageMs hobserved hepoch
  obtain ⟨i, hi, rfl⟩ := List.mem_mapIdx.mp hw
  obtain ⟨t, ht, hsynced, rfl⟩ := State.evidence_observed hobserved
  rw [h _ t ht hepoch] at hsynced
  cases hsynced

/-! ## Steps -/

theorem State.latched_init : State.init.Latched := nofun

theorem State.Latched.invalidate (h : s.Latched) (url : String) : (s.invalidate url).Latched := by
  unfold State.invalidate
  split
  · rename_i t ht
    intro url' t' ht' hepoch
    have ht' : (s.workers.insert url { t with synced := false }).get? url' = some t' := ht'
    rw [Table.get?_insert] at ht'
    split at ht'
    · cases ht'
      rfl
    · exact h url' t' ht' hepoch
  · exact h

theorem State.Latched.remove (h : s.Latched) (url : String) : (s.remove url).Latched := by
  intro url' t' ht' hepoch
  have ht' : (s.workers.erase url).get? url' = some t' := ht'
  rw [Table.get?_erase] at ht'
  split at ht'
  · cases ht'
  · exact h url' t' ht' hepoch

theorem State.Latched.install (h : s.Latched) (url : String) (telemetry : WorkerTelemetry) :
    (s.install url telemetry).Latched := by
  unfold State.install
  split
  · grind [Table.get?_insert, State.Latched]
  · intro url' t' ht' hepoch
    have ht' : (s.workers.insert url telemetry).get? url' = some t' := ht'
    have hepoch : (s.identityMismatches.erase url).get? url' = some t'.info.engine_epoch := hepoch
    rw [Table.get?_insert] at ht'
    rw [Table.get?_erase] at hepoch
    split at ht'
    · grind
    · grind [State.Latched]

/-- An answer of a controller can only take a mismatch away. -/
theorem State.Latched.observe (h : s.Latched) (url : String) (metadata : WorkerMetadata)
    (started : Nat) : (s.observe url metadata started).Latched := by
  grind [State.observe, State.Latched, Table.get?_erase]

theorem State.latched_recordMismatch (h : s.Latched) (epoch : String) :
    (s.recordMismatch url epoch).Latched ↔
      ∀ t, s.workers.get? url = some t → t.info.engine_epoch = epoch → t.synced = false := by
  have hget : ∀ url', (s.recordMismatch url epoch).identityMismatches.get? url'
      = if url' = url then some epoch else s.identityMismatches.get? url' := fun url' =>
    Table.get?_insert ..
  constructor
  · intro hlatched t ht hepoch
    refine hlatched url t ht ?_
    rw [hget, if_pos rfl, hepoch]
  · intro hsettled url' t' ht' hepoch
    rw [hget] at hepoch
    split at hepoch
    · rename_i hsame
      subst hsame
      exact hsettled t' ht' (Option.some.inj hepoch).symm
    · exact h url' t' ht' hepoch

/-! ## Runs -/

/-- A check records its mismatch while no telemetry of that epoch is in sync. -/
def recordsInTime (s : System) : Event → Prop
  | .recordFailed check => ∀ url epoch, s.validations[check]? = some ⟨url, epoch, true⟩ →
      ∀ t, s.state.workers.get? url = some t → t.info.engine_epoch = epoch → t.synced = false
  | _ => True

theorem latched_step {s t : System} {e : Event} (h : s.state.Latched)
    (hstep : step s e = some t) : t.state.Latched ↔ recordsInTime s e := by
  cases e with
  | invalidate url =>
    cases hstep
    exact iff_of_true (h.invalidate url) trivial
  | remove url =>
    cases hstep
    exact iff_of_true (h.remove url) trivial
  | install url telemetry =>
    cases hstep
    exact iff_of_true (h.install url telemetry) trivial
  | observe url metadata started =>
    cases hstep
    exact iff_of_true (h.observe url metadata started) trivial
  | compare url workerId engineEpoch =>
    unfold step at hstep
    refine iff_of_true ?_ trivial
    simp only at hstep
    split at hstep
    · cases hstep
      exact h
    · grind
  | invalidateFailed check =>
    unfold step at hstep
    refine iff_of_true ?_ trivial
    simp only at hstep
    split at hstep
    · cases hstep
      exact h.invalidate _
    · cases hstep
      exact h
  | recordFailed check =>
    unfold step at hstep
    simp only at hstep
    split at hstep
    · rename_i url epoch hcheck
      cases hstep
      rw [State.latched_recordMismatch h epoch]
      constructor
      · intro hsettled url' epoch' hcheck'
        rw [hcheck] at hcheck'
        cases hcheck'
        exact hsettled
      · exact fun hsettled => hsettled url epoch hcheck
    · rename_i hother
      cases hstep
      exact iff_of_true h fun url epoch hcheck => absurd hcheck (hother url epoch)

/-- **Mismatched epochs stay out.** In all states of an interleaving the telemetry of an epoch that
failed the identity check is not in sync, and no snapshot shows observed evidence of it, if and only
if every check records its mismatch while no telemetry of that epoch is in sync. -/
theorem mismatched_epochs_latched_iff (events : List Event) :
    (∀ pre s, pre <+: events → run step System.init pre = some s →
        s.state.Latched ∧ s.state.Untrusting) ↔
      Along step recordsInTime System.init events := by
  have htotal : ∀ s e, ∃ t, step s e = some t := by
    intro s e
    cases e with
    | compare url workerId engineEpoch =>
      unfold step
      simp only
      split
      · exact ⟨_, rfl⟩
      · split <;> exact ⟨_, rfl⟩
    | invalidateFailed check | recordFailed check =>
      unfold step
      simp only
      split <;> exact ⟨_, rfl⟩
    | _ => exact ⟨_, rfl⟩
  constructor
  · intro hall
    obtain ⟨t, ht⟩ := run_total htotal System.init events
    refine along_of_reached (P := fun s => s.state.Latched ∧ s.state.Untrusting)
      (Q := fun s => s.state.Latched) (fun s e u hs hu hstep => (latched_step hs hstep).mp hu.1)
      (fun s e u hs hok hstep => (latched_step hs hstep).mpr hok) events _ t State.latched_init ht
      hall
  · intro hal pre s hpre hrun
    have hlatched := run_invariant (P := fun s => s.state.Latched)
      (fun s e u hs hok hstep => (latched_step hs hstep).mpr hok) pre _ s State.latched_init
      (along_initial_segment hpre hal) hrun
    exact ⟨hlatched, hlatched.untrusting⟩

/-- Telemetry that a worker's bridge could have answered with. -/
def syncedTelemetry : WorkerTelemetry :=
  { info := ⟨1, "w", "epoch", "fingerprint", "model", 16⟩
    index := Telemetry.KvIndex.empty
    sequence := some 0
    synced := true
    supported := true
    observedAt := 0 }

/-- The collector installs the telemetry again between the last two sections of a check. -/
theorem reinstalled_between_sections :
    let events := [.install "http://w" syncedTelemetry, .compare "http://w" none none,
      .invalidateFailed 0, .install "http://w" syncedTelemetry, .recordFailed 0]
    let request : RequestFeatures := ⟨none, some [1, 2], none, none, none, 1, none⟩
    ((run step System.init events).map fun s =>
        ((s.state.workers.get? "http://w").map fun t => (t.info.engine_epoch, t.synced),
          s.state.identityMismatches.get? "http://w", s.state.evidence request 0 "http://w"))
      = some (some ("epoch", true), some "epoch", .observed 0 "epoch" (some 0) 0) := by
  decide +kernel

end CodexRouter.Routing
