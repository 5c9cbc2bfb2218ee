import CodexRouter.Ledger.Basic

set_option autoImplicit false

/-! # What one step of the ledger does

`StepCase` gives for each event the state after it, with the guards of the step resolved.
`Change` says less and is what most invariants need: how a step moves the load counters, the
attempts and the log.
-/

namespace CodexRouter.Ledger

open CodexRouter.Lib

/-! ## Updates -/

@[simp] theorem updateReservation_attempts (s : System) (id : Nat)
    (f : Reservation → Reservation) : (s.updateReservation id f).attempts = s.attempts := rfl

@[simp] theorem updateReservation_reservations (s : System) (id : Nat)
    (f : Reservation → Reservation) :
    (s.updateReservation id f).reservations = s.reservations.modify id f := rfl

variable {s t : System} {id : Nat} {url : Nat → String} {e : Event}

theorem updateAttempt_of_get? {a : Attempt} (h : s.attempts.get? id = some a)
    (f : Attempt → Attempt) :
    s.updateAttempt id f = { s with attempts := s.attempts.insert id (f a) } := by
  simp [System.updateAttempt, h]

theorem updateAttempt_of_none (h : s.attempts.get? id = none) (f : Attempt → Attempt) :
    s.updateAttempt id f = s := by
  simp [System.updateAttempt, h]

theorem observeResponseUsage_keeps (value : Json) (r : Reservation) :
    (r.observeResponseUsage value).worker = r.worker
      ∧ (r.observeResponseUsage value).phase = r.phase
      ∧ (r.observeResponseUsage value).dispatched_at = r.dispatched_at := by
  simp only [Reservation.observeResponseUsage]
  generalize (value.get? "response").getD value = response
  cases usageTokens response with
  | none => grind
  | some tokens => grind

/-! ## Release and finish -/

/-- What `release` logs for an attempt. -/
def released (url : Nat → String) (id : Nat) (a : Attempt) (success : Bool) : List Effect :=
  [.complete id a.policy (url a.worker) success, .decrement id a.worker]

/-- The sample of a completion, when the reservation was sent and has a context. -/
def Reservation.samples (r : Reservation) (id : Nat) (success : Bool) (now : Nat) :
    List Effect :=
  match r.dispatched_at, r.sample_context with
  | some started, some context =>
    [.sample id success (now - started) context r.output_tokens r.finish_reason]
  | _, _ => []

def Reservation.callbacks (r : Reservation) (id : Nat) (success : Bool) : List Effect :=
  match success, r.on_success with
  | true, some callback => [.callback id callback]
  | _, _ => []

/-- What a `finish` that removed the attempt leaves of the reservation. -/
def Reservation.spent (r : Reservation) (success : Bool) : Reservation :=
  { r with
    sample_context := none
    on_success := if success then none else r.on_success }

section Finish

variable {url : Nat → String} {s : System} {id : Nat} {a : Attempt} {r : Reservation}

theorem release_of_get? (h : s.attempts.get? id = some a) (success : Bool) :
    release url id success s
      = ({ s with
          attempts := s.attempts.erase id
          loads := setLoad s.loads a.worker (s.loads a.worker - 1)
          log := released url id a success ++ s.log }, true) := by
  simp [release, h, released]

theorem release_of_none (h : s.attempts.get? id = none) (success : Bool) :
    release url id success s = (s, false) := by
  simp [release, h]

theorem finish_of_none (h : s.attempts.get? id = none) (success : Bool) (now : Nat) :
    finish url id success now s = s := by
  simp [finish, release_of_none h]

theorem emitSample_eq (hr : s.reservations[id]? = some r) (success : Bool) (now : Nat) :
    emitSample id success now s
      = { s with
          reservations := s.reservations.modify id fun r => { r with sample_context := none }
          log := r.samples id success now ++ s.log } := by
  simp only [emitSample, hr, Reservation.samples, System.updateReservation]
  cases r.dispatched_at with
  | none => rfl
  | some started => grind

theorem runCallback_eq (hr : s.reservations[id]? = some r) (success : Bool) :
    runCallback id success s
      = { s with
          reservations := s.reservations.modify id fun r =>
            { r with on_success := if success then none else r.on_success }
          log := r.callbacks id success ++ s.log } := by
  -- without a callback to run the reservation is left alone
  have hkeep : ∀ f : Reservation → Reservation, f r = r → s.reservations.modify id f
      = s.reservations := by
    intro f hf
    apply List.ext_getElem?
    intro j
    by_cases hj : id = j
    · subst hj
      simp [hr, hf]
    · simp [hj]
  simp only [runCallback, hr, Option.bind_some, Reservation.callbacks, System.updateReservation]
  cases success with
  | false => simp [hkeep]
  | true =>
    cases hcb : r.on_success with
    | none => simp [hkeep, ← hcb]
    | some callback => simp

theorem finish_of_get? (h : s.attempts.get? id = some a) (hr : s.reservations[id]? = some r)
    (success : Bool) (now : Nat) :
    finish url id success now s
      = { s with
          attempts := s.attempts.erase id
          loads := setLoad s.loads a.worker (s.loads a.worker - 1)
          reservations := s.reservations.modify id fun r => r.spent success
          log := r.callbacks id success ++ (r.samples id success now
            ++ (released url id a success ++ s.log)) } := by
  let u : System :=
    { s with
      attempts := s.attempts.erase id
      loads := setLoad s.loads a.worker (s.loads a.worker - 1)
      log := released url id a success ++ s.log }
  have hu : finish url id success now s = runCallback id success (emitSample id success now u) := by
    simp [finish, release_of_get? h, u]
  have hsample := emitSample_eq (s := u) hr success now
  rw [hu, hsample,
    runCallback_eq (r := { r with sample_context := none }) (by simp [u, hr]),
    List.modify_modify_eq]
  rfl

end Finish

/-! ## The cases of a step -/

/-- The state after each event. `idle` are the calls that find nothing to do. -/
inductive StepCase (url : Nat → String) (s : System) : Event → System → Prop
  | reserve (workers : List Nat) (policy worker : Nat) (select : Option Nat) :
      StepCase url s (.reserve workers policy select)
        { s with
          loads := setLoad s.loads worker (s.loads worker + 1)
          attempts := s.attempts.insert s.reservations.length ⟨worker, policy, .reserved, none⟩
          reservations := s.reservations ++ [⟨worker, .live, none, none, none, none, none⟩] }
  | idle (e : Event) : StepCase url s e s
  | dispatched (id now : Nat) (r : Reservation) (a : Attempt) :
      s.reservations[id]? = some r → r.phase = .live → s.attempts.get? id = some a →
      StepCase url s (.dispatched id now)
        { s with
          attempts := s.attempts.insert id { a with state := .dispatched }
          reservations := s.reservations.modify id fun r =>
            { r with dispatched_at := r.dispatched_at.or (some now) }
          log := .dispatched id :: s.log }
  | setEpoch (id : Nat) (epoch : String) (r : Reservation) (a : Attempt) :
      s.reservations[id]? = some r → r.phase = .live → s.attempts.get? id = some a →
      StepCase url s (.setEpoch id epoch)
        { s with attempts := s.attempts.insert id { a with epoch := some epoch } }
  | method (e : Event) (id : Nat) (f : Reservation → Reservation)
      (hf : ∀ r, (f r).worker = r.worker ∧ (f r).phase = r.phase
        ∧ (f r).dispatched_at = r.dispatched_at) :
      StepCase url s e (s.updateReservation id f)
  | finish (id : Nat) (success : Bool) (now : Nat) (r : Reservation) (a : Attempt) :
      s.reservations[id]? = some r → r.phase = .live → s.attempts.get? id = some a →
      StepCase url s (.finish id success now)
        { s with
          attempts := s.attempts.erase id
          loads := setLoad s.loads a.worker (s.loads a.worker - 1)
          reservations := s.reservations.modify id fun r => r.spent success
          log := r.callbacks id success ++ (r.samples id success now
            ++ (released url id a success ++ s.log)) }
  | leave (id : Nat) (phase : Phase) (e : Event) (r : Reservation) :
      s.reservations[id]? = some r → r.phase ≠ .dropped →
      StepCase url s e (s.updateReservation id fun r => { r with phase := phase })
  | orphan (id : Nat) (r : Reservation) (a : Attempt) :
      s.reservations[id]? = some r → r.phase = .live → s.attempts.get? id = some a →
      a.state ≠ .reserved →
      StepCase url s (.drop id)
        { s with
          attempts := s.attempts.insert id { a with state := .unknown }
          reservations := s.reservations.modify id fun r => { r with phase := .dropped } }
  | dropFinish (id now : Nat) (r : Reservation) (a : Attempt) :
      s.reservations[id]? = some r → r.phase = .dropping → s.attempts.get? id = some a →
      StepCase url s (.dropFinish id now)
        { s with
          attempts := s.attempts.erase id
          loads := setLoad s.loads a.worker (s.loads a.worker - 1)
          reservations := s.reservations.modify id fun r =>
            { r.spent false with phase := .dropped }
          log := r.samples id false now ++ (released url id a false ++ s.log) }
  | observeEpoch (worker_url epoch : String) :
      StepCase url s (.observeEpoch worker_url epoch)
        { s with
          observers := s.observers
            ++ [⟨worker_url, epoch, collectIds url worker_url epoch s.attempts⟩] }
  | observeRelease (o i id : Nat) (old : String) (observer : Observer) (a : Attempt) :
      s.observers[o]? = some observer → observer.ids[i]? = some (id, old) →
      s.attempts.get? id = some a →
      StepCase url s (.observeRelease o i)
        { s with
          attempts := s.attempts.erase id
          loads := setLoad s.loads a.worker (s.loads a.worker - 1)
          observers := s.observers.modify o fun ob => { ob with ids := ob.ids.eraseIdx i }
          log := released url id a false ++ s.log }
  | observeMissed (o i : Nat) :
      StepCase url s (.observeRelease o i)
        { s with observers := s.observers.modify o fun ob => { ob with ids := ob.ids.eraseIdx i } }
  | healthCycle (workers : List Nat) (check_count : Nat) (resets : List Nat) :
      StepCase url s (.healthCycle workers)
        { s with check_count := check_count, resets := resets }
  | resetLoad (worker : Nat) (resets : List Nat) :
      s.resets = worker :: resets →
      StepCase url s .resetLoad { s with loads := setLoad s.loads worker 0, resets := resets }

theorem inPhase_iff {phase : Phase} :
    s.inPhase id phase = true ↔ ∃ r, s.reservations[id]? = some r ∧ r.phase = phase := by
  simp [System.inPhase, Option.any_eq_true]

theorem step_case (h : step url s e = some t) : StepCase url s e t := by
  cases e with
  | reserve workers policy select =>
    simp only [step, selectAndReserve, Option.some.injEq] at h
    split at h
    · exact h ▸ .reserve workers policy _ select
    · exact h ▸ .idle _
  | dispatched id now =>
    obtain ⟨hlive, h⟩ := Option.ite_none_right_eq_some.mp h
    obtain ⟨r, hr, hphase⟩ := inPhase_iff.mp hlive
    split at h
    · rename_i hin
      obtain ⟨a, ha⟩ := Option.isSome_iff_exists.mp hin
      simp only [updateAttempt_of_get? ha, Option.some.injEq] at h
      exact h ▸ .dispatched id now r a hr hphase ha
    · exact Option.some.inj h ▸ .idle _
  | setEpoch id epoch =>
    obtain ⟨hlive, ⟨⟩⟩ := Option.ite_none_right_eq_some.mp h
    obtain ⟨r, hr, hphase⟩ := inPhase_iff.mp hlive
    cases ha : s.attempts.get? id with
    | none =>
      rw [updateAttempt_of_none ha]
      exact .idle _
    | some a =>
      rw [updateAttempt_of_get? ha]
      exact .setEpoch id epoch r a hr hphase ha
  | setSampleContext id context | onSuccess id callback =>
    obtain ⟨-, ⟨⟩⟩ := Option.ite_none_right_eq_some.mp h
    exact .method _ id _ fun _ => ⟨rfl, rfl, rfl⟩
  | observeResponseUsage id value =>
    obtain ⟨-, ⟨⟩⟩ := Option.ite_none_right_eq_some.mp h
    exact .method _ id _ (observeResponseUsage_keeps value)
  | finish id success now =>
    obtain ⟨hlive, ⟨⟩⟩ := Option.ite_none_right_eq_some.mp h
    obtain ⟨r, hr, hphase⟩ := inPhase_iff.mp hlive
    cases ha : s.attempts.get? id with
    | none =>
      rw [finish_of_none ha]
      exact .idle _
    | some a =>
      rw [finish_of_get? ha hr]
      exact .finish id success now r a hr hphase ha
  | drop id =>
    obtain ⟨hlive, ⟨⟩⟩ := Option.ite_none_right_eq_some.mp h
    obtain ⟨r, hr, hphase⟩ := inPhase_iff.mp hlive
    have hleave : ∀ phase, StepCase url s (.drop id)
        (s.updateReservation id fun r => { r with phase := phase }) := fun phase =>
      .leave id phase _ r hr (by simp [hphase])
    cases ha : s.attempts.get? id with
    | none =>
      simp only [dropEnter, ha]
      exact hleave .dropped
    | some a =>
      simp only [dropEnter, ha]
      split
      · exact hleave .dropping
      · rename_i hstate
        rw [updateAttempt_of_get? ha]
        exact .orphan id r a hr hphase ha hstate
  | dropFinish id now =>
    obtain ⟨hdropping, ⟨⟩⟩ := Option.ite_none_right_eq_some.mp h
    obtain ⟨r, hr, hphase⟩ := inPhase_iff.mp hdropping
    cases ha : s.attempts.get? id with
    | none =>
      rw [finish_of_none ha]
      exact .leave id .dropped _ r hr (by simp [hphase])
    | some a =>
      rw [finish_of_get? ha hr]
      simp only [System.updateReservation, List.modify_modify_eq]
      exact .dropFinish id now r a hr hphase ha
  | observeEpoch worker_url epoch =>
    cases h
    exact .observeEpoch worker_url epoch
  | observeRelease o i =>
    simp only [step] at h
    split at h
    · rename_i observer ho
      split at h
      · rename_i id old hi
        rw [Option.some.injEq] at h
        cases ha : s.attempts.get? id with
        | none =>
          rw [release_of_none ha] at h
          exact h ▸ .observeMissed o i
        | some a =>
          rw [release_of_get? ha] at h
          exact h ▸ .observeRelease o i id old observer a ho hi ha
      · cases h
    · cases h
  | healthCycle workers =>
    obtain ⟨-, ⟨⟩⟩ := Option.ite_none_right_eq_some.mp h
    exact .healthCycle workers _ _
  | resetLoad =>
    simp only [step] at h
    split at h
    · rename_i worker resets hresets
      exact Option.some.inj h ▸ .resetLoad worker resets hresets
    · cases h

/-! ## Loads, attempts and log -/

/-- What a step logs beyond a release: a `finish` that removed the attempt of `id` itself. -/
inductive Settling (s : System) (id : Nat) (success : Bool) : Event → List Effect → Prop
  | nothing (e : Event) : Settling s id success e []
  | finish (r : Reservation) (now : Nat) : s.reservations[id]? = some r →
      Settling s id success (.finish id success now)
        (r.callbacks id success ++ r.samples id success now)
  | dropFinish (r : Reservation) (now : Nat) : s.reservations[id]? = some r → success = false →
      Settling s id success (.dropFinish id now) (r.samples id success now)

/-- How a step moves the load counters, the attempts and the log. A reset is told apart by its
event. -/
inductive Change (url : Nat → String) (s : System) (e : Event) (t : System) : Prop
  | kept : t.loads = s.loads → t.attempts = s.attempts → t.log = s.log →
      t.reservations.length = s.reservations.length → Change url s e t
  | reserved (a : Attempt) (r : Reservation) :
      t.loads = setLoad s.loads a.worker (s.loads a.worker + 1) →
      t.attempts = s.attempts.insert s.reservations.length a → t.log = s.log →
      t.reservations = s.reservations ++ [r] → r.worker = a.worker → r.dispatched_at = none →
      Change url s e t
  | amended (id : Nat) (a b : Attempt) (dispatched : List Effect) :
      s.attempts.get? id = some a → b.worker = a.worker → t.loads = s.loads →
      t.attempts = s.attempts.insert id b → t.log = dispatched ++ s.log →
      (∀ x ∈ dispatched, x = .dispatched id) →
      (b.state = .reserved → a.state = .reserved ∧ dispatched = []) →
      t.reservations.length = s.reservations.length → Change url s e t
  | released (id : Nat) (a : Attempt) (success : Bool) (settled : List Effect) :
      s.attempts.get? id = some a → t.loads = setLoad s.loads a.worker (s.loads a.worker - 1) →
      t.attempts = s.attempts.erase id →
      t.log = settled ++ (released url id a success ++ s.log) →
      Settling s id success e settled →
      t.reservations.length = s.reservations.length → Change url s e t
  | reset : e = .resetLoad → t.attempts = s.attempts → t.log = s.log →
      t.reservations.length = s.reservations.length → Change url s e t

theorem StepCase.change (h : StepCase url s e t) : Change url s e t := by
  cases h with
  | reserve workers policy worker select =>
    exact .reserved ⟨worker, policy, .reserved, none⟩
      ⟨worker, .live, none, none, none, none, none⟩ rfl rfl rfl rfl rfl rfl
  | dispatched id now r a hr hphase ha =>
    exact .amended id a { a with state := .dispatched } [.dispatched id] ha rfl rfl rfl rfl
      (by simp) (fun h => by cases h) (by simp)
  | setEpoch id epoch r a hr hphase ha =>
    exact .amended id a { a with epoch := some epoch } [] ha rfl rfl rfl rfl (by simp)
      (fun h => ⟨h, rfl⟩) rfl
  | method => exact .kept rfl rfl rfl (by simp)
  | finish id success now r a hr hphase ha =>
    exact .released id a success _ ha rfl rfl (List.append_assoc ..).symm (.finish r now hr)
      (by simp)
  | leave => exact .kept rfl rfl rfl (by simp)
  | orphan id r a hr hphase ha hstate =>
    exact .amended id a { a with state := .unknown } [] ha rfl rfl rfl rfl (by simp)
      (fun h => by cases h) (by simp)
  | dropFinish id now r a hr hphase ha =>
    exact .released id a false _ ha rfl rfl rfl (.dropFinish r now hr rfl) (by simp)
  | observeRelease o i id old observer a ho hi ha =>
    exact .released id a false [] ha rfl rfl rfl (.nothing _) rfl
  | resetLoad => exact .reset rfl rfl rfl rfl
  | _ => exact .kept rfl rfl rfl rfl

/-- Identities are drawn fresh: no attempt has the identity of a coming reservation. -/
def Fresh (s : System) : Prop :=
  ∀ id, s.attempts.contains id = true → id < s.reservations.length

theorem Fresh.step (h : Fresh s) (hstep : step url s e = some t) : Fresh t := by
  intro id hid
  cases (step_case hstep).change with
  | kept _ hattempts _ hlen => exact hlen ▸ h id (hattempts ▸ hid)
  | reserved a r _ hattempts _ hres =>
    have hlen : t.reservations.length = s.reservations.length + 1 := by simp [hres]
    rw [hattempts, Table.contains_insert, Bool.or_eq_true, decide_eq_true_eq] at hid
    rcases hid with rfl | hid
    · omega
    · have := h id hid
      omega
  | amended id' a b _ hget _ _ hattempts _ _ _ hlen =>
    rw [hattempts, Table.contains_insert, Bool.or_eq_true, decide_eq_true_eq] at hid
    rcases hid with rfl | hid
    · exact hlen ▸ h id (by simp [Table.contains, hget])
    · exact hlen ▸ h id hid
  | released id' a _ _ _ _ hattempts _ _ hlen =>
    rw [hattempts, Table.contains_erase, Bool.and_eq_true] at hid
    exact hlen ▸ h id hid.2
  | reset _ hattempts _ hlen => exact hlen ▸ h id (hattempts ▸ hid)

theorem fresh_init : Fresh System.init := by
  intro id hid
  simp [System.init, Table.contains, Table.get?] at hid

theorem Fresh.not_contains (h : Fresh s) : s.attempts.contains s.reservations.length = false := by
  by_contra hin
  have := h _ (by simpa using hin)
  omega

end CodexRouter.Ledger
