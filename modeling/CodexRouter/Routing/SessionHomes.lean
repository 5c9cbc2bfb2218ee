import CodexRouter.Ledger.Steps
import CodexRouter.Routing.Sessions

set_option autoImplicit false

/-! # Who writes the home of a session

A callback runs after the lock of the ledger is given back, so the telemetry may have changed
since the attempt was reserved. What it captured at the reservation still fits the attempt that
the completion released: the invariant `Homed` ties the two together.
-/

namespace CodexRouter.Routing

open Lib

/-! ## Sections that leave workers, epochs and callbacks alone -/

/-- No attempt is new, and none changes its worker or epoch; a reservation keeps its worker, and
its callback or none. -/
structure Kept (l l' : Ledger.System) : Prop where
  attempts : ∀ id a', l'.attempts.get? id = some a' →
    ∃ a, l.attempts.get? id = some a ∧ a.worker = a'.worker ∧ a.epoch = a'.epoch
  reservations : ∀ (id : Nat) (r : Ledger.Reservation), l.reservations[id]? = some r →
    ∃ r' : Ledger.Reservation, l'.reservations[id]? = some r' ∧ r'.worker = r.worker ∧
      (r'.on_success = r.on_success ∨ r'.on_success = none)
  length : l'.reservations.length = l.reservations.length

namespace Kept

variable {l l' l'' : Ledger.System}

theorem refl (l : Ledger.System) : Kept l l :=
  ⟨fun _ a h => ⟨a, h, rfl, rfl⟩, fun _ r h => ⟨r, h, rfl, Or.inl rfl⟩, rfl⟩

theorem trans (h : Kept l l') (h' : Kept l' l'') : Kept l l'' where
  attempts id a'' ha'' := by
    obtain ⟨a', ha', hw', he'⟩ := h'.attempts id a'' ha''
    obtain ⟨a, ha, hw, he⟩ := h.attempts id a' ha'
    exact ⟨a, ha, hw.trans hw', he.trans he'⟩
  reservations id r hr := by
    obtain ⟨r', hr', hw, hs⟩ := h.reservations id r hr
    obtain ⟨r'', hr'', hw', hs'⟩ := h'.reservations id r' hr'
    refine ⟨r'', hr'', hw'.trans hw, ?_⟩
    rcases hs' with hs' | hs'
    · grind
    · exact Or.inr hs'
  length := h'.length.trans h.length

section

variable (l : Ledger.System) (id : Nat)

theorem updateAttempt {f : Ledger.Attempt → Ledger.Attempt}
    (hf : ∀ a, (f a).worker = a.worker ∧ (f a).epoch = a.epoch) :
    Kept l (l.updateAttempt id f) := by
  cases hget : l.attempts.get? id with
  | none =>
    rw [Ledger.updateAttempt_of_none hget]
    exact refl l
  | some a =>
    rw [Ledger.updateAttempt_of_get? hget]
    refine ⟨fun j a' ha' => ?_, (refl l).reservations, rfl⟩
    rw [Table.get?_insert] at ha'
    split at ha'
    · next hj =>
      cases ha'
      exact ⟨a, hj ▸ hget, (hf a).1.symm, (hf a).2.symm⟩
    · exact ⟨a', ha', rfl, rfl⟩

theorem updateReservation {f : Ledger.Reservation → Ledger.Reservation}
    (hf : ∀ r, (f r).worker = r.worker ∧ ((f r).on_success = r.on_success ∨ (f r).on_success =
      none)) :
    Kept l (l.updateReservation id f) := by
  refine ⟨(refl l).attempts, fun j r hr => ?_, List.length_modify _ _ _⟩
  rw [Ledger.updateReservation_reservations, List.getElem?_modify, hr]
  by_cases hj : id = j
  · exact ⟨f r, by simp [hj], hf r⟩
  · exact ⟨r, by simp [hj], rfl, Or.inl rfl⟩

theorem release (url : Nat → String) (success : Bool) :
    Kept l (Ledger.release url id success l).1 := by
  cases hget : l.attempts.get? id with
  | none =>
    rw [Ledger.release_of_none hget]
    exact refl l
  | some a =>
    rw [Ledger.release_of_get? hget]
    refine ⟨fun j a' ha' => ?_, (refl l).reservations, rfl⟩
    rw [Table.get?_erase] at ha'
    split at ha'
    · cases ha'
    · exact ⟨a', ha', rfl, rfl⟩

theorem emitSample (success : Bool) (now : Nat) :
    Kept l (Ledger.emitSample id success now l) := by
  cases hr : l.reservations[id]? with
  | none =>
    rw [Ledger.emitSample, hr]
    exact refl l
  | some r =>
    rw [Ledger.emitSample_eq hr]
    have h := updateReservation l id (f := fun r => { r with sample_context := none })
      fun r => ⟨rfl, Or.inl rfl⟩
    exact ⟨h.attempts, h.reservations, h.length⟩

theorem runCallback (success : Bool) :
    Kept l (Ledger.runCallback id success l) := by
  cases hr : l.reservations[id]? with
  | none =>
    have hsame : Ledger.runCallback id success l = l := by
      cases success <;> simp [Ledger.runCallback, hr]
    rw [hsame]
    exact refl l
  | some r =>
    rw [Ledger.runCallback_eq hr]
    have h := updateReservation l id
      (f := fun r => { r with on_success := if success then none else r.on_success })
      fun r => ⟨rfl, by cases success <;> simp⟩
    exact ⟨h.attempts, h.reservations, h.length⟩

theorem finish (url : Nat → String) (success : Bool) (now : Nat) :
    Kept l (Ledger.finish url id success now l) := by
  have h := release l id url success
  rw [Ledger.finish]
  generalize Ledger.release url id success l = released at h ⊢
  obtain ⟨l', done⟩ := released
  cases done with
  | false => exact h
  | true => exact h.trans ((emitSample l' id success now).trans (runCallback _ id success))

theorem dropEnter : Kept l (Ledger.dropEnter id l) := by
  rw [Ledger.dropEnter]
  split
  · split
    · exact updateReservation l id fun r => ⟨rfl, Or.inl rfl⟩
    · refine (updateAttempt l id ?_).trans (updateReservation _ id ?_)
      · exact fun a => ⟨rfl, rfl⟩
      · exact fun r => ⟨rfl, Or.inl rfl⟩
  · exact updateReservation l id fun r => ⟨rfl, Or.inl rfl⟩

end

end Kept

section Sections

variable {F : Type} {url : Nat → String} {config : SharedConfig F}

/-- The reservation that a call has made and not completed, with its arguments. -/
def SharedPoint.reserves : SharedPoint → Option (Nat × ReserveArgs)
  | .reserved id args => some (id, args)
  | .epochRead id args _ => some (id, args)
  | _ => none

/-- A section that neither makes nor completes a reservation, of a call that has made `own`. -/
structure Quiet (s : Shared) (own : Option (Nat × ReserveArgs))
    (done : Shared × (SharedPoint ⊕ SharedReturn)) : Prop where
  kept : Kept s.ledger done.1.ledger
  callbacks : done.1.callbacks = s.callbacks
  next : ∀ p, done.2 = .inl p → p.reserves = none ∨ p.reserves = own

theorem Quiet.returns {s t : Shared} {own : Option (Nat × ReserveArgs)} {result : SharedReturn}
    (hkept : Kept s.ledger t.ledger) (hcallbacks : t.callbacks = s.callbacks) :
    Quiet s own (t, .inr result) :=
  ⟨hkept, hcallbacks, by rintro p ⟨⟩⟩

theorem Quiet.goesOn {s t : Shared} {own : Option (Nat × ReserveArgs)} {p : SharedPoint}
    (hkept : Kept s.ledger t.ledger) (hcallbacks : t.callbacks = s.callbacks)
    (hp : p.reserves = none ∨ p.reserves = own) : Quiet s own (t, .inl p) :=
  ⟨hkept, hcallbacks, by rintro q ⟨⟩; exact hp⟩

theorem quiet_finishSection (id : Nat) (success : Bool) (s : Shared) :
    Quiet s none (finishSection url id success s) := by
  have hkept := Kept.finish s.ledger id url success s.now
  unfold finishSection
  split
  · split
    · exact Quiet.goesOn hkept rfl (Or.inl rfl)
    · exact Quiet.returns hkept rfl
  · exact Quiet.returns hkept rfl

theorem quiet_enterShared (op : SharedOperation) (s : Shared) :
    Quiet s none (enterShared url config op s) := by
  cases op with
  | reserveWithObservations args | install worker_url telemetry =>
    exact Quiet.goesOn (Kept.refl _) rfl (Or.inl rfl)
  | dispatched id =>
    refine Quiet.returns ?_ ?_
    · unfold dispatchedSection
      split
      · refine (Kept.updateAttempt s.ledger id ?_).trans (Kept.updateReservation _ id ?_)
        · exact fun a => ⟨rfl, rfl⟩
        · exact fun r => ⟨rfl, Or.inl rfl⟩
      · exact Kept.refl _
    · unfold dispatchedSection
      split <;> rfl
  | finish id success => exact quiet_finishSection id success s
  | drop id =>
    simp only [enterShared]
    split
    · exact Quiet.goesOn (Kept.dropEnter s.ledger id) rfl (Or.inl rfl)
    · exact Quiet.returns (Kept.dropEnter s.ledger id) rfl
  | validateResponseIdentity worker_url workerId engineEpoch =>
    simp only [enterShared]
    split
    · exact Quiet.returns (Kept.refl _) rfl
    · split
      · exact Quiet.returns (Kept.refl _) rfl
      · split
        · exact Quiet.returns (Kept.refl _) rfl
        · exact Quiet.goesOn (Kept.refl _) rfl (Or.inl rfl)
  | _ => exact Quiet.returns (Kept.refl _) rfl

variable (config) in
theorem runSessionCallback_ledger (callback : SessionCallback) (s : Shared) :
    (runSessionCallback config callback s).ledger = s.ledger ∧
      (runSessionCallback config callback s).callbacks = s.callbacks := by
  unfold runSessionCallback
  dsimp only
  split
  · exact ⟨rfl, rfl⟩
  · exact ⟨rfl, rfl⟩

variable (url config) in
/-- The sections of a call in progress: one makes the reservation, one completes it, and the
others are quiet. -/
theorem advanceShared_cases (p : SharedPoint) (s : Shared) :
    (∃ args, p = .observing [] args) ∨ (∃ id args epoch, p = .epochRead id args epoch) ∨
      Quiet s p.reserves (advanceShared url config p s) := by
  cases p with
  | observing rest args =>
    cases rest with
    | nil => exact Or.inl ⟨args, rfl⟩
    | cons entry rest => exact Or.inr (Or.inr (Quiet.goesOn (Kept.refl _) rfl (Or.inl rfl)))
  | reserved id args => exact Or.inr (Or.inr (Quiet.goesOn (Kept.refl _) rfl (Or.inr rfl)))
  | epochRead id args epoch => exact Or.inr (Or.inl ⟨id, args, epoch, rfl⟩)
  | released callback =>
    obtain ⟨hledger, hcallbacks⟩ := runSessionCallback_ledger config callback s
    exact Or.inr (Or.inr (Quiet.returns (hledger ▸ Kept.refl _) hcallbacks))
  | dropping id =>
    refine Or.inr (Or.inr (Quiet.returns ?_ rfl))
    exact (Kept.finish s.ledger id url false s.now).trans
      (Kept.updateReservation _ id fun r => ⟨rfl, Or.inl rfl⟩)
  | installing ids worker_url telemetry =>
    cases ids with
    | nil => exact Or.inr (Or.inr (Quiet.returns (Kept.refl _) rfl))
    | cons id rest =>
      exact Or.inr (Or.inr (Quiet.goesOn (Kept.release s.ledger id url false) rfl
        (Or.inl rfl)))
  | mismatched worker_url epoch =>
    exact Or.inr (Or.inr (Quiet.goesOn (Kept.refl _) rfl (Or.inl rfl)))
  | invalidated worker_url epoch => exact Or.inr (Or.inr (Quiet.returns (Kept.refl _) rfl))

theorem modify_length_append {α : Type} (l : List α) (x : α) (f : α → α) :
    (l ++ [x]).modify l.length f = l ++ [f x] := by
  induction l with
  | nil => rfl
  | cons y l ih => simpa using ih

/-- A reservation: nothing is selected, or a fresh attempt without a callback is made. -/
theorem reserveSection_cases (args : ReserveArgs) (s : Shared) :
    reserveSection args s = (s, .inr (.reservation none)) ∨
      ∃ worker r t, (args.select.bind fun index => args.workers[index]?) = some worker ∧
        reserveSection args s = (t, .inl (.reserved s.ledger.reservations.length args)) ∧
        t.ledger.attempts = s.ledger.attempts.insert s.ledger.reservations.length
          ⟨worker, args.policy, .reserved, none⟩ ∧
        t.ledger.reservations = s.ledger.reservations ++ [r] ∧ r.worker = worker ∧
        r.on_success = none ∧ t.callbacks = s.callbacks ∧ t.sessions = s.sessions := by
  unfold reserveSection
  cases hselect : args.select.bind fun index => args.workers[index]? with
  | none => exact Or.inl rfl
  | some worker =>
    right
    cases hsample : args.sample with
    | none =>
      refine ⟨worker, ⟨worker, .live, none, none, none, none, none⟩, _, rfl, rfl, ?_⟩
      simp [Ledger.selectAndReserve, hselect]
    | some sample =>
      refine ⟨worker, ⟨worker, .live, none, none, sample.obj?, none, none⟩, _, rfl, rfl, ?_⟩
      simp [Ledger.selectAndReserve, hselect, modify_length_append]

theorem recordEpoch_reservations (id : Nat) (epoch : Option String) (l : Ledger.System) :
    (recordEpoch id epoch l).reservations = l.reservations := by
  cases epoch with
  | none => rfl
  | some epoch =>
    rw [recordEpoch, Ledger.System.updateAttempt]
    split <;> rfl

theorem recordEpoch_attempts {id j : Nat} {epoch : Option String} {l : Ledger.System}
    {a' : Ledger.Attempt} (h : (recordEpoch id epoch l).attempts.get? j = some a') :
    ∃ a, l.attempts.get? j = some a ∧ a.worker = a'.worker ∧
      (j ≠ id → a'.epoch = a.epoch) ∧ (j = id → epoch.isSome → a'.epoch = epoch) := by
  cases epoch with
  | none => exact ⟨a', h, rfl, fun _ => rfl, fun _ hepoch => by cases hepoch⟩
  | some epoch =>
    rw [recordEpoch] at h
    cases hget : l.attempts.get? id with
    | none => grind [Ledger.updateAttempt_of_none]
    | some a => grind [Ledger.updateAttempt_of_get?, Table.get?_insert]

variable (url config) in
/-- What the end of a reservation does: it records the epoch, and makes no callback or the one
for this reservation. -/
theorem completeReservation_cases {id : Nat} {s : Shared} {r : Ledger.Reservation}
    (hr : s.ledger.reservations[id]? = some r) (args : ReserveArgs) (epoch : Option String) :
    let t := completeReservation url config id args epoch s
    t.ledger.attempts = (recordEpoch id epoch s.ledger).attempts ∧ t.sessions = s.sessions ∧
      ((t.callbacks = s.callbacks ∧ t.ledger.reservations = s.ledger.reservations) ∨
        ∃ key, sessionKey config args.features = some key ∧
          (config.endpointIdentity = true ∨ epoch.isSome = true) ∧
          t.callbacks = s.callbacks ++ [⟨key, url r.worker, epoch.getD ""⟩] ∧
          t.ledger.reservations = s.ledger.reservations.modify id fun r =>
            { r with on_success := some s.callbacks.length }) := by
  have hledger := recordEpoch_reservations id epoch s.ledger
  unfold completeReservation
  rw [hr]
  cases hkey : sessionKey config args.features with
  | none => exact ⟨rfl, rfl, Or.inl ⟨rfl, hledger⟩⟩
  | some key =>
    dsimp only
    split
    · next hmade =>
      refine ⟨rfl, rfl, Or.inr ⟨key, rfl, hmade, rfl, ?_⟩⟩
      rw [Ledger.updateReservation_reservations, hledger]
    · exact ⟨rfl, rfl, Or.inl ⟨rfl, hledger⟩⟩

section Completed

variable {id : Nat} {s : Shared} {r : Ledger.Reservation} {args : ReserveArgs}
  {epoch : Option String}

/-- Every reservation but `id` is as before. -/
theorem completeReservation_other (hr : s.ledger.reservations[id]? = some r) {j : Nat}
    (hj : j ≠ id) : (completeReservation url config id args epoch s).ledger.reservations[j]? =
      s.ledger.reservations[j]? := by
  obtain ⟨-, -, ⟨-, hsame⟩ | ⟨key, -, -, -, hmod⟩⟩ :=
    completeReservation_cases url config hr args epoch
  · rw [hsame]
  · rw [hmod, List.getElem?_modify_ne _ _ (Ne.symm hj)]

theorem completeReservation_own (hr : s.ledger.reservations[id]? = some r) :
    ∃ r' : Ledger.Reservation,
      (completeReservation url config id args epoch s).ledger.reservations[id]? = some r' ∧
        r'.worker = r.worker := by
  obtain ⟨-, -, ⟨-, hsame⟩ | ⟨key, -, -, -, hmod⟩⟩ :=
    completeReservation_cases url config hr args epoch
  · exact ⟨r, by rw [hsame, hr], rfl⟩
  · grind

theorem completeReservation_callbacks (hr : s.ledger.reservations[id]? = some r) {n : Nat}
    {callback : SessionCallback} (h : s.callbacks[n]? = some callback) :
    (completeReservation url config id args epoch s).callbacks[n]? = some callback := by
  grind [completeReservation_cases]

end Completed

end Sections

/-! ## The invariant -/

section Homes

variable {F : Type} (url : Nat → String) (config : SharedConfig F)

/-- In the run `es`, a call with these arguments made the attempt `id`. -/
def ReservedFor (es : List (Section SharedOperation)) (id : Nat) (args : ReserveArgs) : Prop :=
  ∃ before call t, before ++ [.advance call] <+: es ∧
    run (sharedStep url config) .init before = some t ∧
    t.calls.get? call = some (.observing [] args) ∧
    t.shared.ledger.reservations.length = id ∧
    (args.select.bind fun index => args.workers[index]?).isSome

variable {url config} in
theorem ReservedFor.append {es : List (Section SharedOperation)} {id : Nat} {args : ReserveArgs}
    (h : ReservedFor url config es id args) (fs : List (Section SharedOperation)) :
    ReservedFor url config (es ++ fs) id args := by
  obtain ⟨before, call, t, hbefore, ht⟩ := h
  exact ⟨before, call, t, hbefore.trans (List.prefix_append es fs), ht⟩

/-- The callback belongs to the attempt `id`: it has the key of its request, the URL of this
worker, and outside endpoint identity mode its epoch. -/
structure Belongs (es : List (Section SharedOperation)) (id worker : Nat)
    (attempt : Option Ledger.Attempt) (callback : SessionCallback) : Prop where
  key : ∃ args, ReservedFor url config es id args ∧
    sessionKey config args.features = some callback.sessionKey
  url : callback.url = url worker
  epoch : config.endpointIdentity = false → ∀ a, attempt = some a → a.epoch = some callback.epoch

variable {url config} in
/-- The callback still belongs to the attempt if its epoch, while it is there, stays the same. -/
theorem Belongs.keep {es : List (Section SharedOperation)} {id worker : Nat}
    {attempt attempt' : Option Ledger.Attempt} {callback : SessionCallback}
    (h : Belongs url config es id worker attempt callback)
    (hattempt : ∀ a', attempt' = some a' → ∃ a, attempt = some a ∧ a'.epoch = a.epoch)
    (fs : List (Section SharedOperation)) :
    Belongs url config (es ++ fs) id worker attempt' callback := by
  obtain ⟨args, hfor, hkey⟩ := h.key
  refine ⟨⟨args, hfor.append fs, hkey⟩, h.url, fun hmode a' ha' => ?_⟩
  obtain ⟨a, ha, hepoch⟩ := hattempt a' ha'
  rw [hepoch]
  exact h.epoch hmode a ha

variable {url config} in
/-- The callback that the end of a reservation makes belongs to it. -/
theorem completeReservation_belongs {es : List (Section SharedOperation)} {id : Nat} {s : Shared}
    {r : Ledger.Reservation} {args : ReserveArgs} {epoch : Option String}
    (hr : s.ledger.reservations[id]? = some r) (hnone : r.on_success = none)
    (hfor : ReservedFor url config es id args) {r' : Ledger.Reservation} {n : Nat}
    (hr' : (completeReservation url config id args epoch s).ledger.reservations[id]? = some r')
    (hn : r'.on_success = some n) :
    ∃ callback, (completeReservation url config id args epoch s).callbacks[n]? = some callback ∧
      Belongs url config es id r'.worker
        ((completeReservation url config id args epoch s).ledger.attempts.get? id) callback := by
  obtain ⟨hattempts, -, ⟨-, hsame⟩ | ⟨key, hkey, hmade, hcallbacks, hmod⟩⟩ :=
    completeReservation_cases url config hr args epoch
  · grind
  · rw [hmod, List.getElem?_modify_eq, hr] at hr'
    cases hr'
    cases hn
    refine ⟨⟨key, url r.worker, epoch.getD ""⟩, ?_, ⟨args, hfor, hkey⟩, rfl, ?_⟩
    · rw [hcallbacks, List.getElem?_concat_length]
    · grind [recordEpoch_attempts, Option.isSome_iff_exists]

structure Homed (es : List (Section SharedOperation)) (s : SharedSystem) : Prop where
  reserved : ∀ id a, s.shared.ledger.attempts.get? id = some a →
    ∃ r : Ledger.Reservation, s.shared.ledger.reservations[id]? = some r ∧ r.worker = a.worker
  belongs : ∀ (id : Nat) (r : Ledger.Reservation) (n : Nat),
    s.shared.ledger.reservations[id]? = some r → r.on_success = some n →
      ∃ callback, s.shared.callbacks[n]? = some callback ∧
        Belongs url config es id r.worker (s.shared.ledger.attempts.get? id) callback
  pending : ∀ call p id args, s.calls.get? call = some p → p.reserves = some (id, args) →
    ReservedFor url config es id args ∧
      ∃ r : Ledger.Reservation, s.shared.ledger.reservations[id]? = some r ∧ r.on_success = none
  apart : ∀ call call' p p' id args args', s.calls.get? call = some p →
    s.calls.get? call' = some p' → p.reserves = some (id, args) →
    p'.reserves = some (id, args') → call = call'

variable {url config} {es : List (Section SharedOperation)} {s : SharedSystem} {call : Nat}

theorem homed_init : Homed url config [] SharedSystem.init := by
  refine ⟨?_, ?_, ?_, ?_⟩
  · intro id a ha
    cases ha
  · intro id r n hr
    simp [SharedSystem.init, Interleaved.start, Shared.init, Ledger.System.init] at hr
  · intro call p id args hp
    cases hp
  · intro call call' p p' id args args' hp
    cases hp

/-- A quiet section keeps the invariant. -/
theorem Homed.settle_quiet (h : Homed url config es s) {own : Option (Nat × ReserveArgs)}
    {done : Shared × (SharedPoint ⊕ SharedReturn)} (hquiet : Quiet s.shared own done)
    (hown : own = (s.calls.get? call).bind SharedPoint.reserves)
    (fs : List (Section SharedOperation)) :
    Homed url config (es ++ fs) (s.settle call done) := by
  obtain ⟨hkept, hcallbacks, hnext⟩ := hquiet
  -- the reservations of the calls are those from before
  have hcalls : ∀ c p id args, (s.settle call done).calls.get? c = some p →
      p.reserves = some (id, args) →
      ∃ q, s.calls.get? c = some q ∧ q.reserves = some (id, args) := by
    intro c p id args hp hreserves
    rw [Interleaved.get?_settle] at hp
    split at hp
    · next hc =>
      rw [Sum.getLeft?_eq_some_iff] at hp
      rcases hnext p hp with hnone | heq
      · rw [hnone] at hreserves
        cases hreserves
      · grind [Option.bind_eq_some_iff]
    · exact ⟨p, hp, hreserves⟩
  refine ⟨?_, ?_, ?_, ?_⟩
  · intro id a' ha'
    obtain ⟨a, ha, hworker, _⟩ := hkept.attempts id a' ha'
    obtain ⟨r, hr, hw⟩ := h.reserved id a ha
    obtain ⟨r', hr', hw', _⟩ := hkept.reservations id r hr
    exact ⟨r', hr', by rw [hw', hw, hworker]⟩
  · intro id r' n hr' hn
    have hlt : id < s.shared.ledger.reservations.length := by
      rw [← hkept.length]
      exact (List.getElem?_eq_some_iff.mp hr').1
    obtain ⟨r'', hr'', hw, hs⟩ := hkept.reservations id _ (List.getElem?_eq_getElem hlt)
    have hsame : r'' = r' := Option.some.inj (hr''.symm.trans hr')
    subst hsame
    rcases hs with hs | hs
    · obtain ⟨callback, hcallback, hbelongs⟩ :=
        h.belongs id _ n (List.getElem?_eq_getElem hlt) (hs ▸ hn)
      refine ⟨callback, by rw [← hcallback]; exact congrArg (·[n]?) hcallbacks, ?_⟩
      rw [hw]
      apply hbelongs.keep
      intro a' ha'
      obtain ⟨a, ha, _, he⟩ := hkept.attempts id a' ha'
      exact ⟨a, ha, he.symm⟩
    · rw [hs] at hn
      cases hn
  · intro c p id args hp hreserves
    obtain ⟨q, hq, hreserves⟩ := hcalls c p id args hp hreserves
    obtain ⟨hfor, r, hr, hs⟩ := h.pending c q id args hq hreserves
    obtain ⟨r', hr', _, hs'⟩ := hkept.reservations id r hr
    exact ⟨hfor.append fs, r', hr', hs'.elim (fun h => h.trans hs) fun h => h⟩
  · grind [cases Homed]

variable {args : ReserveArgs} {e : Section SharedOperation} {t : SharedSystem}

/-- The section that makes a reservation keeps it. -/
theorem Homed.settle_reserve (h : Homed url config es s)
    (hrun : run (sharedStep url config) .init es = some s)
    (hcall : s.calls.get? call = some (.observing [] args)) :
    Homed url config (es ++ [.advance call]) (s.settle call (reserveSection args s.shared)) := by
  rcases reserveSection_cases args s.shared with hnone | ⟨worker, r, t, hselect, hdone, hattempts,
    hreservations, hworker, hsuccess, hcallbacks, -⟩
  · rw [hnone]
    have hquiet : Quiet s.shared none (s.shared, .inr (.reservation none)) :=
      Quiet.returns (Kept.refl _) rfl
    exact h.settle_quiet hquiet (by rw [hcall]; rfl) _
  · have hfor : ReservedFor url config (es ++ [.advance call])
        s.shared.ledger.reservations.length args :=
      ⟨es, call, s, List.prefix_refl _, hrun, hcall, rfl, by rw [hselect]; rfl⟩
    -- a reservation from before, or the new one
    have hold : ∀ {id : Nat} {r' : Ledger.Reservation},
        s.shared.ledger.reservations[id]? = some r' → t.ledger.reservations[id]? = some r' := by
      grind
    have hnew : t.ledger.reservations[s.shared.ledger.reservations.length]? = some r := by
      rw [hreservations, List.getElem?_concat_length]
    have hcalls : ∀ c p id args',
        (s.settle call (reserveSection args s.shared)).calls.get? c = some p →
        p.reserves = some (id, args') →
        (c = call ∧ id = s.shared.ledger.reservations.length ∧ args' = args) ∨
          (c ≠ call ∧ id < s.shared.ledger.reservations.length ∧ s.calls.get? c = some p) := by
      intro c p id args' hp hreserves
      rw [Interleaved.get?_settle, hdone] at hp
      split at hp
      · next hc =>
        cases hp
        cases hreserves
        exact Or.inl ⟨hc, rfl, rfl⟩
      · next hc =>
        obtain ⟨-, r', hr', -⟩ := h.pending c p id args' hp hreserves
        exact Or.inr ⟨hc, (List.getElem?_eq_some_iff.mp hr').1, hp⟩
    rw [hdone] at hcalls ⊢
    refine ⟨?_, ?_, ?_, ?_⟩
    · intro id a ha
      change t.ledger.attempts.get? id = some a at ha
      rw [hattempts, Table.get?_insert] at ha
      split at ha
      · next hid =>
        cases ha
        exact ⟨r, hid ▸ hnew, hworker⟩
      · obtain ⟨r', hr', hw⟩ := h.reserved id a ha
        exact ⟨r', hold hr', hw⟩
    · intro id r' n hr' hn
      change t.ledger.reservations[id]? = some r' at hr'
      rw [hreservations, List.getElem?_append] at hr'
      split at hr'
      · next hlt =>
        obtain ⟨callback, hcallback, hbelongs⟩ := h.belongs id r' n hr' hn
        refine ⟨callback, by rw [← hcallback]; exact congrArg (·[n]?) hcallbacks, ?_⟩
        apply hbelongs.keep
        intro a ha
        change t.ledger.attempts.get? id = some a at ha
        rw [hattempts, Table.get?_insert, if_neg (Nat.ne_of_lt hlt)] at ha
        exact ⟨a, ha, rfl⟩
      · grind
    · intro c p id args' hp hreserves
      rcases hcalls c p id args' hp hreserves with ⟨rfl, rfl, rfl⟩ | ⟨hc, hlt, hp⟩
      · exact ⟨hfor, r, hnew, hsuccess⟩
      · obtain ⟨hfor', r', hr', hs'⟩ := h.pending c p id args' hp hreserves
        exact ⟨hfor'.append _, r', hold hr', hs'⟩
    · intro c c' p p' id args₁ args₂ hp hp' hreserves hreserves'
      rcases hcalls c p id args₁ hp hreserves with ⟨rfl, hid, -⟩ | ⟨hc, hlt, hp⟩
      · grind
      · grind [cases Homed]

/-- The section that completes a reservation keeps it. -/
theorem Homed.settle_complete (h : Homed url config es s) {id : Nat} {epoch : Option String}
    (hcall : s.calls.get? call = some (.epochRead id args epoch))
    (fs : List (Section SharedOperation)) :
    Homed url config (es ++ fs)
      (s.settle call (completeReservation url config id args epoch s.shared,
        (.inr (.reservation (some id)) : SharedPoint ⊕ SharedReturn))) := by
  obtain ⟨hfor, r, hr, hnone⟩ := h.pending call _ id args hcall rfl
  obtain ⟨hattempts, -, -⟩ := completeReservation_cases url config hr args epoch
  -- the call has returned; the other calls are as before and have other reservations
  have hcalls : ∀ c p, (s.settle call (completeReservation url config id args epoch s.shared,
      (.inr (.reservation (some id)) : SharedPoint ⊕ SharedReturn))).calls.get? c = some p →
        c ≠ call ∧ s.calls.get? c = some p := by grind [Interleaved.get?_settle]
  refine ⟨fun j a' ha' => ?_, fun j r' n hr' hn => ?_, fun c p j args' hp hreserves => ?_,
    fun c c' p p' j args₁ args₂ hp hp' => ?_⟩
  · obtain ⟨a, ha, hw, -⟩ := recordEpoch_attempts (hattempts ▸ ha')
    obtain ⟨r', hr', hw'⟩ := h.reserved j a ha
    by_cases hj : j = id
    · subst hj
      obtain ⟨r'', hr'', hw''⟩ := completeReservation_own hr
      have hsame : r = r' := Option.some.inj (hr.symm.trans hr')
      exact ⟨r'', hr'', by rw [hw'', hsame, hw', hw]⟩
    · exact ⟨r', (completeReservation_other hr hj).trans hr', hw'.trans hw⟩
  · by_cases hj : j = id
    · subst hj
      exact completeReservation_belongs hr hnone (hfor.append fs) hr' hn
    · obtain ⟨callback, hcallback, hbelongs⟩ :=
        h.belongs j r' n ((completeReservation_other hr hj).symm.trans hr') hn
      refine ⟨callback, completeReservation_callbacks hr hcallback, hbelongs.keep ?_ fs⟩
      intro a' ha'
      obtain ⟨a, ha, -, hsame, -⟩ := recordEpoch_attempts (hattempts ▸ ha')
      exact ⟨a, ha, hsame hj⟩
  · obtain ⟨hc, hp⟩ := hcalls c p hp
    obtain ⟨hfor', r', hr', hs'⟩ := h.pending c p j args' hp hreserves
    have hj : j ≠ id := fun hj =>
      hc (h.apart c call p _ j args' args hp hcall hreserves (by rw [hj]; rfl))
    exact ⟨hfor'.append fs, r', (completeReservation_other hr hj).trans hr', hs'⟩
  · exact h.apart c c' p p' j args₁ args₂ (hcalls c p hp).2 (hcalls c' p' hp').2

theorem Homed.step (h : Homed url config es s)
    (hrun : run (sharedStep url config) .init es = some s)
    (ht : sharedStep url config s e = some t) : Homed url config (es ++ [e]) t := by
  cases e with
  | call id op =>
    obtain ⟨hfresh, rfl⟩ := Interleaved.step_call ht
    exact h.settle_quiet (quiet_enterShared op s.shared) (by rw [hfresh]; rfl) _
  | advance id =>
    obtain ⟨point, hpoint, rfl⟩ := Interleaved.step_advance ht
    rcases advanceShared_cases url config point s.shared with
      ⟨args, rfl⟩ | ⟨rid, args, epoch, rfl⟩ | hquiet
    · exact h.settle_reserve hrun hpoint
    · exact h.settle_complete hpoint _
    · exact h.settle_quiet hquiet (by rw [hpoint]; rfl) _

/-! ## Completions -/

variable (url config) in
/-- In the run `es`, the call is a `finish(true)` that found and so released this attempt of a
request with these arguments, and that has not returned. -/
def Released (es : List (Section SharedOperation)) (call : Nat) (attempt : Ledger.Attempt)
    (args : ReserveArgs) : Prop :=
  ∃ before after id t, es = before ++ .call call (.finish id true) :: after ∧
    (∀ op, .call call op ∉ after) ∧ run (sharedStep url config) .init before = some t ∧
    t.shared.ledger.attempts.get? id = some attempt ∧ ReservedFor url config before id args

theorem Released.append {attempt : Ledger.Attempt} (h : Released url config es call attempt args)
    (he : ∀ op, e ≠ .call call op) : Released url config (es ++ [e]) call attempt args := by
  obtain ⟨before, after, id, t, rfl, hafter, ht⟩ := h
  refine ⟨before, after ++ [e], id, t, by simp, fun op hop => ?_, ht⟩
  rcases List.mem_append.mp hop with hop | hop
  · exact hafter op hop
  · exact he op (List.mem_singleton.mp hop).symm

variable (url config) in
/-- Every call that is about to run a callback has released the attempt to which the callback
belongs. -/
def Completing (es : List (Section SharedOperation)) (s : SharedSystem) : Prop :=
  ∀ call callback, s.calls.get? call = some (.released callback) →
    ∃ attempt args, Released url config es call attempt args ∧
      sessionKey config args.features = some callback.sessionKey ∧
      callback.url = url attempt.worker ∧
      (config.endpointIdentity = false → attempt.epoch = some callback.epoch)

theorem enterShared_released {op : SharedOperation} {s : Shared} {callback : SessionCallback}
    (h : (enterShared url config op s).2 = .inl (.released callback)) :
    ∃ id, op = .finish id true ∧ s.ledger.attempts.contains id = true ∧
      s.callback? id = some callback := by
  cases op with
  | finish id success =>
    simp only [enterShared, finishSection] at h
    split at h
    · next callback' hcallback => grind
    · cases h
  | drop id =>
    simp only [enterShared] at h
    split at h <;> cases h
  | validateResponseIdentity worker_url workerId engineEpoch =>
    simp only [enterShared] at h
    split at h
    · cases h
    · grind
  | _ => cases h

theorem advanceShared_not_released {p : SharedPoint} {s : Shared} {callback : SessionCallback} :
    (advanceShared url config p s).2 ≠ .inl (.released callback) := by
  cases p with
  | observing rest args =>
    cases rest with
    | nil =>
      rcases reserveSection_cases args s with hnone | ⟨worker, r, t, -, hdone, -⟩
      · simp [advanceShared, hnone]
      · simp [advanceShared, hdone]
    | cons entry rest => simp [advanceShared]
  | installing ids worker_url telemetry => cases ids <;> simp [advanceShared]
  | _ => simp [advanceShared]

theorem Completing.step (h : Completing url config es s) (hhomed : Homed url config es s)
    (hrun : run (sharedStep url config) .init es = some s)
    (ht : sharedStep url config s e = some t) : Completing url config (es ++ [e]) t := by
  intro c callback hc
  cases e with
  | call id op =>
    obtain ⟨-, rfl⟩ := Interleaved.step_call ht
    rw [Interleaved.get?_settle] at hc
    split at hc
    · next heq =>
      subst heq
      rw [Sum.getLeft?_eq_some_iff] at hc
      obtain ⟨rid, rfl, hcontains, hcallback⟩ := enterShared_released hc
      obtain ⟨attempt, hattempt⟩ := Option.isSome_iff_exists.mp hcontains
      obtain ⟨r, hr, hworker⟩ := hhomed.reserved rid attempt hattempt
      simp only [Shared.callback?, Option.bind_eq_bind, Option.bind_eq_some_iff] at hcallback
      obtain ⟨r', hr', n, hn, hcallback⟩ := hcallback
      have hsame : r' = r := Option.some.inj (hr'.symm.trans hr)
      subst hsame
      obtain ⟨callback', hcallback', ⟨args, hargs, hkey⟩, hurl, hepoch⟩ :=
        hhomed.belongs rid r' n hr hn
      have hsame : callback' = callback := Option.some.inj (hcallback'.symm.trans hcallback)
      subst hsame
      refine ⟨attempt, args, ⟨es, [], rid, s, rfl, by simp, hrun, hattempt, hargs⟩, hkey,
        by rw [hurl, hworker], fun hmode => hepoch hmode attempt hattempt⟩
    · next hne =>
      obtain ⟨attempt, args, hreleased, hrest⟩ := h c callback hc
      refine ⟨attempt, args, hreleased.append fun op' heq => hne ?_, hrest⟩
      cases heq
      rfl
  | advance id =>
    obtain ⟨point, -, rfl⟩ := Interleaved.step_advance ht
    rw [Interleaved.get?_settle] at hc
    split at hc
    · rw [Sum.getLeft?_eq_some_iff] at hc
      exact absurd hc advanceShared_not_released
    · obtain ⟨attempt, args, hreleased, hrest⟩ := h c callback hc
      exact ⟨attempt, args, hreleased.append fun op heq => (by cases heq), hrest⟩

theorem homed_completing_of_run (hrun : run (sharedStep url config) .init es = some s) :
    Homed url config es s ∧ Completing url config es s := by
  refine run_history (P := fun es s => Homed url config es s ∧ Completing url config es s)
    ⟨homed_init, ?_⟩ ?_ es s hrun
  · nofun
  · intro es t e u ht h hu
    exact ⟨h.1.step ht hu, h.2.step h.1 ht hu⟩

/-! ## Homes -/

theorem enterShared_sessions (op : SharedOperation) (s : Shared) :
    (enterShared url config op s).1.sessions = s.sessions := by
  cases op with
  | finish id success =>
    simp only [enterShared, finishSection]
    split
    · split <;> rfl
    · rfl
  | dispatched id =>
    simp only [enterShared, dispatchedSection]
    split <;> rfl
  | validateResponseIdentity worker_url workerId engineEpoch =>
    simp only [enterShared]
    split
    · rfl
    · grind
  | _ => rfl

variable (url config) in
/-- Only a callback writes a home. -/
theorem advanceShared_sessions (p : SharedPoint) (s : Shared) :
    (advanceShared url config p s).1.sessions = s.sessions ∨
      ∃ callback, p = .released callback := by
  cases p with
  | released callback => exact Or.inr ⟨callback, rfl⟩
  | observing rest args =>
    left
    cases rest with
    | nil =>
      rcases reserveSection_cases args s with hnone | ⟨_, _, t, -, hdone, -, -, -, -, -, hsame⟩
      · simp [advanceShared, hnone]
      · simp [advanceShared, hdone, hsame]
    | cons entry rest => rfl
  | epochRead id args epoch =>
    left
    simp only [advanceShared, completeReservation]
    split
    · split <;> rfl
    · rfl
  | installing ids worker_url telemetry => cases ids <;> exact Or.inl rfl
  | _ => exact Or.inl rfl

/-- What a step does to the homes: nothing, or a callback writes its own while its epoch is
current. -/
theorem sessions_step (ht : sharedStep url config s e = some t) :
    t.shared.sessions = s.shared.sessions ∨ ∃ call callback, e = .advance call ∧
      s.calls.get? call = some (.released callback) ∧
      t.shared.sessions = (evictHomes config s.shared.sessions s.shared.now).insert
        callback.sessionKey ⟨callback.url, callback.epoch, s.shared.now⟩ ∧
      (config.endpointIdentity = false →
        isCurrent s.shared.state callback.url callback.epoch = true ∧
          s.shared.state.identityMismatches.get? callback.url ≠ some callback.epoch) := by
  cases e with
  | call id op =>
    obtain ⟨-, rfl⟩ := Interleaved.step_call ht
    exact Or.inl (enterShared_sessions op s.shared)
  | advance id =>
    obtain ⟨point, hpoint, rfl⟩ := Interleaved.step_advance ht
    rcases advanceShared_sessions url config point s.shared with hsame | ⟨callback, rfl⟩
    · exact Or.inl hsame
    · have hdone : ((sharedProgram url config).advance (.released callback) s.shared).1
          = runSessionCallback config callback s.shared := rfl
      rw [Interleaved.settle, hdone]
      unfold runSessionCallback
      dsimp only
      split
      · exact Or.inl rfl
      · next hcurrent => exact Or.inr ⟨id, callback, rfl, hpoint, rfl, by grind⟩

theorem size_sessions_step (hmax : 0 < config.maxSessions)
    (h : s.shared.sessions.size ≤ config.maxSessions) (ht : sharedStep url config s e = some t) :
    t.shared.sessions.size ≤ config.maxSessions := by
  rcases sessions_step ht with hsame | ⟨-, callback, -, -, hwritten, -⟩
  · rw [hsame]
    exact h
  · have hroom := size_evictHomes config hmax h s.shared.now
    have hinsert := Table.size_insert_le (evictHomes config s.shared.sessions s.shared.now)
      callback.sessionKey ⟨callback.url, callback.epoch, s.shared.now⟩
    rw [hwritten]
    omega

theorem size_sessions_of_run (hmax : 0 < config.maxSessions)
    (hrun : run (sharedStep url config) .init es = some s) :
    s.shared.sessions.size ≤ config.maxSessions :=
  run_invariant_of_step (P := fun s : SharedSystem => s.shared.sessions.size ≤ config.maxSessions)
    (fun _ _ _ h ht => size_sessions_step hmax h ht) es _ _ (Nat.zero_le _) hrun

/-- **Homes are written by completions only.** Whatever reservations, completions, destructors,
telemetry and observations do at the same time, there are never more homes than allowed, and a
new home is that of a session whose `finish(true)` released an attempt: it names the worker of the
attempt and, outside endpoint identity mode, the epoch of the attempt, which at that moment is the
current one of the worker and not the mismatched one. -/
theorem homes_written_by_completions {F : Type} (url : Nat → String) (config : SharedConfig F)
    (hmax : 0 < config.maxSessions) (es : List (Section SharedOperation)) (s : SharedSystem)
    (hrun : run (sharedStep url config) .init es = some s) :
    s.shared.sessions.size ≤ config.maxSessions ∧
      ∀ e t, sharedStep url config s e = some t → ∀ key home,
        t.shared.sessions.get? key = some home → s.shared.sessions.get? key ≠ some home →
          ∃ call attempt args, e = .advance call ∧ Released url config es call attempt args ∧
            sessionKey config args.features = some key ∧
            home.workerUrl = url attempt.worker ∧ home.updated = s.shared.now ∧
            (config.endpointIdentity = false →
              attempt.epoch = some home.epoch ∧
              isCurrent s.shared.state home.workerUrl home.epoch = true ∧
              s.shared.state.identityMismatches.get? home.workerUrl ≠ some home.epoch) := by
  refine ⟨size_sessions_of_run hmax hrun, fun e t ht key home hnew hold => ?_⟩
  obtain ⟨-, hcompleting⟩ := homed_completing_of_run hrun
  rcases sessions_step ht with hsame | ⟨call, callback, rfl, hpoint, hwritten, hcurrent⟩
  · rw [hsame] at hnew
    exact absurd hnew hold
  · rw [hwritten, Table.get?_insert] at hnew
    split at hnew
    · next hkey =>
      cases hnew
      obtain ⟨attempt, args, hreleased, hargs, hurl, hepoch⟩ := hcompleting call callback hpoint
      exact ⟨call, attempt, args, rfl, hreleased, hkey ▸ hargs, hurl, rfl,
        fun hmode => ⟨hepoch hmode, hcurrent hmode⟩⟩
    · exact absurd (get?_evictHomes config hnew) hold

end Homes

def oneHomeConfig : SharedConfig Unit :=
  { maxEvidenceAgeMs := 3000
    sessionTtlSecs := 300
    costModels := .empty
    restoreModels := .empty
    ectModel := .decomposed
    completionModels := .empty
    backendMetrics := none
    lmcache := none
    maxSessions := 1 }

/-- A request of a session, for which worker 0 is selected. -/
def sessionRequest : ReserveArgs :=
  { workers := [0]
    policy := 0
    select := some 0
    sample := none
    features := ⟨some "session", some [1, 2], some "fingerprint", some "model", none, 1, none⟩
    observations := none }

/-- Telemetry is installed, the request is reserved and released with success. -/
def oneCompletion : List (Section SharedOperation) :=
  [.call 0 (.install "http://w"
      { info := ⟨1, "w", "epoch", "fingerprint", "model", 16⟩
        index := Telemetry.KvIndex.empty
        sequence := some 0
        synced := true
        supported := true
        observedAt := 0 }),
    .advance 0, .call 0 (.reserveWithObservations sessionRequest), .advance 0, .advance 0,
    .advance 0, .call 1 (.finish 0 true)]

theorem homes_written_by_completions_oneCompletion :
    let url : Nat → String := fun _ => "http://w"
    ∃ s t, run (sharedStep url oneHomeConfig) .init oneCompletion = some s ∧
      sharedStep url oneHomeConfig s (.advance 1) = some t ∧
      ∃ home, t.shared.sessions.get? (.fingerprint "fingerprint", "session") = some home ∧
        home.epoch = "epoch" ∧
        ∃ attempt args, Released url oneHomeConfig oneCompletion 1 attempt args ∧
          home.workerUrl = url attempt.worker ∧ attempt.epoch = some home.epoch := by
  refine ⟨_, _, rfl, rfl, ⟨"http://w", "epoch", 0⟩, by decide +kernel, rfl, ?_⟩
  obtain ⟨call, attempt, args, hcall, hreleased, -, hurl, -, hepoch⟩ :=
    (homes_written_by_completions (fun _ => "http://w") oneHomeConfig (by decide) oneCompletion _
      rfl).2 (.advance 1) _ rfl (.fingerprint "fingerprint", "session")
        ⟨"http://w", "epoch", 0⟩ (by decide +kernel) (by decide +kernel)
  cases hcall
  exact ⟨attempt, args, hreleased, hurl, (hepoch rfl).1⟩

end CodexRouter.Routing
