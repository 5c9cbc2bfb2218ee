import CodexRouter.Ledger.Steps

set_option autoImplicit false

/-! # The life of an attempt

Three removers race for an attempt: `finish`, the destructor of its reservation and
`observe_epoch`. Whoever takes it out of the map lowers the load and tells the policy; a second
remover finds nothing. A sample is written and a callback runs only in a `finish` that took the
attempt out itself. An attempt whose reservation is dropped after it was sent stays, until an
`observe_epoch` takes it out that found it recorded under another epoch.
-/

namespace CodexRouter.Ledger

open CodexRouter.Lib

/-! ## Counting effects -/

inductive Kind
  | dispatched
  | decrement
  | complete
  | sample
  | callback
deriving DecidableEq, Repr

def Effect.kind : Effect → Kind
  | .dispatched .. => .dispatched
  | .decrement .. => .decrement
  | .complete .. => .complete
  | .sample .. => .sample
  | .callback .. => .callback

def Effect.id : Effect → Nat
  | .dispatched id => id
  | .decrement id _ => id
  | .complete id _ _ _ => id
  | .sample id _ _ _ _ _ => id
  | .callback id _ => id

/-- How often the log shows that kind of effect for an attempt. -/
def count (log : List Effect) (kind : Kind) (id : Nat) : Nat :=
  log.countP fun x => x.kind = kind ∧ x.id = id

@[simp] theorem count_nil (kind : Kind) (id : Nat) : count [] kind id = 0 := rfl

@[simp] theorem count_cons (x : Effect) (log : List Effect) (kind : Kind) (id : Nat) :
    count (x :: log) kind id = count log kind id + if x.kind = kind ∧ x.id = id then 1 else 0 := by
  simp [count, List.countP_cons]

@[simp] theorem count_append (l log : List Effect) (kind : Kind) (id : Nat) :
    count (l ++ log) kind id = count l kind id + count log kind id :=
  List.countP_append

theorem count_eq_zero {log : List Effect} {kind : Kind} {id : Nat}
    (h : ∀ x ∈ log, x.kind = kind → x.id ≠ id) : count log kind id = 0 := by
  rw [count, List.countP_eq_zero]
  intro x hx hk
  rw [decide_eq_true_iff] at hk
  exact h x hx hk.1 hk.2

theorem mem_samples {r : Reservation} {id : Nat} {success : Bool} {now : Nat} {x : Effect}
    (h : x ∈ r.samples id success now) :
    x.kind = .sample ∧ x.id = id ∧ r.dispatched_at.isSome := by
  unfold Reservation.samples at h
  split at h
  · rename_i started context hstarted hcontext
    simp only [List.mem_singleton] at h
    simp [h, Effect.kind, Effect.id, hstarted]
  · cases h

theorem mem_callbacks {r : Reservation} {id : Nat} {success : Bool} {x : Effect}
    (h : x ∈ r.callbacks id success) : x.kind = .callback ∧ x.id = id ∧ success = true := by
  unfold Reservation.callbacks at h
  split at h
  · simp only [List.mem_singleton] at h
    simp [h, Effect.kind, Effect.id]
  · cases h

theorem length_samples_le (r : Reservation) (id : Nat) (success : Bool) (now : Nat) :
    (r.samples id success now).length ≤ 1 := by
  unfold Reservation.samples
  split <;> simp

theorem length_callbacks_le (r : Reservation) (id : Nat) (success : Bool) :
    (r.callbacks id success).length ≤ 1 := by
  unfold Reservation.callbacks
  split <;> simp

/-! ## What a release logs -/

section Settling

variable {url : Nat → String} {s : System} {id : Nat} {success : Bool} {e : Event}
  {l : List Effect}

theorem Settling.mem (h : Settling s id success e l) {x : Effect} (hx : x ∈ l) :
    (x.kind = .sample ∨ x.kind = .callback) ∧ x.id = id := by
  cases h with
  | nothing => cases hx
  | finish r now hr =>
    rcases List.mem_append.mp hx with hx | hx
    · have := mem_callbacks hx
      exact ⟨Or.inr this.1, this.2.1⟩
    · have := mem_samples hx
      exact ⟨Or.inl this.1, this.2.1⟩
  | dropFinish r now hr _ =>
    have := mem_samples hx
    exact ⟨Or.inl this.1, this.2.1⟩

/-- One sample and one callback at most. -/
theorem Settling.count_le (h : Settling s id success e l) (kind : Kind) (j : Nat) :
    count l kind j ≤ 1 := by
  cases h with
  | nothing => simp
  | finish r now hr =>
    have hsample : count (r.samples id success now) kind j ≤ 1 :=
      le_trans List.countP_le_length (length_samples_le r id success now)
    have hcallback : count (r.callbacks id success) kind j ≤ 1 :=
      le_trans List.countP_le_length (length_callbacks_le r id success)
    rw [count_append]
    -- the two are of different kinds
    by_cases hkind : kind = .sample
    · grind [count_eq_zero, mem_callbacks]
    · have : count (r.samples id success now) kind j = 0 := count_eq_zero fun x hx hk =>
        absurd ((mem_samples hx).1.symm.trans hk).symm hkind
      omega
  | dropFinish r now hr _ =>
    exact le_trans List.countP_le_length (length_samples_le r id success now)

theorem mem_released {a : Attempt} {x : Effect} (h : x ∈ released url id a success) :
    (x.kind = .complete ∨ x.kind = .decrement) ∧ x.id = id := by
  simp only [released, List.mem_cons, List.not_mem_nil, or_false] at h
  rcases h with rfl | rfl
  · exact ⟨Or.inl rfl, rfl⟩
  · exact ⟨Or.inr rfl, rfl⟩

theorem count_released_le (a : Attempt) (kind : Kind) (j : Nat) :
    count (released url id a success) kind j ≤ 1 := by
  cases kind <;> simp [released, Effect.kind] <;> split <;> omega

/-- The log of a release counts one for each kind at most, and nothing for other attempts. -/
theorem Settling.count_release (h : Settling s id success e l) (a : Attempt) (kind : Kind)
    (j : Nat) : count (l ++ released url id a success) kind j ≤ if j = id then 1 else 0 := by
  rw [count_append]
  by_cases hj : j = id
  · rw [if_pos hj]
    have hl := h.count_le kind j
    have hrel : count (released url id a success) kind j ≤ 1 := count_released_le a kind j
    by_cases hkind : kind = .sample ∨ kind = .callback
    · grind [count_eq_zero, mem_released]
    · grind [count_eq_zero, h.mem]
  · grind [count_eq_zero, mem_released, h.mem]

end Settling

/-! ## At most once -/

/-- An outstanding attempt has been neither decremented, completed, sampled nor called back. -/
structure Once (s : System) : Prop where
  fresh : Fresh s
  logged : ∀ x ∈ s.log, x.id < s.reservations.length
  pending : ∀ id kind, kind ≠ .dispatched → s.attempts.contains id = true →
    count s.log kind id = 0
  atMost : ∀ id kind, kind ≠ .dispatched → count s.log kind id ≤ 1
  state : ∀ id a, .dispatched id ∈ s.log → s.attempts.get? id = some a → a.state ≠ .reserved
  sent : ∀ id r, s.reservations[id]? = some r → r.dispatched_at.isSome → .dispatched id ∈ s.log

theorem Once.init : Once System.init where
  fresh := fresh_init
  logged := by simp [System.init]
  pending := by simp [System.init]
  atMost := by simp [System.init]
  state := by simp [System.init]
  sent := by simp [System.init]

section Step

variable {url : Nat → String} {s t : System} {e : Event}

theorem Once.step_logged (h : Once s) (hstep : step url s e = some t) :
    ∀ x ∈ t.log, x.id < t.reservations.length := by
  intro x hx
  cases (step_case hstep).change with
  | kept _ _ hlog hlen => exact hlen ▸ h.logged x (hlog ▸ hx)
  | reserved a r _ _ hlog hres => grind [cases Once]
  | amended id a b dispatched hget _ _ _ hlog hdis _ hlen =>
    rw [hlog, List.mem_append] at hx
    rw [hlen]
    rcases hx with hx | hx
    · rw [hdis x hx]
      exact h.fresh id (by simp [Table.contains, hget])
    · exact h.logged x hx
  | released id a success settled hget _ _ hlog hset hlen =>
    have hid : id < s.reservations.length := h.fresh id (by simp [Table.contains, hget])
    rw [hlog, List.mem_append, List.mem_append] at hx
    rw [hlen]
    rcases hx with hx | hx | hx
    · exact (hset.mem hx).2 ▸ hid
    · exact (mem_released hx).2 ▸ hid
    · exact h.logged x hx
  | reset _ _ hlog hlen => exact hlen ▸ h.logged x (hlog ▸ hx)

theorem count_dispatched {l : List Effect} {id j : Nat} {kind : Kind}
    (h : ∀ x ∈ l, x = .dispatched id) (hkind : kind ≠ .dispatched) : count l kind j = 0 :=
  count_eq_zero fun x hx hk => absurd (by rw [← hk, h x hx]; rfl) hkind

section

variable (hstep : step url s e = some t)

include hstep

/-- A step adds to a count only by taking the attempt out. -/
theorem Once.count_step (h : Once s) {kind : Kind} (hkind : kind ≠ .dispatched) (id : Nat) :
    count t.log kind id = count s.log kind id
      ∨ s.attempts.contains id = true ∧ t.attempts.contains id = false
        ∧ count t.log kind id ≤ 1 := by
  cases (step_case hstep).change with
  | kept _ _ hlog => exact Or.inl (by rw [hlog])
  | reserved a _ _ _ hlog => exact Or.inl (by rw [hlog])
  | amended j a b dispatched _ _ _ _ hlog hdis =>
    exact Or.inl (by rw [hlog, count_append, count_dispatched hdis hkind, Nat.zero_add])
  | released j a success settled hget _ hattempts hlog hset =>
    have hcount : count (settled ++ released url j a success) kind id
        ≤ if id = j then 1 else 0 := hset.count_release a kind id
    rw [hlog, ← List.append_assoc, count_append]
    by_cases hj : id = j
    · subst hj
      have hin : s.attempts.contains id = true := by simp [Table.contains, hget]
      have hzero := h.pending id kind hkind hin
      refine Or.inr ⟨hin, by simp [hattempts, Table.contains, Table.get?_erase], ?_⟩
      rw [if_pos rfl] at hcount
      omega
    · rw [if_neg hj] at hcount
      exact Or.inl (by omega)
  | reset _ _ hlog => exact Or.inl (by rw [hlog])

theorem contains_of_step {id : Nat} (hin : t.attempts.contains id = true) :
    s.attempts.contains id = true ∨ id = s.reservations.length ∧ t.log = s.log := by
  cases (step_case hstep).change with
  | kept _ hattempts => exact Or.inl (hattempts ▸ hin)
  | reserved a _ _ hattempts hlog | amended j a b _ hget _ _ hattempts =>
    grind [Table.contains, Table.get?_insert]
  | released j a _ _ _ _ hattempts => grind [Table.contains, Table.get?_erase]
  | reset _ hattempts => exact Or.inl (hattempts ▸ hin)

theorem Once.step_pending (h : Once s) (id : Nat) (kind : Kind) (hkind : kind ≠ .dispatched)
    (hin : t.attempts.contains id = true) :
    count t.log kind id = 0 := by
  rcases contains_of_step hstep hin with hold | ⟨hnew, hlog⟩
  · rcases h.count_step hstep hkind id with hsame | ⟨_, hout, _⟩
    · rw [hsame]
      exact h.pending id kind hkind hold
    · simp [hin] at hout
  · grind [count_eq_zero, cases Once]

theorem Once.step_atMost (h : Once s) (id : Nat) (kind : Kind) (hkind : kind ≠ .dispatched) :
    count t.log kind id ≤ 1 := by
  rcases h.count_step hstep hkind id with hsame | ⟨_, _, hle⟩
  · rw [hsame]
    exact h.atMost id kind hkind
  · exact hle

theorem log_mono {x : Effect} (hx : x ∈ s.log) : x ∈ t.log := by
  cases (step_case hstep).change with
  | kept _ _ hlog => rwa [hlog]
  | reserved _ _ _ _ hlog => rwa [hlog]
  | amended _ _ _ _ _ _ _ _ hlog => simp [hlog, hx]
  | released _ _ _ _ _ _ _ hlog => simp [hlog, hx]
  | reset _ _ hlog => rwa [hlog]

theorem Once.step_state (h : Once s) (id : Nat) (a : Attempt) (hx : .dispatched id ∈ t.log)
    (ha : t.attempts.get? id = some a) : a.state ≠ .reserved := by
  cases (step_case hstep).change with
  | kept _ hattempts hlog | reset _ hattempts hlog =>
    exact h.state id a (hlog ▸ hx) (hattempts ▸ ha)
  | reserved b _ _ hattempts hlog =>
    rw [hlog] at hx
    have hlt : id < s.reservations.length := h.logged _ hx
    rw [hattempts, Table.get?_insert, if_neg (by omega)] at ha
    exact h.state id a hx ha
  | amended j old b dispatched hget _ _ hattempts hlog hdis hstate =>
    rw [hattempts, Table.get?_insert] at ha
    rw [hlog, List.mem_append] at hx
    by_cases hj : id = j
    · grind [cases Once]
    · rw [if_neg hj] at ha
      refine h.state id a (hx.resolve_left fun hin => hj ?_) ha
      exact Effect.dispatched.inj (hdis _ hin)
  | released j old success settled _ _ hattempts hlog hset =>
    rw [hattempts, Table.get?_erase] at ha
    have hx : .dispatched id ∈ s.log := by
      rw [hlog, List.mem_append, List.mem_append] at hx
      rcases hx with hx | hx | hx
      · simpa [Effect.kind] using (hset.mem hx).1
      · simpa [Effect.kind] using (mem_released hx).1
      · exact hx
    by_cases hj : id = j
    · simp [hj] at ha
    · rw [if_neg hj] at ha
      exact h.state id a hx ha

end

/-- What a step may do to a reservation that is there: its worker stays, a dropped one stays
dropped, and it is marked as sent only with the effect in the log. -/
structure Evolves (log : List Effect) (id : Nat) (r r' : Reservation) : Prop where
  worker : r'.worker = r.worker
  dropped : r.phase = .dropped → r'.phase = .dropped
  sent : r'.dispatched_at.isSome → r.dispatched_at.isSome ∨ .dispatched id ∈ log

theorem Evolves.refl (log : List Effect) (id : Nat) (r : Reservation) : Evolves log id r r :=
  ⟨rfl, fun h => h, Or.inl⟩

theorem evolves_modify {log : List Effect} {l : List Reservation} {i id : Nat}
    {f : Reservation → Reservation} {r : Reservation} (hr : l[id]? = some r)
    (hf : i = id → Evolves log id r (f r)) :
    ∃ r', (l.modify i f)[id]? = some r' ∧ Evolves log id r r' := by
  by_cases hi : i = id
  · exact ⟨f r, by simp [hi, hr], hf hi⟩
  · exact ⟨r, by simp [hi, hr], .refl ..⟩

theorem StepCase.evolves (h : StepCase url s e t) {id : Nat} {r : Reservation}
    (hr : s.reservations[id]? = some r) :
    ∃ r', t.reservations[id]? = some r' ∧ Evolves t.log id r r' := by
  have hkept : ∀ log, ∃ r', s.reservations[id]? = some r' ∧ Evolves log id r r' :=
    fun log => ⟨r, hr, .refl ..⟩
  cases h with
  | reserve workers policy worker select =>
    have hlt := (List.getElem?_eq_some_iff.mp hr).1
    exact ⟨r, by simpa [List.getElem?_append_left hlt] using hr, .refl ..⟩
  | dispatched j now =>
    exact evolves_modify hr fun hj => ⟨rfl, fun h => h, fun _ => Or.inr (by simp [hj])⟩
  | method _ j f hf =>
    exact evolves_modify hr fun _ => ⟨(hf r).1, fun h => (hf r).2.1.trans h, fun h =>
      Or.inl ((hf r).2.2 ▸ h)⟩
  | finish j success now => exact evolves_modify hr fun _ => ⟨rfl, fun h => h, Or.inl⟩
  | leave j phase _ r' hr' hphase =>
    refine evolves_modify hr fun hj => ⟨rfl, fun h => ?_, Or.inl⟩
    subst hj
    rw [hr, Option.some.injEq] at hr'
    exact absurd (hr' ▸ h) hphase
  | orphan j | dropFinish j now => exact evolves_modify hr fun _ => ⟨rfl, fun _ => rfl, Or.inl⟩
  | _ => exact hkept _

/-- A reservation that was not there is the one just made, which is not sent yet. -/
theorem StepCase.new_reservation (h : StepCase url s e t) {id : Nat} {r' : Reservation}
    (hr : s.reservations[id]? = none) (hr' : t.reservations[id]? = some r') :
    r'.dispatched_at = none := by
  cases h with
  | reserve workers policy worker select => grind
  | _ => simp [List.getElem?_modify, hr] at hr'

theorem Once.step_sent (h : Once s) (hstep : step url s e = some t) (id : Nat)
    (r' : Reservation) (hr' : t.reservations[id]? = some r') (hsent : r'.dispatched_at.isSome) :
    .dispatched id ∈ t.log := by
  cases hr : s.reservations[id]? with
  | some r =>
    obtain ⟨u, hu, hev⟩ := (step_case hstep).evolves hr
    rw [hr', Option.some.injEq] at hu
    subst hu
    rcases hev.sent hsent with hold | hnew
    · exact log_mono hstep (h.sent id r hr hold)
    · exact hnew
  | none =>
    rw [(step_case hstep).new_reservation hr hr'] at hsent
    cases hsent

theorem Once.step (h : Once s) (hstep : step url s e = some t) : Once t :=
  ⟨h.fresh.step hstep, h.step_logged hstep, h.step_pending hstep, h.step_atMost hstep,
    h.step_state hstep, h.step_sent hstep⟩

end Step

end CodexRouter.Ledger
