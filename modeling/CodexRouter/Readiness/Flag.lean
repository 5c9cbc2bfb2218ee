import CodexRouter.Lib.Interleaving

set_option autoImplicit false

/-! # The readiness flag

`ReadinessFlag` is an atomic flag with a token set behind an asynchronous lock and a watch
channel for the waiters. A call is cut at its atomic operations: each load, store, swap and
`fetch_add`, each attempt at the lock, each operation on the channel. A lock attempt that finds
the lock taken tries again in its next section, or gives up when its `inTime` is `false`; what
is done to the token set under the lock is one section, since nobody else can look at it.
-/

namespace CodexRouter.Readiness

open CodexRouter.Lib

/-! ## The watch channel -/

/-- The sender's view of a watch channel. A receiver has seen a version. -/
structure Watch where
  value : Bool
  version : Nat
  receivers : Nat
deriving DecidableEq

namespace Watch

/-- `watch::channel` with its first receiver dropped. -/
def channel (value : Bool) : Watch := ⟨value, 0, 0⟩

/-- `send` fails without a receiver and then leaves the value as it is. -/
def send (tx : Watch) (value : Bool) : Watch :=
  if tx.receivers = 0 then tx else { tx with value := value, version := tx.version + 1 }

def subscribe (tx : Watch) : Watch := { tx with receivers := tx.receivers + 1 }

/-- A receiver is dropped. -/
def leave (tx : Watch) : Watch := { tx with receivers := tx.receivers - 1 }

@[simp] theorem receivers_send (tx : Watch) (value : Bool) :
    (tx.send value).receivers = tx.receivers := by
  unfold send; split <;> rfl

theorem send_of_no_receiver {tx : Watch} (h : tx.receivers = 0) (value : Bool) :
    tx.send value = tx := if_pos h

theorem send_of_receiver {tx : Watch} (h : tx.receivers ≠ 0) (value : Bool) :
    tx.send value = { tx with value := value, version := tx.version + 1 } := if_neg h

end Watch

/-! ## The calls -/

abbrev Token := Int32

inductive ReadinessError
  | tokenLockFailed
  | flagAlreadyReady
deriving DecidableEq

structure ReadinessFlag where
  ready : Bool
  nextId : Int32
  tokens : List Token
  locked : Bool
  tx : Watch
deriving DecidableEq

def ReadinessFlag.new : ReadinessFlag :=
  { ready := false, nextId := 1, tokens := [], locked := false, tx := .channel false }

/-- The operations. `inTime` says whether the lock of the tokens is got before the timeout
when it is not free at once. -/
inductive Operation
  | isReady
  | subscribe (inTime : Bool)
  | markReady (token : Token) (inTime : Bool)
  | waitReady

inductive Reply
  | isReady (ready : Bool)
  | subscribe (result : Except ReadinessError Token)
  | markReady (result : Except ReadinessError Bool)
  | waitReady

/-- Where a call stands between two sections. The points of `is_ready` are also those of the
`is_ready` that `wait_ready` calls; `waits` says that it is the latter. -/
inductive Point
  -- is_ready
  | tryingLock (waits : Bool)
  | checking (waits : Bool)
  | swapping (waits : Bool)
  | unlocking (waits wasReady : Bool)
  | sending (waits : Bool)
  | lastLoad (waits : Bool)
  -- subscribe
  | lockingSubscribe (inTime : Bool)
  | rechecking
  | drawing
  | releasing (token : Option Token)
  -- mark_ready
  | lockingMark (token : Token) (inTime : Bool)
  | removing (token : Token)
  | storing
  | clearing
  | broadcasting
  -- wait_ready, after its is_ready
  | subscribing
  | borrowing (seen : Nat)
  | waiting (seen : Nat)
  | observing (seen : Nat)
  | leaving
deriving DecidableEq

/-- `is_ready` returns, to its caller or to `wait_ready`. -/
def isReadyReturns (waits ready : Bool) : Point ⊕ Reply :=
  match waits with
  | false => .inr (.isReady ready)
  | true => if ready then .inr .waitReady else .inl .subscribing

/-- The lock of `with_tokens`. -/
def withTokens (flag : ReadinessFlag) (inTime : Bool) (here next : Point)
    (failed : Reply) : ReadinessFlag × (Point ⊕ Reply) :=
  if flag.locked then (flag, if inTime then .inl here else .inr failed)
  else ({ flag with locked := true }, .inl next)

/-- The first load of each operation. -/
def enter : Operation → ReadinessFlag → ReadinessFlag × (Point ⊕ Reply)
  | .isReady, flag =>
    (flag, if flag.ready then isReadyReturns false true else .inl (.tryingLock false))
  | .subscribe inTime, flag =>
    (flag, if flag.ready then .inr (.subscribe (.error .flagAlreadyReady))
      else .inl (.lockingSubscribe inTime))
  | .markReady token inTime, flag =>
    (flag, if flag.ready then .inr (.markReady (.ok false))
      else if token = 0 then .inr (.markReady (.ok false))
      else .inl (.lockingMark token inTime))
  | .waitReady, flag =>
    (flag, if flag.ready then isReadyReturns true true else .inl (.tryingLock true))

def advance : Point → ReadinessFlag → ReadinessFlag × (Point ⊕ Reply)
  | .tryingLock waits, flag =>
    if flag.locked then (flag, .inl (.lastLoad waits))
    else ({ flag with locked := true }, .inl (.checking waits))
  | .checking waits, flag =>
    if flag.tokens.isEmpty then (flag, .inl (.swapping waits))
    else ({ flag with locked := false }, .inl (.lastLoad waits))
  | .swapping waits, flag => ({ flag with ready := true }, .inl (.unlocking waits flag.ready))
  | .unlocking waits wasReady, flag =>
    ({ flag with locked := false },
      if wasReady then isReadyReturns waits true else .inl (.sending waits))
  | .sending waits, flag => ({ flag with tx := flag.tx.send true }, isReadyReturns waits true)
  | .lastLoad waits, flag => (flag, isReadyReturns waits flag.ready)
  | .lockingSubscribe inTime, flag =>
    withTokens flag inTime (.lockingSubscribe inTime) .rechecking
      (.subscribe (.error .tokenLockFailed))
  | .rechecking, flag => (flag, .inl (if flag.ready then .releasing none else .drawing))
  | .drawing, flag =>
    -- `fetch_add` wraps around; zero and the tokens in use are passed over
    let token := flag.nextId
    let flag := { flag with nextId := flag.nextId + 1 }
    if token ≠ 0 ∧ token ∉ flag.tokens then
      ({ flag with tokens := token :: flag.tokens }, .inl (.releasing (some token)))
    else (flag, .inl .drawing)
  | .releasing token, flag =>
    ({ flag with locked := false },
      .inr (.subscribe (token.elim (.error .flagAlreadyReady) .ok)))
  | .lockingMark token inTime, flag =>
    withTokens flag inTime (.lockingMark token inTime) (.removing token)
      (.markReady (.error .tokenLockFailed))
  | .removing token, flag =>
    if token ∈ flag.tokens then
      ({ flag with tokens := flag.tokens.erase token }, .inl .storing)
    else ({ flag with locked := false }, .inr (.markReady (.ok false)))
  | .storing, flag => ({ flag with ready := true }, .inl .clearing)
  | .clearing, flag => ({ flag with tokens := [], locked := false }, .inl .broadcasting)
  | .broadcasting, flag => ({ flag with tx := flag.tx.send true }, .inr (.markReady (.ok true)))
  | .subscribing, flag => ({ flag with tx := flag.tx.subscribe }, .inl (.borrowing flag.tx.version))
  | .borrowing seen, flag => (flag, .inl (if flag.tx.value then .leaving else .waiting seen))
  | .waiting seen, flag =>
    -- `changed` waits for a version that its receiver has not seen
    (flag, .inl (if flag.tx.version = seen then .waiting seen else .observing flag.tx.version))
  | .observing seen, flag => (flag, .inl (if flag.tx.value then .leaving else .waiting seen))
  | .leaving, flag => ({ flag with tx := flag.tx.leave }, .inr .waitReady)

def program : Program ReadinessFlag Operation Point Reply := ⟨enter, advance⟩

abbrev Calls := Interleaved ReadinessFlag Point

def step : Calls → Section Operation → Option Calls := Interleaved.step program

def start : Calls := .start .new

/-! ## Lost wakeups -/

namespace Point

/-- The call is in `is_ready` or `mark_ready`. -/
def inIsReadyOrMarkReady : Point → Bool
  | .tryingLock _ | .checking _ | .swapping _ | .unlocking _ _ | .sending _ | .lastLoad _ => true
  | .lockingMark _ _ | .removing _ | .storing | .clearing | .broadcasting => true
  | _ => false

/-- The next section is `tx.send`. -/
def sends : Point → Bool
  | .sending _ | .broadcasting => true
  | _ => false

/-- The call has set the flag and its `tx.send` is still to come. -/
def willSend : Point → Bool
  | .unlocking _ wasReady => !wasReady
  | .sending _ | .clearing | .broadcasting => true
  | _ => false

theorem inIsReadyOrMarkReady_of_willSend {point : Point} (h : point.willSend = true) :
    point.inIsReadyOrMarkReady = true := by
  cases point <;> first | rfl | cases h

/-- The call holds a receiver. -/
def receives : Point → Bool
  | .borrowing _ | .waiting _ | .observing _ | .leaving => true
  | _ => false

/-- The call relies on a `tx.send` to come, or holds a receiver that heard it. -/
def listens (point : Point) : Bool := point.receives || point = .subscribing

/-- Where a call goes on after its first load. -/
def starts : Point → Bool
  | .tryingLock _ | .lockingSubscribe _ | .lockingMark _ _ => true
  | _ => false

theorem idle_of_starts {point : Point} (h : point.starts = true) :
    point.receives = false ∧ point.willSend = false ∧ point.listens = false := by
  cases point <;> first | exact ⟨rfl, rfl, rfl⟩ | cases h

end Point

/-- The flag is ready, every `is_ready` and `mark_ready` has returned, and a `wait_ready` waits
for a change that is not there. -/
def LostWakeup (s : Calls) : Prop :=
  s.shared.ready = true ∧ (∀ entry ∈ s.calls.entries, entry.2.inIsReadyOrMarkReady = false)
    ∧ ∃ entry ∈ s.calls.entries, entry.2 = .waiting s.shared.tx.version

instance (s : Calls) : Decidable (LostWakeup s) :=
  inferInstanceAs (Decidable (_ ∧ _ ∧ _))

/-- A `tx.send` finds a receiver, or no `wait_ready` is on its way from `is_ready` to
`tx.subscribe`. -/
def Heard (s : Calls) : Section Operation → Prop
  | .call _ _ => True
  | .advance id =>
    ∀ point ∈ s.calls.get? id, point.sends = true → s.shared.tx.receivers ≠ 0
      ∨ ∀ entry ∈ s.calls.entries, entry.2 ≠ .subscribing

instance (s : Calls) : ∀ e, Decidable (Heard s e)
  | .call _ _ => isTrue trivial
  | .advance id => inferInstanceAs (Decidable (∀ point ∈ s.calls.get? id, _))

/-! ## What a section does to the channel and to the flag -/

open Interleaved (occupied)

/-- A receiver saw no version that is not there, and waits only on a value that is not ready. -/
def Seen (tx : Watch) : Point → Prop
  | .borrowing seen | .observing seen => seen ≤ tx.version
  | .waiting seen => seen ≤ tx.version ∧ (seen = tx.version → tx.value = false)
  | _ => True

variable {point : Point} {flag : ReadinessFlag} {id : Nat}

theorem seen_of_not_receives {tx : Watch} (h : point.receives = false) : Seen tx point := by
  cases point <;> trivial

theorem Seen.send {tx : Watch} (h : Seen tx point) : Seen (tx.send true) point := by
  by_cases hr : tx.receivers = 0
  · rw [Watch.send_of_no_receiver hr]
    exact h
  · rw [Watch.send_of_receiver hr]
    cases point <;> simp only [Seen] at h ⊢ <;> omega

/-- The first section of a call reads the flag. -/
theorem enter_starts (op : Operation) (flag : ReadinessFlag) :
    (enter op flag).1 = flag ∧ ∀ point ∈ (enter op flag).2.getLeft?, point.starts = true := by
  cases hready : flag.ready with
  | true => cases op <;> simp [enter, isReadyReturns, hready]
  | false =>
    cases op with
    | markReady token inTime =>
      by_cases htoken : token = 0 <;> simp [enter, hready, htoken, Point.starts]
    | _ => simp [enter, hready, Point.starts]

/-- A call that starts does not count. -/
theorem count_enter {s : Calls} (hid : s.calls.get? id = none) (op : Operation) {p : Point → Bool}
    (hp : ∀ point, point.starts = true → p point = false) :
    (s.settle id (enter op s.shared)).count p = s.count p := by
  have hcount := Interleaved.count_settle s id (enter op s.shared) p
  have hzero : occupied p (enter op s.shared).2.getLeft? = 0 :=
    Interleaved.occupied_eq_zero.mpr fun point hpoint =>
      hp point ((enter_starts op s.shared).2 point hpoint)
  rw [hid, hzero] at hcount
  exact hcount

/-- Only four points touch the channel. -/
theorem tx_advance (point : Point) (flag : ReadinessFlag) :
    (advance point flag).1.tx = match point with
      | .sending _ | .broadcasting => flag.tx.send true
      | .subscribing => flag.tx.subscribe
      | .leaving => flag.tx.leave
      | _ => flag.tx := by
  cases point <;> simp only [advance, withTokens] <;> (try split) <;> rfl

theorem value_advance (h : point.sends = false) :
    (advance point flag).1.tx.value = flag.tx.value := by
  rw [tx_advance]
  cases point with
  | sending | broadcasting => cases h
  | _ => rfl

section

variable (point : Point) (flag : ReadinessFlag)

/-- Only a `wait_ready` that has its receiver goes on with one. -/
theorem receives_advance :
    occupied Point.receives (advance point flag).2.getLeft? = match point with
      | .subscribing | .borrowing _ | .waiting _ | .observing _ => 1
      | _ => 0 := by
  cases point <;> simp only [advance, withTokens, isReadyReturns] <;>
    repeat' (first | rfl | split)

/-- The receivers of the channel move with the calls that hold one. -/
theorem receivers_advance (h : point.receives = true → 0 < flag.tx.receivers) :
    (advance point flag).1.tx.receivers + occupied Point.receives (some point)
      = flag.tx.receivers + occupied Point.receives (advance point flag).2.getLeft? := by
  rw [tx_advance, receives_advance]
  cases point with
  | leaving =>
    have hpos := h rfl
    show flag.tx.receivers - 1 + 1 = flag.tx.receivers + 0
    omega
  | sending | broadcasting => rw [Watch.receivers_send]; rfl
  | _ => rfl

theorem seen_advance {other : Point} (h : Seen flag.tx other) :
    Seen (advance point flag).1.tx other := by
  rw [tx_advance]
  cases point with
  | sending | broadcasting => exact h.send
  | subscribing | leaving => cases other <;> exact h
  | _ => exact h

theorem seen_advance_self (h : Seen flag.tx point) :
    ∀ next ∈ (advance point flag).2.getLeft?, Seen (advance point flag).1.tx next := by
  intro next hnext
  cases point with
  | subscribing =>
    cases hnext
    exact le_refl flag.tx.version
  | borrowing seen | observing seen =>
    cases hvalue : flag.tx.value with
    | true =>
      simp only [advance, hvalue, if_true, Sum.getLeft?, Option.mem_some_iff] at hnext
      subst hnext
      trivial
    | false =>
      simp only [advance, hvalue, Sum.getLeft?, Option.mem_some_iff] at hnext
      subst hnext
      exact ⟨h, fun _ => hvalue⟩
  | waiting seen =>
    simp only [advance, Sum.getLeft?, Option.mem_some_iff] at hnext
    subst hnext
    split
    · exact h
    · exact le_refl flag.tx.version
  | _ =>
    have hnone := Interleaved.occupied_eq_zero.mp (receives_advance _ flag) next hnext
    exact seen_of_not_receives hnone

theorem ready_advance :
    (advance point flag).1.ready = match point with
      | .swapping _ | .storing => true
      | _ => flag.ready := by
  cases point <;> simp only [advance, withTokens] <;> (try split) <;> rfl

end

/-- A call starts to listen after it has read that the flag is not ready. -/
theorem listens_advance (point : Point) (h : flag.ready = true) :
    occupied Point.listens (advance point flag).2.getLeft?
      ≤ occupied Point.listens (some point) := by
  cases point <;> simp only [advance, withTokens, isReadyReturns, h] <;>
    repeat' (first | exact le_refl _ | exact Nat.zero_le _ | split)

/-- A call that owes a send keeps owing it until it sends. -/
theorem willSend_advance (flag : ReadinessFlag) (hpoint : point.sends = false) :
    occupied Point.willSend (some point)
      ≤ occupied Point.willSend (advance point flag).2.getLeft? := by
  cases point with
  | sending | broadcasting => cases hpoint
  | unlocking waits wasReady => cases wasReady <;> simp [advance, occupied, Point.willSend]
  | clearing => exact le_refl _
  | _ => exact Nat.zero_le _

/-- The call that makes the flag ready owes a send. -/
theorem willSend_of_makes_ready (h : flag.ready = false)
    (hready : (advance point flag).1.ready = true) :
    occupied Point.willSend (some point) = 0
      ∧ occupied Point.willSend (advance point flag).2.getLeft? = 1 := by
  rw [ready_advance] at hready
  cases point with
  | swapping waits => simp [advance, occupied, Point.willSend, h]
  | storing => exact ⟨rfl, rfl⟩
  | _ => rw [h] at hready; cases hready

/-- A `tx.send` is the end of its call, or of the `is_ready` of a `wait_ready` that returns. -/
theorem advance_of_sends (flag : ReadinessFlag) (h : point.sends = true) :
    (advance point flag).1 = { flag with tx := flag.tx.send true }
      ∧ (advance point flag).2.getLeft? = none := by
  cases point with
  | sending waits => cases waits <;> exact ⟨rfl, rfl⟩
  | broadcasting => exact ⟨rfl, rfl⟩
  | _ => cases h

/-! ## What every run keeps -/

/-- Once the flag is ready, the waiters are told: the value is out, or its send is still to
come, or nobody listens. -/
structure Announced (s : Calls) : Prop where
  receivers : s.count Point.receives = s.shared.tx.receivers
  seen : ∀ id point, s.calls.get? id = some point → Seen s.shared.tx point
  told : s.shared.ready = true →
    s.shared.tx.value = true ∨ 0 < s.count Point.willSend ∨ s.count Point.listens = 0

theorem announced_start : Announced start where
  receivers := rfl
  seen := nofun
  told := nofun

variable {s t : Calls}

/-- No call listens when none holds a receiver and none is about to subscribe. -/
theorem count_listens_eq_zero (hreceives : s.count Point.receives = 0)
    (hsubscribing : ∀ entry ∈ s.calls.entries, entry.2 ≠ .subscribing) :
    s.count Point.listens = 0 := by
  refine List.countP_eq_zero.mpr fun entry hentry => ?_
  have hfalse := List.countP_eq_zero.mp hreceives entry hentry
  simp [Point.listens, hfalse, hsubscribing entry hentry]

/-- A section keeps `Seen` of every call if it does so of its own and of the others. -/
theorem seen_settle {done : ReadinessFlag × (Point ⊕ Reply)}
    (hs : ∀ j point, s.calls.get? j = some point → Seen s.shared.tx point)
    (hother : ∀ point, Seen s.shared.tx point → Seen done.1.tx point)
    (hself : ∀ point ∈ done.2.getLeft?, Seen done.1.tx point) :
    ∀ j point, (s.settle id done).calls.get? j = some point → Seen done.1.tx point := by
  grind [Interleaved.get?_settle]

theorem Announced.enter (hs : Announced s) (hid : s.calls.get? id = none) (op : Operation) :
    Announced (s.settle id (enter op s.shared)) := by
  obtain ⟨hflag, hstarts⟩ := enter_starts op s.shared
  have hshared : (s.settle id (Readiness.enter op s.shared)).shared = s.shared := hflag
  constructor
  · rw [hshared, count_enter hid op fun _ h => (Point.idle_of_starts h).1]
    exact hs.receivers
  · exact seen_settle hs.seen (fun _ h => by rw [hflag]; exact h) fun point hpoint =>
      seen_of_not_receives (Point.idle_of_starts (hstarts point hpoint)).1
  · rw [hshared, count_enter hid op fun _ h => (Point.idle_of_starts h).2.1,
      count_enter hid op fun _ h => (Point.idle_of_starts h).2.2]
    exact hs.told

theorem Announced.advance (hs : Announced s) (hid : s.calls.get? id = some point)
    (hheard : Heard s (.advance id)) : Announced (s.settle id (advance point s.shared)) := by
  have hcount := fun p => Interleaved.count_settle s id (Readiness.advance point s.shared) p
  simp only [hid] at hcount
  constructor
  · have hpos : point.receives = true → 0 < s.shared.tx.receivers := fun h =>
      hs.receivers ▸ Interleaved.count_pos hid h
    have hmove := receivers_advance point s.shared hpos
    have h := hcount Point.receives
    rw [hs.receivers] at h
    show _ = (Readiness.advance point s.shared).1.tx.receivers
    omega
  · exact seen_settle hs.seen (fun _ h => seen_advance point s.shared h)
      (seen_advance_self point s.shared (hs.seen id point hid))
  · intro hready
    have hw := hcount Point.willSend
    have hl := hcount Point.listens
    show (Readiness.advance point s.shared).1.tx.value = true ∨ _
    cases hsends : point.sends with
    | true =>
      obtain ⟨hflag, hnone⟩ := advance_of_sends s.shared hsends
      by_cases hr : s.shared.tx.receivers = 0
      · -- nobody hears the send; then nobody listens
        have hsubscribing := (hheard point hid hsends).resolve_left (fun h => h hr)
        have hzero := count_listens_eq_zero (hs.receivers.trans hr) hsubscribing
        rw [hnone, hzero] at hl
        simp only [occupied, Option.elim_none] at hl
        exact Or.inr (Or.inr (by omega))
      · refine Or.inl ?_
        rw [hflag, Watch.send_of_receiver hr]
    | false =>
      have hwill := willSend_advance s.shared hsends
      cases hold : s.shared.ready with
      | false =>
        obtain ⟨hzero, hone⟩ := willSend_of_makes_ready hold hready
        exact Or.inr (Or.inl (by omega))
      | true => grind [listens_advance, value_advance, cases Announced]

theorem Announced.step (hs : Announced s) {e : Section Operation} (hheard : Heard s e)
    (ht : step s e = some t) : Announced t := by
  cases e with
  | call id op =>
    obtain ⟨hid, rfl⟩ := Interleaved.step_call ht
    exact hs.enter hid op
  | advance id =>
    obtain ⟨point, hid, rfl⟩ := Interleaved.step_advance ht
    exact hs.advance hid hheard

theorem Announced.not_lostWakeup (hs : Announced s) : ¬ LostWakeup s := by
  rintro ⟨hready, hfinished, ⟨id, point⟩, hentry, rfl⟩
  have hid := Table.get?_eq_some_iff.mpr hentry
  have hvalue := (hs.seen id _ hid).2 rfl
  rcases hs.told hready with h | h | h
  · rw [hvalue] at h
    cases h
  · obtain ⟨j, other, hj, hwill⟩ := Interleaved.standing_of_count_pos h
    have hout := hfinished (j, other) (Table.get?_eq_some_iff.mp hj)
    rw [Point.inIsReadyOrMarkReady_of_willSend hwill] at hout
    cases hout
  · have hpos : 0 < s.count Point.listens := Interleaved.count_pos hid rfl
    omega

/-- **Lost wakeups.** In a run where every send is heard, no waiter is left behind. -/
theorem no_lostWakeup_of_heard (es : List (Section Operation)) (s : Calls)
    (hrun : run step start es = some s) (hheard : Along step Heard start es) :
    ¬ LostWakeup s :=
  (run_invariant (fun _ _ _ hs hok ht => Announced.step hs hok ht) es start s announced_start
    hheard hrun).not_lostWakeup

/-- A `wait_ready` between `is_ready` and `tx.subscribe` while `mark_ready` runs. -/
def unheardSend : List (Section Operation) :=
  [.call 0 (.subscribe true), .advance 0, .advance 0, .advance 0, .advance 0,
   .call 1 .waitReady, .advance 1, .advance 1, .advance 1,
   .call 2 (.markReady 1 true), .advance 2, .advance 2, .advance 2, .advance 2, .advance 2,
   .advance 1, .advance 1]

/-- Its send fails, and the waiter waits for ever. -/
theorem lostWakeup_unheardSend :
    ∃ s, run step start unheardSend = some s ∧ LostWakeup s := by
  refine ⟨_, rfl, ?_⟩
  decide +kernel

/-- The waiter subscribes first. -/
def heardSend : List (Section Operation) :=
  [.call 0 (.subscribe true), .advance 0, .advance 0, .advance 0, .advance 0,
   .call 1 .waitReady, .advance 1, .advance 1, .advance 1, .advance 1, .advance 1,
   .call 2 (.markReady 1 true), .advance 2, .advance 2, .advance 2, .advance 2, .advance 2,
   .advance 1, .advance 1, .advance 1]

theorem no_lostWakeup_heardSend :
    Along step Heard start heardSend ∧ ∃ s, run step start heardSend = some s ∧ ¬ LostWakeup s := by
  have hheard : Along step Heard start heardSend := by decide +kernel
  exact ⟨hheard, _, rfl, no_lostWakeup_of_heard heardSend _ rfl hheard⟩

end CodexRouter.Readiness
