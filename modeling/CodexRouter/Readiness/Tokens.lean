import CodexRouter.Readiness.Flag

set_option autoImplicit false

/-! # Tokens of the readiness flag

The flag is read without the lock, but it becomes ready under the lock: by a `mark_ready` that
took a token, or by an `is_ready` that saw no token. At most one call is between taking and
releasing the lock, so the flag and the tokens are changed by one call at a time; that is the
first field of `Guarded`, and the others follow from it.
-/

namespace CodexRouter.Readiness

open CodexRouter.Lib

namespace Point

/-- The call holds the lock of the tokens. -/
def holdsLock : Point → Bool
  | .checking _ | .swapping _ | .unlocking _ _ => true
  | .rechecking | .drawing | .releasing _ => true
  | .removing _ | .storing | .clearing => true
  | _ => false

/-- A `subscribe` that found the flag not ready under the lock. -/
def draws : Point → Bool
  | .drawing | .releasing (some _) => true
  | _ => false

/-- A `mark_ready` whose token was there. -/
def marks : Point → Bool
  | .storing | .clearing | .broadcasting => true
  | _ => false

def stores (point : Point) : Bool := point = .storing

def clears (point : Point) : Bool := point = .clearing

theorem outside_of_starts {point : Point} (h : point.starts = true) :
    point.holdsLock = false ∧ point.draws = false ∧ point.marks = false ∧ point.stores = false
      ∧ point.clears = false := by
  cases point <;> first | exact ⟨rfl, rfl, rfl, rfl, rfl⟩ | cases h

theorem holdsLock_of_draws (point : Point) (h : point.draws = true) : point.holdsLock = true := by
  cases point <;> first | rfl | cases h

theorem holdsLock_of_stores (point : Point) (h : point.stores = true) :
    point.holdsLock = true := by
  cases point <;> first | rfl | cases h

theorem holdsLock_of_clears (point : Point) (h : point.clears = true) :
    point.holdsLock = true := by
  cases point <;> first | rfl | cases h

end Point

/-- A `mark_ready` returns `true`. -/
def Reply.marked : Reply → Bool
  | .markReady (.ok true) => true
  | _ => false

/-- A `subscribe` returns a token. -/
def Reply.token? : Reply → Option Token
  | .subscribe (.ok token) => some token
  | _ => none

/-! ## What a section does to the lock, the tokens and the marks -/

open Interleaved (occupied)

/-- What a call returns at once is no token and no mark. -/
theorem enter_reply (op : Operation) (flag : ReadinessFlag) :
    ∀ reply ∈ (enter op flag).2.getRight?, reply.marked = false ∧ reply.token? = none := by
  cases hready : flag.ready with
  | true => cases op <;> simp [enter, isReadyReturns, hready, Reply.marked, Reply.token?]
  | false =>
    cases op with
    | markReady token inTime =>
      by_cases htoken : token = 0 <;> simp [enter, hready, htoken, Reply.marked, Reply.token?]
    | _ => simp [enter, hready]

/-- The lock is held as long as a call holds it. -/
theorem lock_advance (point : Point) (flag : ReadinessFlag)
    (h : point.holdsLock = true → flag.locked = true) :
    (advance point flag).1.locked.toNat + occupied Point.holdsLock (some point)
      = flag.locked.toNat + occupied Point.holdsLock (advance point flag).2.getLeft? := by
  obtain ⟨_, _, _, locked, _⟩ := flag
  cases locked with
  | true =>
    cases point with
    | lockingSubscribe inTime | lockingMark _ inTime => cases inTime <;> rfl
    | _ =>
      simp only [advance, isReadyReturns]
      repeat' (first | rfl | split)
  | false =>
    cases point with
    | tryingLock | lockingSubscribe | lockingMark => rfl
    | unlocking | checking | swapping | rechecking | drawing | releasing | removing | storing
      | clearing => cases h rfl
    | _ =>
      simp only [advance, isReadyReturns]
      repeat' (first | rfl | split)

variable {flag : ReadinessFlag} {point : Point} {id : Nat} {e : Section Operation}

/-- Once the flag is ready, no call goes on to draw a token. -/
theorem draws_advance (point : Point) (h : flag.ready = true) (hpoint : point.draws = false) :
    occupied Point.draws (advance point flag).2.getLeft? = 0 := by
  cases point with
  | drawing => cases hpoint
  | releasing token => rfl
  | _ =>
    simp only [advance, withTokens, isReadyReturns, h]
    repeat' (first | rfl | split)

theorem ready_advance_of_ready (point : Point) (h : flag.ready = true) :
    (advance point flag).1.ready = true := by
  rw [ready_advance]
  cases point <;> first | rfl | exact h

/-- What makes the flag ready is done under the lock, and not by a `subscribe`. -/
theorem of_makes_ready (h : flag.ready = false) (hready : (advance point flag).1.ready = true) :
    point.holdsLock = true ∧ point.draws = false
      ∧ occupied Point.draws (advance point flag).2.getLeft? = 0 := by
  rw [ready_advance] at hready
  cases point with
  | swapping | storing => exact ⟨rfl, rfl, rfl⟩
  | _ => rw [h] at hready; cases hready

/-- A token is drawn, taken out or cleared away; every other section leaves the tokens alone. -/
theorem tokens_advance (point : Point) (flag : ReadinessFlag) :
    (advance point flag).1.tokens = flag.tokens
      ∨ (point = .drawing ∧ flag.nextId ≠ 0 ∧ flag.nextId ∉ flag.tokens
        ∧ (advance point flag).1.tokens = flag.nextId :: flag.tokens)
      ∨ (∃ token ∈ flag.tokens, point = .removing token
        ∧ advance point flag
          = ({ flag with tokens := flag.tokens.erase token }, .inl .storing))
      ∨ (point = .clearing ∧ (advance point flag).1.tokens = []) := by
  cases point with
  | drawing =>
    by_cases h : flag.nextId ≠ 0 ∧ flag.nextId ∉ flag.tokens
    · exact Or.inr (Or.inl ⟨rfl, h.1, h.2, by simp [advance, h]⟩)
    · exact Or.inl (by simp only [advance, if_neg h])
  | removing token =>
    by_cases h : token ∈ flag.tokens
    · exact Or.inr (Or.inr (Or.inl ⟨token, h, rfl, by simp [advance, h]⟩))
    · exact Or.inl (by simp only [advance, if_neg h])
  | clearing => exact Or.inr (Or.inr (Or.inr ⟨rfl, rfl⟩))
  | _ =>
    refine Or.inl ?_
    simp only [advance, withTokens]
    repeat' (first | rfl | split)

/-- A `mark_ready` that found its token goes on until it returns `true`; no other call does. -/
theorem marks_advance (flag : ReadinessFlag) (h : ∀ token ∈ flag.tokens, point ≠ .removing token) :
    ((advance point flag).2.getRight?.elim 0 fun reply => reply.marked.toNat)
        + occupied Point.marks (advance point flag).2.getLeft?
      = occupied Point.marks (some point)
      ∧ occupied Point.clears (advance point flag).2.getLeft?
        = occupied Point.stores (some point)
      ∧ occupied Point.stores (advance point flag).2.getLeft? = 0 := by
  cases point with
  | removing token =>
    have hnot : token ∉ flag.tokens := fun hin => h token hin rfl
    simp only [advance, if_neg hnot]
    exact ⟨rfl, rfl, rfl⟩
  | releasing token => cases token <;> exact ⟨rfl, rfl, rfl⟩
  | _ =>
    simp only [advance, withTokens, isReadyReturns]
    repeat' (first | exact ⟨rfl, rfl, rfl⟩ | split)

/-- Only a `subscribe` that has drawn a token returns one. -/
theorem draws_of_token {reply : Reply} (hreply : reply ∈ (advance point flag).2.getRight?)
    (htoken : reply.token?.isSome = true) : point.draws = true := by
  cases point with
  | releasing token =>
    cases token with
    | some token => rfl
    | none =>
      cases hreply
      cases htoken
  | _ =>
    simp only [advance, withTokens, isReadyReturns] at hreply
    repeat' (first | (cases hreply; cases htoken) | cases hreply | split at hreply)

/-! ## What every run keeps -/

/-- A token has been taken by a `mark_ready`: the flag is ready and no token is left, or the
call is about to see to it, and then it holds the lock. -/
def Spent (s : Calls) : Prop :=
  s.shared.ready = true ∧ (s.shared.tokens = [] ∨ 0 < s.count Point.clears)
    ∨ 0 < s.count Point.stores

/-- The calls after `marks` replies `true` of `mark_ready`. -/
structure Guarded (marks : Nat) (s : Calls) : Prop where
  lock : s.count Point.holdsLock = s.shared.locked.toNat
  undrawn : s.shared.ready = true → s.count Point.draws = 0
  once : marks + s.count Point.marks ≤ 1
  spent : 0 < marks + s.count Point.marks → Spent s
  nonzero : ∀ token ∈ s.shared.tokens, token ≠ 0
  nodup : s.shared.tokens.Nodup

theorem guarded_start : Guarded 0 start where
  lock := rfl
  undrawn := fun h => by cases h
  once := Nat.zero_le 1
  spent := fun h => by cases h
  nonzero := fun _ h => by cases h
  nodup := List.nodup_nil

variable {s t : Calls} {marks : Nat}

section

variable (hs : Guarded marks s)

include hs

section

variable (hid : s.calls.get? id = some point) (hholds : point.holdsLock = true)

include hid hholds

/-- Under the lock nobody else holds it. -/
theorem Guarded.alone {p : Point → Bool} (hp : ∀ k, p k = true → k.holdsLock = true)
    (hpoint : p point = false) : s.count p = 0 := by
  have hlt := Interleaved.count_lt_count hp hid hholds hpoint
  have hle := Bool.toNat_le s.shared.locked
  have hlock := hs.lock
  omega

theorem Guarded.locked : s.shared.locked = true := by
  grind [Interleaved.count_pos, cases Guarded]

/-- While a call looks at the tokens under the lock, and is not itself past taking one, a token
that was taken has left none. -/
theorem Guarded.tokens_eq_nil (hstores : point.stores = false) (hclears : point.clears = false)
    (hpos : 0 < marks + s.count Point.marks) :
    s.shared.ready = true ∧ s.shared.tokens = [] := by
  have hstore := hs.alone hid hholds Point.holdsLock_of_stores hstores
  have hclear := hs.alone hid hholds Point.holdsLock_of_clears hclears
  rcases hs.spent hpos with ⟨hready, htokens | h⟩ | h
  · exact ⟨hready, htokens⟩
  · omega
  · omega

end

theorem Guarded.enter (hid : s.calls.get? id = none) (op : Operation) :
    Guarded marks (s.settle id (enter op s.shared)) := by
  have hshared : (s.settle id (Readiness.enter op s.shared)).shared = s.shared :=
    (enter_starts op s.shared).1
  have hmarks := count_enter hid op fun _ h => (Point.outside_of_starts h).2.2.1
  have hstores := count_enter hid op fun _ h => (Point.outside_of_starts h).2.2.2.1
  have hclears := count_enter hid op fun _ h => (Point.outside_of_starts h).2.2.2.2
  constructor
  · rw [count_enter hid op fun _ h => (Point.outside_of_starts h).1, hshared]
    exact hs.lock
  · rw [count_enter hid op fun _ h => (Point.outside_of_starts h).2.1, hshared]
    exact hs.undrawn
  · rw [hmarks]
    exact hs.once
  · rw [hmarks, Spent, hclears, hstores, hshared]
    exact hs.spent
  · rw [hshared]
    exact hs.nonzero
  · rw [hshared]
    exact hs.nodup

theorem Guarded.undrawn_advance (hid : s.calls.get? id = some point)
    (hready : (advance point s.shared).1.ready = true) :
    (s.settle id (advance point s.shared)).count Point.draws = 0 := by
  have hcount := Interleaved.count_settle s id (Readiness.advance point s.shared) Point.draws
  cases hold : s.shared.ready with
  | true =>
    have hnone := hs.undrawn hold
    have hpoint : point.draws = false := by
      cases hdraws : point.draws with
      | false => rfl
      | true =>
        have := Interleaved.count_pos hid hdraws
        omega
    have hnext := draws_advance point hold hpoint
    omega
  | false =>
    obtain ⟨hholds, hdraws, hnext⟩ := of_makes_ready hold hready
    have hnone := hs.alone hid hholds Point.holdsLock_of_draws hdraws
    omega

/-- A `mark_ready` that finds its token is the first one to do so. -/
theorem Guarded.unmarked_of_removing {token : Token}
    (hid : s.calls.get? id = some (.removing token)) (htoken : token ∈ s.shared.tokens) :
    marks + s.count Point.marks = 0 := by
  by_contra hne
  have hnil := (hs.tokens_eq_nil hid rfl rfl rfl (Nat.pos_of_ne_zero hne)).2
  rw [hnil] at htoken
  cases htoken

theorem Guarded.spent_advance (hid : s.calls.get? id = some point)
    (hremoving : ∀ token ∈ s.shared.tokens, point ≠ .removing token)
    (hpos : 0 < marks + s.count Point.marks) : Spent (s.settle id (advance point s.shared)) := by
  obtain ⟨_, hclears, hstores⟩ := marks_advance s.shared hremoving
  have hclear := Interleaved.count_settle s id (Readiness.advance point s.shared) Point.clears
  have hstore := Interleaved.count_settle s id (Readiness.advance point s.shared) Point.stores
  rw [hid, hclears] at hclear
  rw [hid, hstores] at hstore
  by_cases hstoring : point = .storing
  · -- the flag is set, the tokens are about to be cleared
    subst hstoring
    have hone : occupied Point.stores (some .storing) = 1 := rfl
    have hzero : occupied Point.clears (some .storing) = 0 := rfl
    exact Or.inl ⟨rfl, Or.inr (by omega)⟩
  by_cases hclearing : point = .clearing
  · subst hclearing
    have hnone := hs.alone hid rfl Point.holdsLock_of_stores rfl
    rcases hs.spent hpos with ⟨hready, _⟩ | h
    · exact Or.inl ⟨hready, Or.inl rfl⟩
    · omega
  -- any other section leaves a spent token as it is
  have hone : occupied Point.stores (some point) = 0 := by simp [occupied, Point.stores, hstoring]
  have hzero : occupied Point.clears (some point) = 0 := by simp [occupied, Point.clears, hclearing]
  rcases hs.spent hpos with ⟨h, htokens | hcount⟩ | hcount
  · refine Or.inl ⟨ready_advance_of_ready point h, Or.inl ?_⟩
    rcases tokens_advance point s.shared with
      hsame | ⟨rfl, _⟩ | ⟨token, htoken, hpoint, _⟩ | ⟨hpoint, _⟩
    · exact hsame.trans htokens
    · have hdrawing := Interleaved.count_pos (p := Point.draws) hid rfl
      have := hs.undrawn h
      omega
    · exact absurd hpoint (hremoving token htoken)
    · exact absurd hpoint hclearing
  · exact Or.inl ⟨ready_advance_of_ready point h, Or.inr (by omega)⟩
  · exact Or.inr (by omega)

/-- Whether a section is the end of a `mark_ready` that returns `true`, as a number. -/
def marksOf (done : ReadinessFlag × (Point ⊕ Reply)) : Nat :=
  done.2.getRight?.elim 0 fun reply => reply.marked.toNat

theorem Guarded.once_advance (hid : s.calls.get? id = some point) :
    marks + marksOf (advance point s.shared)
        + (s.settle id (advance point s.shared)).count Point.marks ≤ 1
      ∧ (0 < marks + marksOf (advance point s.shared)
          + (s.settle id (advance point s.shared)).count Point.marks →
        Spent (s.settle id (advance point s.shared))) := by
  have hmarks := Interleaved.count_settle s id (Readiness.advance point s.shared) Point.marks
  rw [hid] at hmarks
  have honce := hs.once
  by_cases hremoving : ∀ token ∈ s.shared.tokens, point ≠ .removing token
  · have hnext := (marks_advance s.shared hremoving).1
    have hsame : marks + marksOf (Readiness.advance point s.shared)
        + (s.settle id (Readiness.advance point s.shared)).count Point.marks
        = marks + s.count Point.marks := by
      simp only [marksOf]
      omega
    rw [hsame]
    exact ⟨honce, hs.spent_advance hid hremoving⟩
  · -- the token is there: this is the first mark, and the call goes on to store
    push Not at hremoving
    obtain ⟨token, htoken, rfl⟩ := hremoving
    have hzero := hs.unmarked_of_removing hid htoken
    have hstores :=
      Interleaved.count_settle s id (Readiness.advance (.removing token) s.shared) Point.stores
    have hadvance : Readiness.advance (.removing token) s.shared
        = ({ s.shared with tokens := s.shared.tokens.erase token }, .inl .storing) := if_pos htoken
    have hthis : occupied Point.marks (some (.removing token)) = 0 := rfl
    have hthis' : occupied Point.stores (some (.removing token)) = 0 := rfl
    rw [hadvance] at hmarks hstores ⊢
    simp only [marksOf, hid, Sum.getLeft?_inl, Sum.getRight?_inl, Option.elim_none, occupied,
      Option.elim_some, Point.marks, Point.stores, decide_true, Bool.toNat_true] at *
    exact ⟨by omega, fun _ => Or.inr (by omega)⟩

theorem Guarded.distinct_advance (point : Point) :
    (∀ token ∈ (advance point s.shared).1.tokens, token ≠ 0)
      ∧ (advance point s.shared).1.tokens.Nodup := by
  rcases tokens_advance point s.shared with
    hsame | ⟨_, hzero, hfresh, hdrawn⟩ | ⟨token, _, _, hadvance⟩ | ⟨_, hnil⟩
  · rw [hsame]
    exact ⟨hs.nonzero, hs.nodup⟩
  · rw [hdrawn]
    exact ⟨List.forall_mem_cons.mpr ⟨hzero, hs.nonzero⟩, List.nodup_cons.mpr ⟨hfresh, hs.nodup⟩⟩
  · grind [cases Guarded]
  · rw [hnil]
    exact ⟨fun _ h => (by cases h), List.nodup_nil⟩

theorem Guarded.advance (hid : s.calls.get? id = some point) :
    Guarded (marks + marksOf (advance point s.shared)) (s.settle id (advance point s.shared)) where
  lock := by
    have hcount := Interleaved.count_settle s id (Readiness.advance point s.shared) Point.holdsLock
    have hlock := lock_advance point s.shared (hs.locked hid)
    rw [hid, hs.lock] at hcount
    show _ = (Readiness.advance point s.shared).1.locked.toNat
    omega
  undrawn := hs.undrawn_advance hid
  once := (hs.once_advance hid).1
  spent := (hs.once_advance hid).2
  nonzero := (hs.distinct_advance point).1
  nodup := (hs.distinct_advance point).2

/-- How many of some replies are a `true` of `mark_ready`. -/
def countMarks (replies : List (Nat × Reply)) : Nat := replies.countP fun reply => reply.2.marked

theorem Guarded.step (ht : step s e = some t) :
    Guarded (marks + countMarks (Interleaved.reply? program s e).toList) t := by
  cases e with
  | call id op =>
    obtain ⟨hid, rfl⟩ := Interleaved.step_call ht
    have hnone : countMarks (Interleaved.reply? program s (.call id op)).toList = 0 := by
      refine List.countP_eq_zero.mpr fun reply hreply => ?_
      simp only [Interleaved.reply?, Option.mem_toList, Option.map_eq_some_iff] at hreply
      obtain ⟨result, hresult, rfl⟩ := hreply
      simp [(enter_reply op s.shared result hresult).1]
    rw [hnone]
    exact hs.enter hid op
  | advance id =>
    obtain ⟨point, hid, rfl⟩ := Interleaved.step_advance ht
    have hmarks : countMarks (Interleaved.reply? program s (.advance id)).toList
        = marksOf (Readiness.advance point s.shared) := by
      simp only [Interleaved.reply?, hid, Option.bind_some, marksOf, countMarks, program]
      cases (Readiness.advance point s.shared).2 with
      | inl next => rfl
      | inr reply => cases hmarked : reply.marked <;> simp [hmarked]
    rw [hmarks]
    exact hs.advance hid

end

/-- The replies `true` of `mark_ready` in a run count as marks. -/
theorem guarded_of_run (es : List (Section Operation)) (s : Calls)
    (hrun : run step start es = some s) :
    Guarded (countMarks (Interleaved.replies program start es)) s := by
  let P es s := Guarded (countMarks (Interleaved.replies program start es)) s
  refine run_history (P := P) guarded_start (fun es s e t hes hs ht => ?_) es s hrun
  show Guarded (countMarks (Interleaved.replies program start (es ++ [e]))) t
  rw [Interleaved.replies_concat hes ht, countMarks, List.countP_append]
  exact hs.step ht

theorem ready_step (hready : s.shared.ready = true) (ht : step s e = some t) :
    t.shared.ready = true := by
  cases e with
  | call id op =>
    obtain ⟨_, rfl⟩ := Interleaved.step_call ht
    exact (congrArg ReadinessFlag.ready (enter_starts op s.shared).1).trans hready
  | advance id =>
    obtain ⟨point, _, rfl⟩ := Interleaved.step_advance ht
    exact ready_advance_of_ready point hready

theorem Guarded.no_token (hs : Guarded marks s) (hready : s.shared.ready = true) {r : Nat × Reply}
    (hr : Interleaved.reply? program s e = some r) : r.2.token? = none := by
  cases e with
  | call id op =>
    simp only [Interleaved.reply?, Option.map_eq_some_iff] at hr
    obtain ⟨reply, hreply, rfl⟩ := hr
    exact (enter_reply op s.shared reply hreply).2
  | advance id =>
    simp only [Interleaved.reply?, Option.bind_eq_some_iff, Option.map_eq_some_iff] at hr
    obtain ⟨point, hid, reply, hreply, rfl⟩ := hr
    by_contra htoken
    have hdraws := draws_of_token hreply (Option.ne_none_iff_isSome.mp htoken)
    have hpos := Interleaved.count_pos hid hdraws
    have hnone := hs.undrawn hready
    omega

/-- **Safety of the readiness flag.** In every interleaving of the calls: once ready the flag
stays ready, at most one `mark_ready` returns `true`, no `subscribe` returns a token when the flag
is ready (let alone one that takes the lock only then), and the tokens are nonzero and
distinct. -/
theorem flag_safe (es fs : List (Section Operation)) (s t : Calls)
    (hs : run step start es = some s) (ht : run step s fs = some t) :
    (s.shared.ready = true → t.shared.ready = true)
      ∧ countMarks (Interleaved.replies program start (es ++ fs)) ≤ 1
      ∧ (s.shared.ready = true → ∀ reply ∈ Interleaved.replies program s fs,
        reply.2.token? = none)
      ∧ (∀ token ∈ t.shared.tokens, token ≠ 0) ∧ t.shared.tokens.Nodup := by
  have hrun : run step start (es ++ fs) = some t := by rw [run_append, hs]; exact ht
  have hguarded := guarded_of_run (es ++ fs) t hrun
  have hstays := run_invariant_of_step fun s (e : Section Operation) t
    (hready : s.shared.ready = true) (hstep : step s e = some t) => ready_step hready hstep
  refine ⟨fun hready => hstays fs s t hready ht, ?_, fun hready reply hreply => ?_,
    hguarded.nonzero, hguarded.nodup⟩
  · have := hguarded.once
    omega
  · obtain ⟨pre, e, u, _, hu, hreply⟩ := Interleaved.exists_of_mem_replies ht hreply
    have hpre : run step start (es ++ pre) = some u := by rw [run_append, hs]; exact hu
    exact (guarded_of_run (es ++ pre) u hpre).no_token (hstays pre s u hready hu) hreply

/-- A second `subscribe` waits for the lock while a `mark_ready` makes the flag ready. -/
def markedRun : List (Section Operation) :=
  [.call 0 (.subscribe true), .advance 0, .advance 0, .advance 0, .advance 0,
   .call 1 (.subscribe true), .call 2 (.markReady 1 true),
   .advance 2, .advance 2, .advance 2, .advance 2, .advance 2]

/-- It takes the lock and returns. -/
def lateSubscribe : List (Section Operation) := [.advance 1, .advance 1, .advance 1]

theorem flag_safe_lateSubscribe :
    ∃ s t, run step start markedRun = some s ∧ run step s lateSubscribe = some t
      ∧ s.shared.ready = true ∧ t.shared.ready = true
      ∧ countMarks (Interleaved.replies program start (markedRun ++ lateSubscribe)) ≤ 1
      ∧ t.shared.tokens.Nodup := by
  obtain ⟨hready, honce, _, _, hnodup⟩ := flag_safe markedRun lateSubscribe _ _ rfl rfl
  exact ⟨_, _, rfl, rfl, rfl, hready rfl, honce, hnodup⟩

end CodexRouter.Readiness
