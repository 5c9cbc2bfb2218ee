import CodexRouter.Evolver.Store

set_option autoImplicit false

/-! # What holds of the pair store after any calls

`record_cases` says what a call can do to the table: nothing, a new human or seed row in the place
of the rows it supersedes, or a new child under the cap of its parent. The invariant `Sound` is
kept by each, and the loop of `effective` finds the rows of the best source of each pair.
-/

namespace CodexRouter.Evolver

open Lib

variable {rows : Rows} {r p q : Row}

/-! ## Active rows -/

def Active (rows : Rows) (r : Row) : Prop := r ∈ rows ∧ r.active = true

/-- No active row on the same pair ranks higher. -/
def Top (rows : Rows) (p : Row) : Prop :=
  ∀ q, Active rows q → q.keys = p.keys → p.source.rank ≤ q.source.rank

variable {keys : Key × Key} {pAWins weight : ℚ} {source : Source}

theorem mem_activeOn : r ∈ activeOn rows keys ↔ Active rows r ∧ r.keys = keys := by
  unfold activeOn Active
  rw [List.mem_filter, decide_eq_true_eq]
  constructor
  · rintro ⟨hr, hkeys, hactive⟩
    exact ⟨⟨hr, hactive⟩, hkeys⟩
  · rintro ⟨⟨hr, hactive⟩, hkeys⟩
    exact ⟨hr, hkeys, hactive⟩

/-- The rows that satisfy `d` made inactive. -/
def retire (d : Row → Bool) (rows : Rows) : Rows :=
  rows.map fun r => if d r then { r with active := false } else r

theorem active_retire (d : Row → Bool) :
    Active (retire d rows) r ↔ Active rows r ∧ d r = false := by
  unfold Active retire
  rw [List.mem_map]
  constructor
  · grind
  · rintro ⟨⟨hr, hactive⟩, hd⟩
    exact ⟨⟨r, hr, by rw [hd]; rfl⟩, hactive⟩

theorem map_retire {β : Type} {f : Row → β} (d : Row → Bool)
    (hf : ∀ r : Row, f { r with active := false } = f r) :
    (retire d rows).map f = rows.map f := by
  unfold retire
  rw [List.map_map]
  refine List.map_congr_left fun r _ => ?_
  show f (if d r then { r with active := false } else r) = f r
  split
  · exact hf r
  · rfl

theorem exists_of_mem_retire {d : Row → Bool} (h : r ∈ retire d rows) :
    ∃ r' ∈ rows, r.toPair = r'.toPair := by
  obtain ⟨r', hr', rfl⟩ := List.mem_map.mp h
  refine ⟨r', hr', ?_⟩
  split <;> rfl

theorem sum_childrenOf_retire_le (d : Row → Bool) (parent : Option Nat)
    (hpos : ∀ r ∈ rows, 0 ≤ r.weight) :
    ((childrenOf (retire d rows) parent).map fun r => r.weight).sum
      ≤ ((childrenOf rows parent).map fun r => r.weight).sum := by
  induction rows with
  | nil => exact le_refl _
  | cons r rows ih =>
    have hrest := ih fun r' hr' => hpos r' (List.mem_cons_of_mem _ hr')
    unfold childrenOf retire at hrest ⊢
    by_cases hd : d r = true
    · grind
    · grind

/-! ## The rows that a new comparison supersedes -/

/-- The row is one of `olds` that ranks no higher than `source`, or a child of one. -/
def dropped (olds : List Row) (source : Source) (r : Row) : Bool :=
  olds.any fun old => old.source.rank ≥ source.rank ∧
    (r.pairId = old.pairId ∨ r.parentPairId = some old.pairId)

theorem supersede_eq (keys : Key × Key) (source : Source) (rows : Rows) :
    supersede keys source rows = retire (dropped (activeOn rows keys) source) rows := by
  have hfold : ∀ (olds : List Row) (rows : Rows),
      olds.foldl (fun rows old =>
        if old.source.rank ≥ source.rank then deactivate old.pairId rows else rows) rows
          = retire (dropped olds source) rows := by
    intro olds
    induction olds with
    | nil =>
      intro rows
      simp [retire, dropped]
    | cons old olds ih =>
      intro rows
      rw [List.foldl_cons, ih]
      unfold retire deactivate
      by_cases hrank : old.source.rank ≥ source.rank
      · rw [if_pos hrank, List.map_map]
        refine List.map_congr_left fun r _ => ?_
        show (if dropped olds source (if r.pairId = old.pairId ∨ r.parentPairId = some old.pairId
            then { r with active := false } else r) then _ else _) = _
        by_cases hr : r.pairId = old.pairId ∨ r.parentPairId = some old.pairId
        · simp [dropped, hr, hrank]
        · simp [dropped, hr]
      · rw [if_neg hrank]
        refine List.map_congr_left fun r _ => ?_
        simp [dropped, hrank]
  exact hfold _ rows

/-! ## A new row -/

theorem le_foldr_max {l : List Nat} {a : Nat} (h : a ∈ l) : a ≤ l.foldr max 0 := by
  induction l with
  | nil => cases h
  | cons b l ih => grind

theorem pairId_lt_newRow (keys : Key × Key) (pAWins weight : ℚ) (source : Source)
    (parentPairId : Option Nat) (h : r ∈ rows) :
    r.pairId < (newRow keys pAWins weight source parentPairId rows).pairId :=
  Nat.lt_succ_of_le (le_foldr_max (List.mem_map_of_mem h))

theorem active_append {new : Row} (hnew : new.active = true) :
    Active (rows ++ [new]) r ↔ Active rows r ∨ r = new := by
  unfold Active
  constructor
  · grind
  · grind

/-! ## What a call can do -/

/-- The keys of the row that a call on `aKey` and `bKey` inserts. -/
def pairOf (aKey bKey : Key) : Key × Key := if aKey ≤ bKey then (aKey, bKey) else (bKey, aKey)

theorem canonical_keys (aKey bKey : Key) (p : ℚ) :
    (canonical aKey bKey p).1 = pairOf aKey bKey := by
  unfold canonical pairOf
  split <;> rfl

inductive Recorded (call : RecordCall) (rows : Rows) : Except PyError (Option Nat) × Rows → Prop
  | raised (e : PyError) : Recorded call rows (.error e, rows)
  | refused : Recorded call rows (.ok none, rows)
  | root (pAWins weight : ℚ) (source : Source) (hcall : Source.ofString? call.source = some source)
      (hsource : source ≠ .expanded) (hweight : 0 < weight) {result : Nat × Rows}
      (hresult : result = insertRow (pairOf call.aKey call.bKey) pAWins weight source none
        (retire (dropped (activeOn rows (pairOf call.aKey call.bKey)) source) rows)) :
      Recorded call rows (.ok (some result.1), result.2)
  | child (pAWins weight : ℚ) (parent : Row) (hid : call.parentPairId = some parent.pairId)
      (hparent : Active rows parent) (hsource : parent.source ≠ .expanded) (htop : Top rows parent)
      (hweight : 0 < weight)
      (hcap : ((childrenOf rows (some parent.pairId)).map fun r => r.weight).sum + weight
        ≤ expandedWeightCap) {result : Nat × Rows}
      (hresult : result = insertRow (pairOf call.aKey call.bKey) pAWins weight .expanded
        (some parent.pairId) rows) :
      Recorded call rows (.ok (some result.1), result.2)

theorem validatePairValues_pos {probability weight : Number} {v : ℚ × ℚ}
    (h : validatePairValues probability weight = .ok v) : 0 < v.2 := by
  unfold validatePairValues at h
  split at h
  · cases h
  · grind

theorem checkArguments_ok {call : RecordCall}
    (h : checkArguments call = .ok (keys, pAWins, weight, source)) :
    Source.ofString? call.source = some source ∧ keys = pairOf call.aKey call.bKey ∧ 0 < weight ∧
      (source ≠ .expanded → call.parentPairId = none) := by
  unfold checkArguments at h
  split at h
  · cases h
  · rename_i hcall
    split at h
    · cases h
    · split at h
      · cases h
      · rename_i hvalues
        simp only at h
        split at h
        · cases h
        · rename_i hparent
          cases h
          refine ⟨hcall, canonical_keys .., validatePairValues_pos hvalues, fun hsource => ?_⟩
          by_contra hne
          exact hparent ⟨hsource, hne⟩

/-- The parent that is accepted is active and the best of its pair, and the weight is what its
children leave. -/
theorem expandedWeight_ok {parentPairId : Option Nat} {w : ℚ}
    (h : expandedWeight rows parentPairId weight = .ok w) :
    ∃ parent, Active rows parent ∧ parentPairId = some parent.pairId ∧
      parent.source ≠ .expanded ∧ Top rows parent ∧
      (0 < w → ((childrenOf rows (some parent.pairId)).map fun r => r.weight).sum + w
        ≤ expandedWeightCap) := by
  unfold expandedWeight at h
  split at h
  · cases h
  · rename_i parent hfind
    have hfound : some parent.pairId = parentPairId ∧ parent.active = true := by
      simpa using List.find?_some hfind
    split at h
    · cases h
    · rename_i hsource
      split at h
      · cases h
      · rename_i htop
        cases h
        rw [← hfound.1]
        refine ⟨parent, ⟨List.mem_of_find?_eq_some hfind, hfound.2⟩, rfl, hsource,
          fun q hq hkeys => ?_, fun hpos => ?_⟩
        · by_contra hlt
          refine htop (List.any_eq_true.mpr ⟨q, mem_activeOn.mpr ⟨hq, hkeys⟩, ?_⟩)
          exact decide_eq_true (not_le.mp hlt)
        · grind

theorem record_cases (call : RecordCall) (rows : Rows) :
    Recorded call rows (record call rows) := by
  unfold record
  split
  · exact .raised _
  · rename_i keys pAWins weight source hargs
    obtain ⟨hcall, rfl, hweight, hroot⟩ := checkArguments_ok hargs
    unfold transaction recordBody
    by_cases hsource : source = .expanded
    · rw [if_pos hsource]
      cases hchild : expandedWeight rows call.parentPairId weight with
      | error e => exact .raised e
      | ok w =>
        obtain ⟨parent, hparent, hid, hsource', htop, hcap⟩ := expandedWeight_ok hchild
        by_cases hpos : w ≤ 0
        · simp only [if_pos hpos]
          exact .refused
        · simp only [if_neg hpos, hid, hsource]
          exact .child pAWins w parent hid hparent hsource' htop (not_le.mp hpos)
            (hcap (not_le.mp hpos)) rfl
    · rw [if_neg hsource, supersede_eq, hroot hsource]
      exact .root pAWins weight source hcall hsource hweight rfl

/-! ## The invariant -/

structure Sound (rows : Rows) : Prop where
  distinct : (rows.map fun r => r.pairId).Nodup
  positive : ∀ r ∈ rows, 0 ≤ r.weight
  roots : ∀ r ∈ rows, r.source ≠ .expanded → r.parentPairId = none
  single : ∀ r r', Active rows r → Active rows r' → r.keys = r'.keys → r.source = r'.source →
    r.source ≠ .expanded → r = r'
  parented : ∀ r, Active rows r → r.source = .expanded →
    ∃ p, Active rows p ∧ r.parentPairId = some p.pairId ∧ p.source ≠ .expanded ∧ Top rows p
  capped : ∀ id, ((childrenOf rows (some id)).map fun r => r.weight).sum ≤ expandedWeightCap

theorem sound_nil : Sound [] := by
  refine ⟨List.nodup_nil, fun _ h => ?_, fun _ h => ?_, fun _ _ h => ?_, fun _ h => ?_, fun _ => ?_⟩
  · cases h
  · cases h
  · cases h.1
  · cases h.1
  · show (0 : ℚ) ≤ 1 / 5
    norm_num

theorem Sound.eq_of_pairId (h : Sound rows) (hp : p ∈ rows) (hq : q ∈ rows)
    (hid : p.pairId = q.pairId) : p = q :=
  List.inj_on_of_nodup_map h.distinct hp hq hid

theorem childrenOf_append (rows : Rows) (new : Row) (parent : Option Nat) :
    childrenOf (rows ++ [new]) parent = childrenOf rows parent ++ childrenOf [new] parent :=
  List.filter_append ..

theorem nodup_append_newRow (keys : Key × Key) (pAWins weight : ℚ) (source : Source)
    (parentPairId : Option Nat) (h : (rows.map fun r => r.pairId).Nodup) :
    ((rows ++ [newRow keys pAWins weight source parentPairId rows]).map
      fun r => r.pairId).Nodup := by
  rw [List.map_append, List.nodup_append]
  refine ⟨h, List.nodup_singleton _, ?_⟩
  rintro a ha b hb rfl
  obtain ⟨r, hr, rfl⟩ := List.mem_map.mp ha
  have hlt := pairId_lt_newRow keys pAWins weight source parentPairId hr
  rw [List.mem_singleton.mp hb] at hlt
  exact lt_irrefl _ hlt

/-- An active row on the pair that is kept ranks higher. -/
theorem rank_lt_of_kept (hr : Active (retire (dropped (activeOn rows keys) source) rows) r)
    (hkeys : r.keys = keys) : r.source.rank < source.rank := by
  obtain ⟨hr, hdropped⟩ := (active_retire _).mp hr
  by_contra hle
  have hdrop : dropped (activeOn rows keys) source r = true :=
    List.any_eq_true.mpr ⟨r, mem_activeOn.mpr ⟨hr, hkeys⟩,
      decide_eq_true ⟨not_lt.mp hle, Or.inl rfl⟩⟩
  rw [hdrop] at hdropped
  cases hdropped

/-- A child that is kept keeps its parent: it would have gone with it. -/
theorem Sound.parent_kept (h : Sound rows)
    (hr : Active (retire (dropped (activeOn rows keys) source) rows) r) (hp : Active rows p)
    (hparent : r.parentPairId = some p.pairId) (hroot : p.source ≠ .expanded) :
    Active (retire (dropped (activeOn rows keys) source) rows) p := by
  refine (active_retire _).mpr ⟨hp, Bool.eq_false_iff.mpr fun hdrop => ?_⟩
  obtain ⟨old, hold, hcond⟩ := List.any_eq_true.mp hdrop
  obtain ⟨hrank, hid | hid⟩ := of_decide_eq_true hcond
  · have hchild : dropped (activeOn rows keys) source r = true :=
      List.any_eq_true.mpr ⟨old, hold, decide_eq_true ⟨hrank, Or.inr (hid ▸ hparent)⟩⟩
    rw [((active_retire _).mp hr).2] at hchild
    cases hchild
  · rw [h.roots p hp.1 hroot] at hid
    cases hid

/-- A new human or seed row in the place of those it supersedes. -/
theorem Sound.root (h : Sound rows) (hsource : source ≠ .expanded) (hweight : 0 < weight) :
    let kept := retire (dropped (activeOn rows keys) source) rows
    Sound (kept ++ [newRow keys pAWins weight source none kept]) := by
  intro kept
  have hkept : ∀ r, Active kept r → Active rows r := fun r hr => ((active_retire _).mp hr).1
  have hactive : ∀ r, Active (kept ++ [newRow keys pAWins weight source none kept]) r ↔
      Active kept r ∨ r = newRow keys pAWins weight source none kept := fun r => active_append rfl
  constructor
  · refine nodup_append_newRow keys pAWins weight source none ?_
    rw [map_retire _ fun _ => rfl]
    exact h.distinct
  · refine List.forall_mem_append.mpr ⟨fun r hr => ?_, List.forall_mem_singleton.mpr hweight.le⟩
    grind [exists_of_mem_retire, cases Sound]
  · refine List.forall_mem_append.mpr ⟨fun r hr => ?_, List.forall_mem_singleton.mpr fun _ => rfl⟩
    grind [exists_of_mem_retire, cases Sound]
  · intro r r' hr hr' hkeys hsame hroot
    rcases (hactive r).mp hr with hr | rfl <;> rcases (hactive r').mp hr' with hr' | rfl
    · exact h.single r r' (hkept r hr) (hkept r' hr') hkeys hsame hroot
    · have hlt := rank_lt_of_kept hr hkeys
      rw [hsame] at hlt
      exact absurd hlt (lt_irrefl _)
    · have hlt := rank_lt_of_kept hr' hkeys.symm
      rw [← hsame] at hlt
      exact absurd hlt (lt_irrefl _)
    · rfl
  · intro r hr hexpanded
    rcases (hactive r).mp hr with hr | rfl
    · obtain ⟨p, hp, hparent, hroot, htop⟩ := h.parented r (hkept r hr) hexpanded
      have hstays : Active kept p := h.parent_kept hr hp hparent hroot
      refine ⟨p, (hactive p).mpr (Or.inl hstays), hparent, hroot, fun q hq hkeys => ?_⟩
      rcases (hactive q).mp hq with hq | rfl
      · exact htop q (hkept q hq) hkeys
      · exact (rank_lt_of_kept hstays hkeys.symm).le
    · exact absurd hexpanded hsource
  · intro id
    have hnone : childrenOf [newRow keys pAWins weight source none kept] (some id) = [] := by
      simp [childrenOf, newRow]
    rw [childrenOf_append, hnone, List.append_nil]
    exact (sum_childrenOf_retire_le _ _ h.positive).trans (h.capped id)

/-- A new child of an active human or seed row that is the best of its pair. -/
theorem Sound.child (h : Sound rows) {parent : Row} (hparent : Active rows parent)
    (hsource : parent.source ≠ .expanded) (htop : Top rows parent) (hweight : 0 < weight)
    (hcap : ((childrenOf rows (some parent.pairId)).map fun r => r.weight).sum + weight
      ≤ expandedWeightCap) :
    Sound (rows ++ [newRow keys pAWins weight .expanded (some parent.pairId) rows]) := by
  have hactive : ∀ r, Active (rows ++ [newRow keys pAWins weight .expanded
      (some parent.pairId) rows]) r ↔ Active rows r ∨
        r = newRow keys pAWins weight .expanded (some parent.pairId) rows :=
    fun r => active_append rfl
  -- the new row ranks lowest, so that what was best stays best
  have htops : ∀ p, Top rows p → Top (rows ++ [newRow keys pAWins weight .expanded
      (some parent.pairId) rows]) p := by
    intro p hp q hq hkeys
    rcases (hactive q).mp hq with hq | rfl
    · exact hp q hq hkeys
    · show p.source.rank ≤ 2
      cases p.source <;> decide
  constructor
  · exact nodup_append_newRow keys pAWins weight .expanded _ h.distinct
  · exact List.forall_mem_append.mpr ⟨h.positive, List.forall_mem_singleton.mpr hweight.le⟩
  · exact List.forall_mem_append.mpr
      ⟨h.roots, List.forall_mem_singleton.mpr fun hroot => absurd rfl hroot⟩
  · intro r r' hr hr' hkeys hsame hroot
    rcases (hactive r).mp hr with hr | rfl <;> rcases (hactive r').mp hr' with hr' | rfl
    · exact h.single r r' hr hr' hkeys hsame hroot
    · exact absurd hsame hroot
    · exact absurd rfl hroot
    · rfl
  · intro r hr hexpanded
    rcases (hactive r).mp hr with hr | rfl
    · obtain ⟨p, hp, hid, hroot, hp'⟩ := h.parented r hr hexpanded
      exact ⟨p, (hactive p).mpr (Or.inl hp), hid, hroot, htops p hp'⟩
    · exact ⟨parent, (hactive parent).mpr (Or.inl hparent), rfl, hsource, htops parent htop⟩
  · intro id
    rw [childrenOf_append, List.map_append, List.sum_append]
    by_cases hid : parent.pairId = id
    · rw [← hid]
      simpa [childrenOf, newRow] using hcap
    · have hnone : childrenOf [newRow keys pAWins weight .expanded (some parent.pairId) rows]
          (some id) = [] := by
        simp [childrenOf, newRow, hid]
      rw [hnone]
      simpa using h.capped id

theorem Sound.record (h : Sound rows) (call : RecordCall) : Sound (record call rows).2 := by
  have hcases := record_cases call rows
  generalize Evolver.record call rows = result at hcases
  cases hcases with
  | raised e => exact h
  | refused => exact h
  | root pAWins weight source hcall hsource hweight hresult =>
    rw [hresult]
    exact h.root hsource hweight
  | child pAWins weight parent hid hparent hsource htop hweight hcap hresult =>
    rw [hresult]
    exact h.child hparent hsource htop hweight hcap

theorem sound_recorded (calls : List RecordCall) : Sound (recorded calls) := by
  have hfold : ∀ (calls : List RecordCall) (rows : Rows), Sound rows →
      Sound (calls.foldl (fun rows call => (record call rows).2) rows) := by
    intro calls
    induction calls with
    | nil => exact fun _ h => h
    | cons call calls ih => exact fun rows h => ih _ (h.record call)
  exact hfold calls [] sound_nil

end CodexRouter.Evolver
