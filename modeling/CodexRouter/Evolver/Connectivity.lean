import CodexRouter.Evolver.Workflow

set_option autoImplicit false

/-! # Comparisons stay connected to the reference key

The graph of the effective comparisons is that of the active rows. A human comparison replaces the
rows of its pair and takes their children away; an expansion hangs new keys on the two keys of the
answer. So only the keys of the children that a repeated comparison takes away can get lost, and
they do get lost when a later answer was given for one of them.
-/

namespace CodexRouter.Evolver

open Lib

variable {rows : Rows} {r : Row} {refKey aKey bKey : Key}

/-! ## The graph -/

def Pair.Has (p : Pair) (key : Key) : Prop := p.aKey = key ∨ p.bKey = key

/-- The comparison is between `u` and `v`. -/
def Pair.Joins (p : Pair) (u v : Key) : Prop :=
  (p.aKey = u ∧ p.bKey = v) ∨ (p.aKey = v ∧ p.bKey = u)

def Compared (rows : Rows) (u v : Key) : Prop := ∃ p ∈ effective rows, p.Joins u v

/-- There is a chain of effective comparisons from `u` to `v`. -/
def Joined (rows : Rows) (u v : Key) : Prop := Relation.ReflTransGen (Compared rows) u v

/-- The graph of the effective comparisons contains the reference key and is connected. -/
structure Connected (refKey : Key) (rows : Rows) : Prop where
  contains : ∃ p ∈ effective rows, p.Has refKey
  joined : ∀ p ∈ effective rows, ∀ key, p.Has key → Joined rows refKey key

variable {p : Pair} {u v key : Key} {weight : ℚ} {nfkc : String → String} {known : List Key}
  {candidates : List (Key × Key)} {q : Question} {parent : Row}

theorem Pair.Joins.symm (h : p.Joins u v) : p.Joins v u := Or.symm h

theorem Pair.Joins.has (h : p.Joins u v) : p.Has u ∧ p.Has v := by
  grind [Pair.Joins, Pair.Has]

theorem Pair.joins_congr {q : Pair} (h : p.keys = q.keys) (u v : Key) :
    p.Joins u v ↔ q.Joins u v := by
  obtain ⟨ha, hb⟩ := Prod.mk.inj h
  unfold Pair.Joins
  rw [ha, hb]

theorem Pair.has_congr {q : Pair} (h : p.keys = q.keys) (key : Key) : p.Has key ↔ q.Has key := by
  obtain ⟨ha, hb⟩ := Prod.mk.inj h
  unfold Pair.Has
  rw [ha, hb]

theorem Pair.joins_of_pairOf (h : p.keys = pairOf aKey bKey) : p.Joins aKey bKey := by
  unfold pairOf at h
  split at h
  · exact Or.inl ⟨congrArg Prod.fst h, congrArg Prod.snd h⟩
  · exact Or.inr ⟨congrArg Prod.fst h, congrArg Prod.snd h⟩

theorem Pair.has_of_pairOf (h : p.keys = pairOf aKey bKey) :
    p.Has key ↔ key = aKey ∨ key = bKey := by
  unfold Pair.Has
  rcases Pair.joins_of_pairOf h with ⟨ha, hb⟩ | ⟨hb, ha⟩
  · rw [ha, hb, eq_comm, eq_comm (a := bKey)]
  · rw [ha, hb, eq_comm, eq_comm (a := aKey), or_comm]

theorem mem_keys : key ∈ keys rows ↔ ∃ r, Active rows r ∧ r.Has key := by
  unfold keys Active Pair.Has
  rw [List.mem_insertionSort, List.mem_dedup, List.mem_flatMap]
  constructor
  · grind
  · grind

/-- A pair with an active row has an effective comparison. -/
theorem Sound.exists_effective (h : Sound rows) (hr : Active rows r) :
    ∃ p ∈ effective rows, p.keys = r.keys := by
  have hmem : r.toPair ∈ activePairs rows := mem_activePairs.mpr ⟨r, hr, rfl⟩
  -- the loop of `effective` has seen the keys of the row
  have hbest := h.bestOf
  cases hk : ((activePairs rows).foldl addBest Table.empty).get? r.keys with
  | none => exact absurd rfl (hbest.unseen r.keys hk r.toPair hmem)
  | some l =>
    obtain ⟨hne, -, hl⟩ := hbest.seen r.keys l hk
    obtain ⟨p, hp⟩ := List.exists_mem_of_ne_nil l hne
    refine ⟨p, ?_, ((hl p).mp hp).1⟩
    exact List.mem_flatten.mpr ⟨l, List.mem_map_of_mem (Table.get?_eq_some_iff.mp hk), hp⟩

theorem Sound.compared_iff (h : Sound rows) :
    Compared rows u v ↔ ∃ r, Active rows r ∧ r.Joins u v := by
  constructor
  · rintro ⟨p, hp, hjoins⟩
    obtain ⟨r, hr, rfl, -⟩ := (h.mem_effective p).mp hp
    exact ⟨r, hr, hjoins⟩
  · rintro ⟨r, hr, hjoins⟩
    obtain ⟨p, hp, hkeys⟩ := h.exists_effective hr
    exact ⟨p, hp, (Pair.joins_congr hkeys u v).mpr hjoins⟩

theorem Sound.mem_keys_iff (h : Sound rows) : key ∈ keys rows ↔ ∃ v, Compared rows key v := by
  rw [mem_keys]
  constructor
  · rintro ⟨r, hr, rfl | rfl⟩
    · exact ⟨r.bKey, h.compared_iff.mpr ⟨r, hr, Or.inl ⟨rfl, rfl⟩⟩⟩
    · exact ⟨r.aKey, h.compared_iff.mpr ⟨r, hr, Or.inr ⟨rfl, rfl⟩⟩⟩
  · rintro ⟨v, hedge⟩
    obtain ⟨r, hr, hjoins⟩ := h.compared_iff.mp hedge
    exact ⟨r, hr, hjoins.has.1⟩

theorem Compared.symm (h : Compared rows u v) : Compared rows v u := by
  obtain ⟨p, hp, hjoins⟩ := h
  exact ⟨p, hp, hjoins.symm⟩

/-! ## The check of `refit` -/

theorem mem_adjacent {pairs : List Pair} : v ∈ adjacent pairs u ↔ ∃ p ∈ pairs, p.Joins u v := by
  unfold adjacent Pair.Joins
  rw [List.mem_flatMap]
  refine exists_congr fun p => and_congr_right fun _ => ?_
  rw [List.mem_append]
  refine or_congr ?_ ?_
  · grind
  · grind

theorem mem_adjacentKeys {pairs : List Pair} :
    key ∈ adjacentKeys refKey pairs ↔ key = refKey ∨ ∃ p ∈ pairs, p.Has key := by
  unfold adjacentKeys Pair.Has
  simp [eq_comm]

theorem mem_reached : key ∈ reached refKey (effective rows) ↔ Joined rows refKey key := by
  have hclosed : ∀ x ∈ adjacentKeys refKey (effective rows), ∀ y ∈ adjacent (effective rows) x,
      y ∈ adjacentKeys refKey (effective rows) := by
    intro x _ y hy
    obtain ⟨p, hp, hjoins⟩ := mem_adjacent.mp hy
    exact mem_adjacentKeys.mpr (Or.inr ⟨p, hp, hjoins.has.2⟩)
  have hsearch := mem_search_iff hclosed (List.mem_cons_self ..) key
  have hrel : (fun x y => y ∈ adjacent (effective rows) x) = Compared rows := by
    funext x y
    exact propext mem_adjacent
  rw [hrel] at hsearch
  exact hsearch

theorem refit_disconnected_iff {fit : Except Raised Nat} :
    refit refKey rows fit = .error .disconnected ↔
      ¬ ∀ p ∈ effective rows, ∀ key, p.Has key → Joined rows refKey key := by
  have hsame : ((∀ key ∈ reached refKey (effective rows),
        key ∈ adjacentKeys refKey (effective rows)) ∧
      ∀ key ∈ adjacentKeys refKey (effective rows), key ∈ reached refKey (effective rows)) ↔
        ∀ p ∈ effective rows, ∀ key, p.Has key → Joined rows refKey key := by
    constructor
    · intro h p hp key hkey
      exact mem_reached.mp (h.2 key (mem_adjacentKeys.mpr (Or.inr ⟨p, hp, hkey⟩)))
    · intro h
      refine ⟨fun key hkey => ?_, fun key hkey => ?_⟩
      · rw [mem_adjacentKeys]
        -- a key that is reached is the first one or the end of a comparison
        rcases Relation.ReflTransGen.cases_tail (mem_reached.mp hkey) with heq | ⟨_, -, hlast⟩
        · exact Or.inl heq
        · obtain ⟨p, hp, hjoins⟩ := hlast
          exact Or.inr ⟨p, hp, hjoins.has.2⟩
      · rw [mem_reached]
        rcases mem_adjacentKeys.mp hkey with rfl | ⟨p, hp, hhas⟩
        · exact Relation.ReflTransGen.refl
        · exact h p hp key hhas
  rw [← hsame]
  unfold refit
  simp only
  split
  · grind
  · rename_i hall
    exact ⟨fun _ => hall, fun _ => rfl⟩

/-! ## Recording an answer -/

/-- The row is a child of an active row on the pair. -/
def ChildOn (rows : Rows) (keys : Key × Key) (r : Row) : Prop :=
  ∃ old, Active rows old ∧ old.keys = keys ∧ r.parentPairId = some old.pairId

theorem validatePairValues_ok {probability weight : Number} {p w : ℚ}
    (h : validatePairValues probability weight = .ok (p, w)) :
    validatePairValues (.finite p) (.finite w) = .ok (p, w) := by
  unfold validatePairValues at h
  split at h
  · cases h
  · split at h
    · cases h
    · split at h
      · cases h
      · split at h
        · cases h
        · rename_i hprobability hweight
          cases h
          simp [validatePairValues, finiteNumber, hprobability, hweight]

theorem record_human (hne : aKey ≠ bKey) {score : ℚ}
    (hvalues : validatePairValues (.finite score) (.finite weight) = .ok (score, weight))
    (rows : Rows) :
    ∃ p : ℚ, ∃ kept : Rows,
      kept = retire (dropped (activeOn rows (pairOf aKey bKey)) .human) rows ∧
        record (humanCall aKey bKey score weight) rows =
          (.ok (some (newRow (pairOf aKey bKey) p weight .human none kept).pairId),
            kept ++ [newRow (pairOf aKey bKey) p weight .human none kept]) := by
  refine ⟨(canonical aKey bKey score).2, _, rfl, ?_⟩
  have hargs : checkArguments (humanCall aKey bKey score weight) =
      .ok (pairOf aKey bKey, (canonical aKey bKey score).2, weight, .human) := by
    rw [← canonical_keys aKey bKey score]
    simp [checkArguments, humanCall, Source.ofString?, hne, hvalues]
  unfold record
  rw [hargs]
  simp only [transaction, recordBody, humanCall, reduceCtorEq, if_false, insertRow, supersede_eq]

/-- What a human comparison takes away: the rows on its pair and their children. -/
def Replaced (rows : Rows) (keys : Key × Key) (r : Row) : Prop :=
  r.keys = keys ∨ ChildOn rows keys r

theorem Sound.active_kept (h : Sound rows) {keys : Key × Key} :
    Active (retire (dropped (activeOn rows keys) .human) rows) r ↔
      Active rows r ∧ ¬ Replaced rows keys r := by
  rw [active_retire]
  refine and_congr_right fun hr => ?_
  rw [Bool.eq_false_iff, Ne]
  refine not_congr ?_
  unfold dropped
  rw [List.any_eq_true]
  constructor
  · rintro ⟨old, hold, hcond⟩
    obtain ⟨hold, hkeys⟩ := mem_activeOn.mp hold
    rcases (of_decide_eq_true hcond).2 with hid | hid
    · rw [h.eq_of_pairId hr.1 hold.1 hid]
      exact Or.inl hkeys
    · exact Or.inr ⟨old, hold, hkeys, hid⟩
  · rintro (hkeys | ⟨old, hold, hkeys, hid⟩)
    · exact ⟨r, mem_activeOn.mpr ⟨hr, hkeys⟩, decide_eq_true ⟨Nat.zero_le _, Or.inl rfl⟩⟩
    · exact ⟨old, mem_activeOn.mpr ⟨hold, hkeys⟩, decide_eq_true ⟨Nat.zero_le _, Or.inr hid⟩⟩

/-! ## One more row -/

/-- `after` has the row `new`, and the active rows of `rows` that are not `gone`. -/
structure Adds (rows after : Rows) (gone : Row → Prop) (new : Row) : Prop where
  before : Sound rows
  sound : Sound after
  active : ∀ r, Active after r ↔ (Active rows r ∧ ¬ gone r) ∨ r = new
  fresh : ∀ r ∈ rows, r.pairId ≠ new.pairId

section Adds

variable {after : Rows} {gone : Row → Prop} {new : Row}

theorem Adds.active_new (h : Adds rows after gone new) : Active after new :=
  (h.active new).mpr (Or.inr rfl)

theorem Adds.compared (h : Adds rows after gone new) {u v : Key} (hjoins : new.Joins u v) :
    Compared after u v :=
  h.sound.compared_iff.mpr ⟨new, h.active_new, hjoins⟩

/-- A key still in use stays joined, if the comparisons that are gone are made up for. -/
theorem Adds.joined (h : Adds rows after gone new)
    (hgone : ∀ r, Active rows r → gone r → ∀ u v, r.Joins u v → v ∈ keys after →
      new.Joins u v ∨ Joined after refKey v)
    {key : Key} (hpath : Joined rows refKey key) (hkey : key ∈ keys after) :
    Joined after refKey key := by
  induction hpath with
  | refl => exact Relation.ReflTransGen.refl
  | @tail u v _ hedge ih =>
    obtain ⟨r, hr, hjoins⟩ := h.before.compared_iff.mp hedge
    -- the last comparison is still there, or another one in its place
    have hstays : ∀ r', Active after r' → r'.Joins u v → Joined after refKey v :=
      fun r' hr' hjoins' =>
        (ih (mem_keys.mpr ⟨r', hr', hjoins'.has.1⟩)).tail
          (h.sound.compared_iff.mpr ⟨r', hr', hjoins'⟩)
    by_cases hlost : gone r
    · grind [cases Adds]
    · exact hstays r ((h.active r).mpr (Or.inl ⟨hr, hlost⟩)) hjoins

/-- The parent of an active row is not the row that comes after it. -/
theorem Adds.parent_before (h : Adds rows after gone new) {c q : Row} (hc : Active rows c)
    (hq : Active after q) (hid : c.parentPairId = some q.pairId) : Active rows q := by
  grind [Active, cases Adds, cases Sound]

end Adds

theorem Sound.adds_human (h : Sound rows) (keys : Key × Key) (p : ℚ) (hweight : 0 < weight) :
    let kept := retire (dropped (activeOn rows keys) .human) rows
    Adds rows (kept ++ [newRow keys p weight .human none kept]) (Replaced rows keys)
      (newRow keys p weight .human none kept) := by
  intro kept
  refine ⟨h, h.root (by decide) hweight, fun r => ?_, fun r hr => ?_⟩
  · rw [active_append rfl, h.active_kept]
  · have hmem : r.pairId ∈ kept.map fun r => r.pairId := by grind [map_retire, cases Sound]
    obtain ⟨k, hk, hkid⟩ := List.mem_map.mp hmem
    rw [← hkid]
    exact (pairId_lt_newRow keys p weight .human none hk).ne

theorem Sound.adds_child (h : Sound rows) {keys : Key × Key} {p : ℚ} {parent : Option Nat}
    (hafter : Sound (rows ++ [newRow keys p weight .expanded parent rows])) :
    Adds rows (rows ++ [newRow keys p weight .expanded parent rows]) (fun _ => False)
      (newRow keys p weight .expanded parent rows) := by
  refine ⟨h, hafter, fun r => ?_, fun r hr => ?_⟩
  · rw [active_append rfl, not_false_eq_true, and_true]
  · exact (pairId_lt_newRow keys p weight .expanded parent hr).ne

/-! ## The invariant -/

structure Grouped (refKey : Key) (rows : Rows) : Prop where
  sound : Sound rows
  joined : ∀ r, Active rows r → ∀ key, r.Has key → Joined rows refKey key
  contains : rows ≠ [] → ∃ r, Active rows r ∧ r.Has refKey
  -- the reference key is never an alias
  anchored : ∀ c p, Active rows c → Active rows p → c.parentPairId = some p.pairId →
    c.Has refKey → p.Has refKey

theorem grouped_nil : Grouped refKey [] := by
  refine ⟨sound_nil, fun _ h => ?_, fun h => absurd rfl h, fun _ _ h => ?_⟩
  · cases h.1
  · cases h.1

theorem Grouped.connected (h : Grouped refKey rows) (hne : rows ≠ []) : Connected refKey rows := by
  constructor
  · obtain ⟨r, hr, hhas⟩ := h.contains hne
    obtain ⟨p, hp, hkeys⟩ := h.sound.exists_effective hr
    exact ⟨p, hp, (Pair.has_congr hkeys refKey).mpr hhas⟩
  · grind [cases Grouped, h.sound.mem_effective]

/-- What an answer needs of the known keys. -/
def Meets (refKey aKey bKey : Key) (rows : Rows) : Prop :=
  (keys rows = [] → refKey = aKey ∨ refKey = bKey) ∧
    (keys rows ≠ [] → aKey ∈ keys rows ∨ bKey ∈ keys rows)

section Human

variable {after : Rows} {new : Row}

/-- A key of the group stays in it, if those of the children that are taken away do. -/
theorem Grouped.joined_human (h : Grouped refKey rows)
    (hadds : Adds rows after (Replaced rows (pairOf aKey bKey)) new)
    (hnew : new.keys = pairOf aKey bKey)
    (hkeeps : ∀ c, Active rows c → ChildOn rows (pairOf aKey bKey) c → ∀ key, c.Has key →
      key ∈ keys after → Joined after refKey key)
    {key : Key} (hknown : key ∈ keys rows) (hkey : key ∈ keys after) :
    Joined after refKey key := by
  obtain ⟨r, hr, hhas⟩ := mem_keys.mp hknown
  refine hadds.joined ?_ (h.joined r hr key hhas) hkey
  rintro r' hr' (hkeys | hchild) u v hjoins hv
  · exact Or.inl ((Pair.joins_congr (hkeys.trans hnew.symm) u v).mp hjoins)
  · exact Or.inr (hkeeps r' hr' hchild v hjoins.has.2 hv)

/-- One key of the answer is in the group, so that the new comparison joins the other. -/
theorem joined_ends (hmeets : Meets refKey aKey bKey rows) (hedge : Compared after aKey bKey)
    (hknown : ∀ key, key ∈ keys rows → key = aKey ∨ key = bKey → Joined after refKey key) :
    Joined after refKey aKey ∧ Joined after refKey bKey := by
  grind [Compared, Meets, Joined, Pair.Joins]

section

variable (h : Grouped refKey rows) (hmeets : Meets refKey aKey bKey rows)
  (hadds : Adds rows after (Replaced rows (pairOf aKey bKey)) new)
  (hnew : new.keys = pairOf aKey bKey)

include h hmeets hadds hnew

/-- A row with the reference key that is taken away leaves it to the new one. -/
theorem Grouped.contains_human : ∃ r, Active after r ∧ r.Has refKey := by
  by_cases hnil : rows = []
  · refine ⟨new, hadds.active_new, (Pair.has_of_pairOf hnew).mpr (hmeets.1 ?_)⟩
    rw [hnil]
    rfl
  · obtain ⟨r, hr, hhas⟩ := h.contains hnil
    by_cases hgone : Replaced rows (pairOf aKey bKey) r
    · have holds : ∃ old : Row, old.keys = pairOf aKey bKey ∧ old.Has refKey := by
        rcases hgone with hkeys | ⟨old, hold, hkeys, hid⟩
        · exact ⟨r, hkeys, hhas⟩
        · exact ⟨old, hkeys, h.anchored r old hr hold hid hhas⟩
      obtain ⟨old, hkeys, hold⟩ := holds
      exact ⟨new, hadds.active_new, (Pair.has_congr (hkeys.trans hnew.symm) refKey).mp hold⟩
    · exact ⟨r, (hadds.active r).mpr (Or.inl ⟨hr, hgone⟩), hhas⟩

/-- A human comparison, if the keys of the children that it takes away stay in the group. -/
theorem Grouped.human (hroot : new.parentPairId = none)
    (hkeeps : ∀ c, Active rows c → ChildOn rows (pairOf aKey bKey) c → ∀ key, c.Has key →
      key ∈ keys after → Joined after refKey key) :
    Grouped refKey after := by
  have hhas : ∀ key, new.Has key ↔ key = aKey ∨ key = bKey := fun key => Pair.has_of_pairOf hnew
  have hends := joined_ends hmeets (hadds.compared (Pair.joins_of_pairOf hnew))
    fun key hknown hkey => h.joined_human hadds hnew hkeeps hknown
      (mem_keys.mpr ⟨new, hadds.active_new, (hhas key).mpr hkey⟩)
  refine ⟨hadds.sound, fun r hr key hkey => ?_, fun _ => h.contains_human hmeets hadds hnew,
    fun c q hc hq hid href => ?_⟩
  · rcases (hadds.active r).mp hr with ⟨hrows, -⟩ | rfl
    · exact h.joined_human hadds hnew hkeeps (mem_keys.mpr ⟨r, hrows, hkey⟩)
        (mem_keys.mpr ⟨r, hr, hkey⟩)
    · grind
  · rcases (hadds.active c).mp hc with ⟨hrows, -⟩ | rfl
    · exact h.anchored c q hrows (hadds.parent_before hrows hq hid) hid href
    · rw [hroot] at hid
      cases hid

end

end Human

/-! ## Expansion -/

/-- The candidate compares a key other than the reference key with one of the answer. -/
def Hangs (refKey aKey bKey : Key) (candidate : Key × Key) : Prop :=
  ∃ key ≠ refKey, candidate = (key, bKey) ∨ candidate = (aKey, key)

theorem addAliases_ok {pair : Key → Key × Key} {args : List KeyArg}
    {found : List Key × List (Key × Key)}
    (h : addAliases nfkc pair args known candidates = .ok found) :
    known ⊆ found.1 ∧ ∀ c ∈ found.2, c ∈ candidates ∨ ∃ key ∉ known, c = pair key := by
  induction args generalizing known candidates with
  | nil =>
    cases h
    exact ⟨List.Subset.refl _, fun c hc => Or.inl hc⟩
  | cons arg rest ih =>
    unfold addAliases at h
    split at h
    · cases h
    · grind

theorem expandKey_ok {pair : Key → Key × Key} {expansion : Expansion}
    {found : List Key × List (Key × Key)}
    (h : expandKey nfkc pair expansion known candidates = .ok found) :
    known ⊆ found.1 ∧ ∀ c ∈ found.2, c ∈ candidates ∨ ∃ key ∉ known, c = pair key := by
  unfold expandKey at h
  split at h
  · cases h
  · cases h
  · split at h
    · cases h
    · split at h
      · cases h
      · rename_i hadd
        cases h
        exact addAliases_ok hadd

theorem hangs_of_candidatesOf (hknown : refKey ∈ known)
    (h : candidatesOf nfkc q aKey bKey known = .ok candidates) :
    ∀ c ∈ candidates, Hangs refKey aKey bKey c := by
  unfold candidatesOf at h
  split at h
  · cases h
  · rename_i known' first hfirst
    split at h
    · cases h
    · rename_i hsecond
      cases h
      obtain ⟨hsub, hfirst⟩ := expandKey_ok hfirst
      obtain ⟨-, hsecond⟩ := expandKey_ok hsecond
      intro c hc
      rcases hsecond c hc with hc | ⟨key, hkey, rfl⟩
      · grind [Hangs]
      · exact ⟨key, fun heq => hkey (heq ▸ hsub hknown), Or.inr rfl⟩

section

variable (h : Grouped refKey rows) (hparent : Active rows parent)
  (hkeys : parent.keys = pairOf aKey bKey) {candidate : Key × Key}
  (hangs : Hangs refKey aKey bKey candidate)

include h hparent hkeys hangs

/-- A comparison that hangs on a key of a row of the group. -/
theorem Grouped.hang {after : Rows} {new : Row} (hadds : Adds rows after (fun _ => False) new)
    (hid : new.parentPairId = some parent.pairId)
    (hnew : new.keys = pairOf candidate.1 candidate.2) : Grouped refKey after := by
  have hstays : ∀ r, Active rows r → Active after r := fun r hr =>
    (hadds.active r).mpr (Or.inl ⟨hr, not_false⟩)
  have hjoined : ∀ r, Active rows r → ∀ key, r.Has key → Joined after refKey key :=
    fun r hr key hkey => hadds.joined (fun _ _ hgone => hgone.elim) (h.joined r hr key hkey)
      (mem_keys.mpr ⟨r, hstays r hr, hkey⟩)
  have hof : ∀ key, parent.Has key ↔ key = aKey ∨ key = bKey := fun key => Pair.has_of_pairOf hkeys
  have hhas : ∀ key, new.Has key ↔ key = candidate.1 ∨ key = candidate.2 := fun key =>
    Pair.has_of_pairOf hnew
  have hedge : Compared after candidate.1 candidate.2 :=
    hadds.compared (Pair.joins_of_pairOf hnew)
  obtain ⟨fresh, hfresh, hcandidate⟩ := hangs
  refine ⟨hadds.sound, fun r hr key hkey => ?_, fun _ => ?_, fun c q hc hq hcq href => ?_⟩
  · rcases (hadds.active r).mp hr with ⟨hr, -⟩ | rfl
    · exact hjoined r hr key hkey
    · rcases hcandidate with rfl | rfl
      · have hb := hjoined parent hparent bKey ((hof bKey).mpr (Or.inr rfl))
        rcases (hhas key).mp hkey with rfl | rfl
        · exact hb.tail hedge.symm
        · exact hb
      · have ha := hjoined parent hparent aKey ((hof aKey).mpr (Or.inl rfl))
        rcases (hhas key).mp hkey with rfl | rfl
        · exact ha
        · exact ha.tail hedge
  · obtain ⟨r, hr, href⟩ := h.contains (List.ne_nil_of_mem hparent.1)
    exact ⟨r, hstays r hr, href⟩
  · rcases (hadds.active c).mp hc with ⟨hrows, -⟩ | rfl
    · exact h.anchored c q hrows (hadds.parent_before hrows hq hcq) hcq href
    · -- the parent has the key on which the candidate hangs
      have hsame : parent.pairId = q.pairId := Option.some.inj (hid.symm.trans hcq)
      rw [← hadds.sound.eq_of_pairId (hstays parent hparent).1 hq.1 hsame, hof]
      rcases hcandidate with rfl | rfl
      · exact Or.inr (((hhas refKey).mp href).resolve_left hfresh.symm)
      · exact Or.inl (((hhas refKey).mp href).resolve_right hfresh.symm)

/-- A child of the answer's row, for a candidate that hangs on one of its keys. -/
theorem Grouped.child (score weight : ℚ) :
    let after := (record (childCall candidate score weight (some parent.pairId)) rows).2
    Grouped refKey after ∧ Active after parent := by
  intro after
  have hsound : Sound after := h.sound.record _
  have hcases := record_cases (childCall candidate score weight (some parent.pairId)) rows
  generalize hresult : record (childCall candidate score weight (some parent.pairId)) rows = result
    at hcases
  have hafter : after = result.2 := congrArg Prod.snd hresult
  cases hcases with
  | raised e =>
    rw [hafter]
    exact ⟨h, hparent⟩
  | refused =>
    rw [hafter]
    exact ⟨h, hparent⟩
  | root p w source hcall hsource =>
    cases hcall
    exact absurd rfl hsource
  | child p w parent' hid hparent' hsource htop hweight hcap hinsert =>
    have hafter : after = rows ++ [newRow (pairOf candidate.1 candidate.2) p w .expanded
        (some parent'.pairId) rows] := hafter.trans (congrArg Prod.snd hinsert)
    rw [hafter] at hsound ⊢
    exact ⟨h.hang hparent hkeys hangs (h.sound.adds_child hsound) hid.symm rfl,
      (active_append rfl).mpr (Or.inl hparent)⟩

end

theorem Grouped.recordChildren (hkeys : parent.keys = pairOf aKey bKey) (score weight : ℚ)
    (candidates : List (Key × Key)) (hangs : ∀ c ∈ candidates, Hangs refKey aKey bKey c) :
    ∀ (count : Nat) (rows : Rows), Grouped refKey rows → Active rows parent →
      Grouped refKey
        (recordChildren score weight (some parent.pairId) candidates count rows).2.2 := by
  induction candidates with
  | nil => exact fun count rows h _ => h
  | cons candidate rest ih =>
    intro count rows h hparent
    have hchild := h.child hparent hkeys (hangs candidate (List.mem_cons_self ..)) score weight
    unfold Evolver.recordChildren
    generalize record (childCall candidate score weight (some parent.pairId)) rows = result
      at hchild
    obtain ⟨outcome, after⟩ := result
    cases outcome with
    | error e => exact hchild.1
    | ok id => exact ih (fun c hc => hangs c (List.mem_cons_of_mem _ hc)) _ after hchild.1 hchild.2

theorem handled_ne (pairId : Option Nat) (version count : Nat) (e : Raised) :
    handled pairId version count e ≠ .error .disconnected := by
  unfold handled
  split <;> simp

theorem Grouped.expandAnswer (h : Grouped refKey rows) (hparent : Active rows parent)
    (hkeys : parent.keys = pairOf aKey bKey) (nfkc : String → String) (q : Question) (score : ℚ)
    (version : Nat) :
    let result := expandAnswer nfkc refKey q aKey bKey score (some parent.pairId) version rows
    Grouped refKey result.2 ∧ result.1 ≠ .error .disconnected := by
  intro result
  have hknown : refKey ∈ keys rows := mem_keys.mpr (h.contains (List.ne_nil_of_mem hparent.1))
  show Grouped refKey (Evolver.expandAnswer ..).2 ∧ (Evolver.expandAnswer ..).1 ≠ _
  unfold Evolver.expandAnswer
  cases hcandidates : candidatesOf nfkc q aKey bKey (keys rows) with
  | error e => exact ⟨h, handled_ne _ _ _ _⟩
  | ok candidates =>
    have hloop := Grouped.recordChildren hkeys score (expandedWeightCap / candidates.length)
      candidates (hangs_of_candidatesOf hknown hcandidates) 0 rows h hparent
    simp only
    generalize Evolver.recordChildren score (expandedWeightCap / candidates.length)
      (some parent.pairId) candidates 0 rows = recorded at hloop
    obtain ⟨count, error, after⟩ := recorded
    cases error with
    | some e => exact ⟨hloop, handled_ne _ _ _ _⟩
    | none =>
      simp only
      split
      · exact ⟨hloop, by simp⟩
      · split
        · exact ⟨hloop, by simp⟩
        · exact ⟨hloop, handled_ne _ _ _ _⟩

/-! ## Answers -/

/-- The last answer did not fail the check of `refit`, and once there are comparisons they are
connected to the reference key. -/
def Completed (refKey : Key) (s : System) : Prop :=
  s.outcome ≠ some (.error .disconnected) ∧ (s.rows ≠ [] → Connected refKey s.rows)

/-- The rows that the answer on `aKey` and `bKey` leaves, and its own comparison, are between `u`
and `v`. -/
def Left (rows : Rows) (aKey bKey u v : Key) : Prop :=
  (∃ r, Active rows r ∧ ¬ Replaced rows (pairOf aKey bKey) r ∧ r.Joins u v) ∨
    (aKey = u ∧ bKey = v) ∨ (aKey = v ∧ bKey = u)

/-- Each key of a child that the answer takes away, if something left still compares it, is
connected to the reference key by what is left. -/
def keepsGroup (nfkc : String → String) (refKey : Key) (s : System) (q : Question) : Prop :=
  ∀ aKey bKey score weight, checkQuestion nfkc refKey s.rows q = .ok (aKey, bKey, score, weight) →
    aKey ≠ bKey → ∀ c, Active s.rows c → ChildOn s.rows (pairOf aKey bKey) c → ∀ key, c.Has key →
      (∃ v, Left s.rows aKey bKey key v) → Relation.ReflTransGen (Left s.rows aKey bKey) refKey key

theorem Adds.compared_eq {after : Rows} {new : Row}
    (h : Adds rows after (Replaced rows (pairOf aKey bKey)) new)
    (hnew : new.keys = pairOf aKey bKey) : Compared after = Left rows aKey bKey := by
  funext u v
  have hown : new.Joins u v ↔ (aKey = u ∧ bKey = v) ∨ (aKey = v ∧ bKey = u) := by
    obtain ⟨ha, hb⟩ | ⟨ha, hb⟩ := Pair.joins_of_pairOf hnew
    · rw [Pair.Joins, ha, hb]
    · rw [Pair.Joins, ha, hb, and_comm, and_comm (a := bKey = v), or_comm]
  rw [h.sound.compared_iff, Left, ← hown, eq_iff_iff]
  constructor
  · rintro ⟨r, hr, hjoins⟩
    rcases (h.active r).mp hr with ⟨hrows, hstays⟩ | rfl
    · exact Or.inl ⟨r, hrows, hstays, hjoins⟩
    · exact Or.inr hjoins
  · rintro (⟨r, hr, hstays, hjoins⟩ | hjoins)
    · exact ⟨r, (h.active r).mpr (Or.inl ⟨hr, hstays⟩), hjoins⟩
    · exact ⟨new, h.active_new, hjoins⟩

theorem checkQuestion_ok {score : ℚ}
    (h : checkQuestion nfkc refKey rows q = .ok (aKey, bKey, score, weight)) :
    Meets refKey aKey bKey rows ∧ 0 < weight ∧
      validatePairValues (.finite score) (.finite weight) = .ok (score, weight) := by
  unfold checkQuestion at h
  split at h
  · cases h
  · split at h
    · cases h
    · split at h
      · cases h
      · rename_i hvalues
        simp only at h
        split at h
        · cases h
        · rename_i hfirst
          split at h
          · cases h
          · rename_i hlater
            cases h
            refine ⟨⟨fun hnone => ?_, fun hsome => ?_⟩, validatePairValues_pos hvalues,
              validatePairValues_ok hvalues⟩
            · by_contra hnot
              exact hfirst ⟨hnone, by simpa using hnot⟩
            · grind

/-- The check of the first `refit` asks for what `keepsGroup` says. -/
theorem keepsGroup_of_answer {s : System} (h : Grouped refKey s.rows)
    (hdone : (answer nfkc refKey s.rows q).1 ≠ .error .disconnected) :
    keepsGroup nfkc refKey s q := by
  intro aKey bKey score weight hcheck hne c hc hchild key hkey hleft
  obtain ⟨-, hweight, hvalues⟩ := checkQuestion_ok hcheck
  obtain ⟨p, kept, hkept, hrecord⟩ := record_human hne hvalues s.rows
  have hadds := h.sound.adds_human (pairOf aKey bKey) p hweight
  rw [← hkept] at hadds
  rw [← hadds.compared_eq rfl] at hleft ⊢
  have hpassed : refit refKey (kept ++ [newRow (pairOf aKey bKey) p weight .human none kept])
      q.firstFit ≠ .error .disconnected := by
    intro hfail
    refine hdone ?_
    unfold answer
    rw [hcheck]
    simp only [hrecord, hfail]
  rw [Ne, refit_disconnected_iff, not_not] at hpassed
  obtain ⟨v, p', hp', hjoins⟩ := hleft
  exact hpassed p' hp' key hjoins.has.1

theorem Grouped.answer {s : System} (h : Grouped refKey s.rows)
    (hkeeps : keepsGroup nfkc refKey s q) :
    Grouped refKey (answer nfkc refKey s.rows q).2 ∧
      (answer nfkc refKey s.rows q).1 ≠ .error .disconnected := by
  unfold Evolver.answer
  cases hcheck : checkQuestion nfkc refKey s.rows q with
  | error e => exact ⟨h, by simp⟩
  | ok checked =>
    obtain ⟨aKey, bKey, score, weight⟩ := checked
    obtain ⟨hmeets, hweight, hvalues⟩ := checkQuestion_ok hcheck
    simp only
    by_cases hne : aKey = bKey
    · -- `record` refuses a key compared with itself
      have hrefused : record (humanCall aKey bKey score weight) s.rows =
          (.error (.value "pair keys must differ"), s.rows) := by
        simp [record, checkArguments, humanCall, Source.ofString?, hne]
      rw [hrefused]
      exact ⟨h, by simp⟩
    · have hkept := hkeeps aKey bKey score weight hcheck hne
      obtain ⟨p, kept, hkeptEq, hrecord⟩ := record_human hne hvalues s.rows
      rw [hrecord]
      have hadds := h.sound.adds_human (pairOf aKey bKey) p hweight
      rw [← hkeptEq] at hadds
      rw [← hadds.compared_eq rfl] at hkept
      have hafter := h.human hmeets hadds rfl rfl fun c hc hchild key hkey hmem =>
        hkept c hc hchild key hkey (hadds.sound.mem_keys_iff.mp hmem)
      simp only
      cases hrefit : refit refKey (kept ++ [newRow (pairOf aKey bKey) p weight .human none kept])
        q.firstFit with
      | error e =>
        refine ⟨hafter, fun hfail => ?_⟩
        cases hfail
        refine refit_disconnected_iff.mp hrefit fun p' hp' key hkey => ?_
        obtain ⟨r, hr, rfl, -⟩ := (hafter.sound.mem_effective p').mp hp'
        exact hafter.joined r hr key hkey
      | ok version => exact hafter.expandAnswer hadds.active_new rfl nfkc q score version

/-- **Answers and the reference group.** In a sequence of answers from an empty store, no answer
fails the check of `refit` and all comparisons stay connected to the reference key if and only if
at every answer the keys of the children that it takes away, where something left still compares
them, hang together with the reference key without those children. -/
theorem answers_connected_iff (nfkc : String → String) (refKey : Key) (questions : List Question) :
    (∀ pre s, pre <+: questions → run (step nfkc refKey) System.init pre = some s →
        Completed refKey s) ↔
      Along (step nfkc refKey) (keepsGroup nfkc refKey) System.init questions := by
  have hinit : Grouped refKey System.init.rows := grouped_nil
  have hstep : ∀ s q t, Grouped refKey s.rows → keepsGroup nfkc refKey s q →
      step nfkc refKey s q = some t →
        Grouped refKey t.rows ∧ t.outcome ≠ some (.error .disconnected) := by
    intro s q t hs hkeeps ht
    cases ht
    obtain ⟨hgrouped, houtcome⟩ := hs.answer hkeeps
    exact ⟨hgrouped, fun h => houtcome (Option.some.inj h)⟩
  constructor
  · intro hall
    obtain ⟨t, ht⟩ := run_total (fun s q => ⟨_, rfl⟩) System.init questions
    refine along_of_reached (P := Completed refKey) (Q := fun s => Grouped refKey s.rows) ?_
      (fun s q u hs hok hu => (hstep s q u hs hok hu).1) questions _ t hinit ht hall
    intro s q u hs hP hu
    cases hu
    exact keepsGroup_of_answer hs fun h => hP.1 (congrArg some h)
  · intro hal pre s hpre hrun
    have hreached := run_invariant
      (P := fun s => Grouped refKey s.rows ∧ s.outcome ≠ some (.error .disconnected))
      (fun s q t hs hok ht => hstep s q t hs.1 hok ht) pre _ s ⟨hinit, by simp [System.init]⟩
      (along_initial_segment hpre hal) hrun
    exact ⟨hreached.2, fun hne => hreached.1.connected hne⟩

/-- The reference key compared with `a`, for which the expander finds `b`; then `b` compared with
`c`; then the first comparison again. -/
theorem corrected_answer_disconnects :
    let question := fun (aKey bKey : String) (aliases : List KeyArg) =>
      (⟨.text aKey, .text bKey, .finite (1 / 2), .ok 1, .aliases [], .aliases aliases, .ok 2⟩ :
        Question)
    let first := question "r" "a" [.text "b"]
    let second := question "b" "c" []
    ((run (step id "r") System.init [first, second]).map fun s => s.outcome)
        = some (some (.ok ⟨some 3, 1, 0, none⟩)) ∧
      ((run (step id "r") System.init [first, second, first]).map fun s => s.outcome)
        = some (some (.error .disconnected)) := by
  decide +kernel

end CodexRouter.Evolver
