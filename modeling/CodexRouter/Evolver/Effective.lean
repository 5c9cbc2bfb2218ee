import CodexRouter.Evolver.Invariant

set_option autoImplicit false

/-! # The effective comparisons

The loop of `effective` keeps, for each pair of keys, the rows of the best source seen so far
(`BestOf`). Two human or two seed rows on one pair would hide each other; the table never has them.
-/

namespace CodexRouter.Evolver

open Lib

/-! ## The loop -/

/-- No pair of keys has two human or two seed comparisons. -/
def SingleRoots (ps : List Pair) : Prop :=
  ∀ p ∈ ps, ∀ q ∈ ps, p.keys = q.keys → p.source = q.source → p.source ≠ .expanded → p = q

/-- `p` is one of the best comparisons of its pair of keys in `ps`. -/
def BestIn (ps : List Pair) (p : Pair) : Prop :=
  p ∈ ps ∧ ∀ q ∈ ps, q.keys = p.keys → p.source.rank ≤ q.source.rank

/-- `best` holds the best comparisons of each pair of keys. -/
structure BestOf (ps : List Pair) (best : Table (Key × Key) (List Pair)) : Prop where
  unseen : ∀ k, best.get? k = none → ∀ p ∈ ps, p.keys ≠ k
  seen : ∀ k l, best.get? k = some l →
    l ≠ [] ∧ l.Nodup ∧ ∀ p, p ∈ l ↔ p.keys = k ∧ BestIn ps p

theorem rank_injective {s s' : Source} (h : s.rank = s'.rank) : s = s' := by
  cases s <;> cases s' <;> first | rfl | cases h

theorem bestIn_append_of_ne {ps : List Pair} {x p : Pair} (hkeys : x.keys ≠ p.keys) :
    BestIn (ps ++ [x]) p ↔ BestIn ps p := by
  unfold BestIn
  constructor
  · grind
  · grind

/-- The best comparisons on the keys of a new one, by its rank against the best so far. -/
theorem bestIn_append {ps : List Pair} {x first p : Pair} (hfirst : BestIn ps first)
    (hx : first.keys = x.keys) (hp : p.keys = x.keys) :
    BestIn (ps ++ [x]) p ↔
      (p = x ∧ x.source.rank ≤ first.source.rank) ∨
        BestIn ps p ∧ first.source.rank ≤ x.source.rank := by
  unfold BestIn
  constructor
  · rintro ⟨hmem, hbest⟩
    have hpfirst := hbest first (List.mem_append_left _ hfirst.1) (hx.trans hp.symm)
    rcases List.mem_append.mp hmem with hmem | hmem
    · refine Or.inr ⟨⟨hmem, fun q hq => hbest q (List.mem_append_left _ hq)⟩, ?_⟩
      have hpx := hbest x (by simp) hp.symm
      exact (hfirst.2 p hmem (hp.trans hx.symm)).trans hpx
    · rw [List.mem_singleton.mp hmem] at hpfirst
      exact Or.inl ⟨List.mem_singleton.mp hmem, hpfirst⟩
  · grind [BestIn]

section AddBest

variable {ps : List Pair} {x first : Pair} {best : Table (Key × Key) (List Pair)} {l : List Pair}

/-- The first comparison on a pair of keys is the best. -/
theorem bestIn_append_unseen (hunseen : ∀ p ∈ ps, p.keys ≠ x.keys) (p : Pair) :
    p = x ↔ p.keys = x.keys ∧ BestIn (ps ++ [x]) p := by
  constructor
  · rintro rfl
    refine ⟨rfl, by simp, fun q hq hqp => ?_⟩
    rcases List.mem_append.mp hq with hq | hq
    · exact absurd hqp (hunseen q hq)
    · rw [List.mem_singleton.mp hq]
  · grind [BestIn]

/-- A new list for the keys of `x`. -/
theorem BestOf.insert (h : BestOf ps best) (hne : l ≠ []) (hnodup : l.Nodup)
    (hmem : ∀ p, p ∈ l ↔ p.keys = x.keys ∧ BestIn (ps ++ [x]) p) :
    BestOf (ps ++ [x]) (best.insert x.keys l) := by
  constructor
  · grind [cases BestOf, Table.get?_insert]
  · intro k l' hk
    rw [Table.get?_insert] at hk
    split at hk
    · grind
    · rename_i hkx
      obtain ⟨hne', hnodup', hmem'⟩ := h.seen k l' hk
      refine ⟨hne', hnodup', fun p => (hmem' p).trans (and_congr_right fun hpk => ?_)⟩
      exact (bestIn_append_of_ne fun hxp => hkx (hxp.trans hpk).symm).symm

/-- A comparison that ranks lower than those of its keys changes nothing. -/
theorem BestOf.keep (h : BestOf ps best) (hk : best.get? x.keys = some l)
    (hfirst : BestIn ps first) (hfk : first.keys = x.keys)
    (hgt : first.source.rank < x.source.rank) : BestOf (ps ++ [x]) best := by
  constructor
  · intro k hk' p hp
    rcases List.mem_append.mp hp with hp | hp
    · exact h.unseen k hk' p hp
    · grind
  · intro k l' hk'
    obtain ⟨hne, hnodup, hmem⟩ := h.seen k l' hk'
    refine ⟨hne, hnodup, fun p => (hmem p).trans (and_congr_right fun hpk => ?_)⟩
    by_cases hkx : k = x.keys
    · rw [bestIn_append hfirst hfk (hpk.trans hkx)]
      constructor
      · exact fun hp => Or.inr ⟨hp, hgt.le⟩
      · grind
    · exact (bestIn_append_of_ne fun hxp => hkx (hxp.trans hpk).symm).symm

/-- A root that ranks no higher than the best ranks lower: one of the same rank would be the
same. -/
theorem rank_lt_of_single (hnew : x ∉ ps) (hsingle : SingleRoots (ps ++ [x])) (hfirst : first ∈ ps)
    (hfk : first.keys = x.keys) (hle : first.source.rank ≤ x.source.rank)
    (hroot : ¬ (x.source.rank = first.source.rank ∧ x.source = .expanded)) :
    first.source.rank < x.source.rank := by
  refine lt_of_le_of_ne hle fun hrank => hroot ⟨hrank.symm, ?_⟩
  by_contra hsource
  have hsame := hsingle x (by simp) first (List.mem_append_left _ hfirst) hfk.symm
    (rank_injective hrank.symm) hsource
  exact hnew (hsame ▸ hfirst)

theorem bestOf_addBest (h : BestOf ps best) (hnew : x ∉ ps) (hsingle : SingleRoots (ps ++ [x])) :
    BestOf (ps ++ [x]) (addBest best x) := by
  unfold addBest
  cases hk : best.get? x.keys with
  | none =>
    refine h.insert (by simp) (List.nodup_singleton x) fun p => ?_
    rw [List.mem_singleton]
    exact bestIn_append_unseen (h.unseen x.keys hk) p
  | some l =>
    obtain ⟨hne, hnodup, hmem⟩ := h.seen x.keys l hk
    cases l with
    | nil => exact absurd rfl hne
    | cons first others =>
      obtain ⟨hfk, hfirst⟩ := (hmem first).mp (List.mem_cons_self ..)
      have hbest := fun p => bestIn_append (p := p) hfirst hfk
      simp only
      split
      · rename_i hlt
        refine h.insert (by simp) (List.nodup_singleton x) fun p => ?_
        rw [List.mem_singleton]
        constructor
        · rintro rfl
          exact ⟨rfl, (hbest p rfl).mpr (Or.inl ⟨rfl, hlt.le⟩)⟩
        · grind
      · rename_i hnlt
        split
        · rename_i heq
          refine h.insert (by simp) ?_ fun p => ?_
          · rw [List.nodup_append]
            refine ⟨hnodup, List.nodup_singleton x, ?_⟩
            rintro a ha b hb rfl
            rw [List.mem_singleton] at hb
            exact hnew (hb ▸ ((hmem a).mp ha).2.1)
          · grind
        · rename_i hroot
          exact h.keep hk hfirst hfk
            (rank_lt_of_single hnew hsingle hfirst.1 hfk (not_lt.mp hnlt) hroot)

end AddBest

theorem bestOf_foldl (ps : List Pair) (hnodup : ps.Nodup) (hsingle : SingleRoots ps) :
    BestOf ps (ps.foldl addBest Table.empty) := by
  induction ps using List.reverseRecOn with
  | nil =>
    constructor
    · nofun
    · nofun
  | append_singleton ps x ih =>
    rw [List.nodup_append] at hnodup
    have hnew : x ∉ ps := fun hx => hnodup.2.2 x hx x (by simp) rfl
    have hps : SingleRoots ps := fun p hp q hq =>
      hsingle p (List.mem_append_left _ hp) q (List.mem_append_left _ hq)
    rw [List.foldl_append]
    exact bestOf_addBest (ih hnodup.1 hps) hnew hsingle

/-! ## The rows that `effective` returns -/

variable {rows : Rows}

/-- The active rows as the loop reads them. -/
def activePairs (rows : Rows) : List Pair := (rows.filter fun r => r.active).map Row.toPair

theorem mem_activePairs {p : Pair} : p ∈ activePairs rows ↔ ∃ r, Active rows r ∧ r.toPair = p := by
  unfold activePairs Active
  rw [List.mem_map]
  constructor
  · rintro ⟨r, hr, rfl⟩
    exact ⟨r, List.mem_filter.mp hr, rfl⟩
  · rintro ⟨r, hr, rfl⟩
    exact ⟨r, List.mem_filter.mpr hr, rfl⟩

theorem Sound.bestOf (h : Sound rows) :
    BestOf (activePairs rows) ((activePairs rows).foldl addBest Table.empty) := by
  refine bestOf_foldl _ ?_ ?_
  · refine List.Nodup.of_map Pair.pairId ?_
    unfold activePairs
    rw [List.map_map]
    exact h.distinct.sublist (List.filter_sublist.map _)
  · intro p hp q hq hkeys hsource hroot
    obtain ⟨r, hr, rfl⟩ := mem_activePairs.mp hp
    obtain ⟨r', hr', rfl⟩ := mem_activePairs.mp hq
    rw [h.single r r' hr hr' hkeys hsource hroot]

/-- `effective` returns the active rows of the best source of each pair, each once. -/
theorem Sound.mem_effective (h : Sound rows) (p : Pair) :
    p ∈ effective rows ↔ ∃ r, Active rows r ∧ r.toPair = p ∧ Top rows r := by
  have hbest := h.bestOf
  have hin : p ∈ effective rows ↔ BestIn (activePairs rows) p := by
    unfold effective Table.values
    rw [List.mem_flatten]
    constructor
    · rintro ⟨l, hl, hp⟩
      obtain ⟨⟨k, l⟩, he, rfl⟩ := List.mem_map.mp hl
      exact (((hbest.seen k l (Table.get?_eq_some_iff.mpr he)).2.2 p).mp hp).2
    · intro hp
      cases hk : ((activePairs rows).foldl addBest Table.empty).get? p.keys with
      | none => exact absurd rfl (hbest.unseen p.keys hk p hp.1)
      | some l =>
        exact ⟨l, List.mem_map_of_mem (Table.get?_eq_some_iff.mp hk),
          ((hbest.seen p.keys l hk).2.2 p).mpr ⟨rfl, hp⟩⟩
  rw [hin]
  unfold BestIn Top
  constructor
  · rintro ⟨hp, htop⟩
    obtain ⟨r, hr, rfl⟩ := mem_activePairs.mp hp
    exact ⟨r, hr, rfl, fun q hq => htop q.toPair (mem_activePairs.mpr ⟨q, hq, rfl⟩)⟩
  · rintro ⟨r, hr, rfl, htop⟩
    refine ⟨mem_activePairs.mpr ⟨r, hr, rfl⟩, fun q hq hkeys => ?_⟩
    obtain ⟨r', hr', rfl⟩ := mem_activePairs.mp hq
    exact htop r' hr' hkeys

theorem Sound.nodup_effective (h : Sound rows) : (effective rows).Nodup := by
  have hbest := h.bestOf
  unfold effective Table.values
  rw [List.nodup_flatten]
  have hentry : ∀ e ∈ ((activePairs rows).foldl addBest Table.empty).entries,
      e.2.Nodup ∧ ∀ p ∈ e.2, p.keys = e.1 := by
    rintro ⟨k, l⟩ he
    obtain ⟨-, hnodup, hmem⟩ := hbest.seen k l (Table.get?_eq_some_iff.mpr he)
    exact ⟨hnodup, fun p hp => ((hmem p).mp hp).1⟩
  constructor
  · intro l hl
    obtain ⟨e, he, rfl⟩ := List.mem_map.mp hl
    exact (hentry e he).1
  · rw [List.pairwise_map]
    refine (List.pairwise_map.mp (Table.nodup _)).imp_of_mem ?_
    intro e e' he he' hne p hp hp'
    exact hne (((hentry e he).2 p hp).symm.trans ((hentry e' he').2 p hp'))

/-- **The pair store**, after any calls of `record` with any arguments: one human and one seed
comparison at most for each pair, children only of active human or seed rows that are the best of
their own pair and under the cap of their parent, `effective` as it should be, and a call that
raises or records nothing leaves the table as it was. -/
theorem pairStore_sound (calls : List RecordCall) :
    let rows := recorded calls
    (∀ r r', Active rows r → Active rows r' → r.keys = r'.keys → r.source = r'.source →
        r.source ≠ .expanded → r = r') ∧
      (∀ r, Active rows r → r.source = .expanded →
        ∃ p, Active rows p ∧ r.parentPairId = some p.pairId ∧ p.source ≠ .expanded ∧
          Top rows p) ∧
      (∀ id, ((childrenOf rows (some id)).map fun r => r.weight).sum ≤ expandedWeightCap) ∧
      ((effective rows).Nodup ∧
        ∀ p, p ∈ effective rows ↔ ∃ r, Active rows r ∧ r.toPair = p ∧ Top rows r) ∧
      ∀ call, (∀ id, (record call rows).1 ≠ .ok (some id)) → (record call rows).2 = rows := by
  have h := sound_recorded calls
  refine ⟨h.single, h.parented, h.capped, ⟨h.nodup_effective, h.mem_effective⟩,
    fun call hnone => ?_⟩
  have hcases := record_cases call (recorded calls)
  generalize record call (recorded calls) = result at hcases hnone
  cases hcases with
  | raised e => rfl
  | refused => rfl
  | root => exact absurd rfl (hnone _)
  | child => exact absurd rfl (hnone _)

end CodexRouter.Evolver
