import CodexRouter.Lib.Table

set_option autoImplicit false

/-! # Secondary indexes

An index lists, for each key, the members that belong to it. `Exact ix R` says that it lists each
member `v` with `R k v` under the key `k`, once and no others; the rules say what pushing a member,
retaining some and dropping a key make of `R`.
-/

namespace CodexRouter.Lib.Index

variable {K V : Type} [DecidableEq K] {ix : Table K (List V)} {R : K → V → Prop}

/-- The members under a key: none when the key has no list. -/
def members (ix : Table K (List V)) (k : K) : List V := (ix.get? k).getD []

/-- `entry(k).or_default().push(v)`. -/
def push (ix : Table K (List V)) (k : K) (v : V) : Table K (List V) :=
  ix.insert k (members ix k ++ [v])

/-- `get_mut(k)`, if there is a list, and `retain(p)` on it. -/
def retain (ix : Table K (List V)) (k : K) (p : V → Bool) : Table K (List V) :=
  match ix.get? k with
  | some l => ix.insert k (l.filter p)
  | none => ix

theorem members_push (ix : Table K (List V)) (k j : K) (v : V) :
    members (push ix k v) j = if j = k then members ix k ++ [v] else members ix j := by
  unfold members push
  rw [Table.get?_insert]
  by_cases hj : j = k
  · rw [if_pos hj, if_pos hj]
    rfl
  · rw [if_neg hj, if_neg hj]

theorem members_retain (ix : Table K (List V)) (k j : K) (p : V → Bool) :
    members (retain ix k p) j = if j = k then (members ix k).filter p else members ix j := by
  unfold members retain
  cases hget : ix.get? k with
  | none => grind
  | some l => grind [Table.get?_insert]

theorem members_erase (ix : Table K (List V)) (k j : K) :
    members (ix.erase k) j = if j = k then [] else members ix j := by
  unfold members
  rw [Table.get?_erase]
  by_cases hj : j = k
  · rw [if_pos hj, if_pos hj]
    rfl
  · rw [if_neg hj, if_neg hj]

/-- The index lists the members that `R` relates to each key, each once. -/
structure Exact (ix : Table K (List V)) (R : K → V → Prop) : Prop where
  nodup : ∀ k, (members ix k).Nodup
  mem : ∀ k v, v ∈ members ix k ↔ R k v

theorem Exact.congr {R' : K → V → Prop} (h : Exact ix R) (hR : ∀ k v, R k v ↔ R' k v) :
    Exact ix R' :=
  ⟨h.nodup, fun k v => (h.mem k v).trans (hR k v)⟩

theorem exact_empty (hR : ∀ k v, ¬ R k v) : Exact Table.empty R :=
  ⟨fun _ => List.nodup_nil,
    fun k v => ⟨fun h => (List.not_mem_nil h).elim, fun h => absurd h (hR k v)⟩⟩

theorem Exact.push {k : K} {v : V} (h : Exact ix R) (hnew : ¬ R k v) :
    Exact (push ix k v) fun j w => R j w ∨ j = k ∧ w = v := by
  constructor
  · intro j
    rw [members_push]
    by_cases hj : j = k
    · rw [if_pos hj, List.nodup_append]
      refine ⟨h.nodup k, List.nodup_singleton v, fun a ha b hb hab => hnew ?_⟩
      rw [List.mem_singleton] at hb
      exact (h.mem k v).mp (hb ▸ hab ▸ ha)
    · rw [if_neg hj]
      exact h.nodup j
  · intro j w
    rw [members_push]
    by_cases hj : j = k
    · rw [if_pos hj, List.mem_append, List.mem_singleton, h.mem, hj]
      simp
    · rw [if_neg hj, h.mem]
      simp [hj]

theorem Exact.retain {k : K} {p : V → Bool} (h : Exact ix R) :
    Exact (retain ix k p) fun j w => R j w ∧ (j = k → p w = true) := by
  constructor
  · intro j
    rw [members_retain]
    split
    · exact (h.nodup k).filter p
    · exact h.nodup j
  · intro j w
    rw [members_retain]
    by_cases hj : j = k
    · rw [if_pos hj, List.mem_filter, h.mem, hj]
      simp
    · rw [if_neg hj, h.mem]
      simp [hj]

theorem Exact.erase {k : K} (h : Exact ix R) :
    Exact (ix.erase k) fun j w => R j w ∧ j ≠ k := by
  constructor
  · intro j
    rw [members_erase]
    split
    · exact List.nodup_nil
    · exact h.nodup j
  · intro j w
    rw [members_erase]
    by_cases hj : j = k
    · simp [hj]
    · simp [hj, h.mem]

end CodexRouter.Lib.Index
