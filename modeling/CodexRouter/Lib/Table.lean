import Mathlib.Tactic

set_option autoImplicit false

/-! # Finite tables in insertion order

`Table K V` is a finite map whose entries stand in the order in which their keys were first
inserted: inserting a key that is present replaces its value in place, a new key goes to the
end. Every key has one entry, and the table carries the proof of it. Iteration over the
entries is iteration in insertion order; a client whose own map has no order reads nothing
from it.
-/

namespace CodexRouter.Lib

/-- A finite map, its entries in insertion order, one entry for each key. -/
structure Table (K V : Type) where
  entries : List (K × V)
  nodup : (entries.map Prod.fst).Nodup

namespace Table

variable {K V : Type}

/-! ## Entries -/

variable {t : Table K V} {k : K} {v : V}

@[ext] theorem ext {s t : Table K V} (h : s.entries = t.entries) : s = t := by
  cases s; cases t; cases h; rfl

instance [DecidableEq K] [DecidableEq V] : DecidableEq (Table K V) := fun s t =>
  decidable_of_iff (s.entries = t.entries) ⟨ext, fun h => by rw [h]⟩

def empty : Table K V := ⟨[], List.nodup_nil⟩

def size (t : Table K V) : Nat := t.entries.length

def keys (t : Table K V) : List K := t.entries.map Prod.fst

def values (t : Table K V) : List V := t.entries.map Prod.snd

@[simp] theorem entries_empty : (empty : Table K V).entries = [] := rfl

theorem nodup_entries (t : Table K V) : t.entries.Nodup := t.nodup.of_map

/-- Two entries with the same key are the same entry. -/
theorem entry_unique {w : V} (hv : (k, v) ∈ t.entries) (hw : (k, w) ∈ t.entries) : v = w := by
  have := List.inj_on_of_nodup_map t.nodup hv hw rfl
  exact (Prod.mk.injEq _ _ _ _ ▸ this).2

/-- Keep the entries that satisfy `p`. -/
def filter (p : K × V → Bool) (t : Table K V) : Table K V :=
  ⟨t.entries.filter p, t.nodup.sublist (List.filter_sublist.map _)⟩

@[simp] theorem entries_filter (p : K × V → Bool) (t : Table K V) :
    (t.filter p).entries = t.entries.filter p := rfl

variable [DecidableEq K]

/-! ## Lookup -/

def get? (t : Table K V) (k : K) : Option V :=
  (t.entries.find? fun e => e.1 = k).map Prod.snd

def contains (t : Table K V) (k : K) : Bool := (t.get? k).isSome

theorem get?_eq_some_iff : t.get? k = some v ↔ (k, v) ∈ t.entries := by
  simp only [get?, Option.map_eq_some_iff]
  constructor
  · grind
  · intro hm
    obtain ⟨e, he⟩ := Option.isSome_iff_exists.mp
      (List.find?_isSome.mpr ⟨(k, v), hm, by simp⟩ :
        (t.entries.find? fun e => decide (e.1 = k)).isSome)
    have hk : e.1 = k := by simpa using List.find?_some he
    refine ⟨e, he, entry_unique (t := t) (k := k) ?_ hm⟩
    exact hk ▸ List.mem_of_find?_eq_some he

theorem get?_eq_none_iff : t.get? k = none ↔ ∀ v, (k, v) ∉ t.entries := by
  rw [Option.eq_none_iff_forall_not_mem]
  exact forall_congr' fun v => not_congr get?_eq_some_iff

theorem contains_iff : t.contains k = true ↔ ∃ v, (k, v) ∈ t.entries := by
  simp only [contains, Option.isSome_iff_exists, get?_eq_some_iff]

theorem contains_iff_mem_keys : t.contains k = true ↔ k ∈ t.keys := by
  simp [contains_iff, keys]

theorem get?_filter (t : Table K V) (p : K × V → Bool) (k : K) :
    (t.filter p).get? k = (t.get? k).filter fun v => p (k, v) := by
  ext v
  rw [get?_eq_some_iff, entries_filter, List.mem_filter, Option.filter_eq_some_iff,
    get?_eq_some_iff]

/-! ## Insertion and removal -/

/-- The entries after `insert`: in place when the key is there, at the end otherwise. -/
def insertEntry (k : K) (v : V) : List (K × V) → List (K × V)
  | [] => [(k, v)]
  | e :: es => if e.1 = k then (k, v) :: es else e :: insertEntry k v es

theorem map_fst_insertEntry (k : K) (v : V) (es : List (K × V)) :
    (insertEntry k v es).map Prod.fst
      = if k ∈ es.map Prod.fst then es.map Prod.fst else es.map Prod.fst ++ [k] := by
  induction es with
  | nil => simp [insertEntry]
  | cons e es ih =>
    by_cases he : e.1 = k
    · simp [insertEntry, he]
    · have hk : k ∈ e.1 :: es.map Prod.fst ↔ k ∈ es.map Prod.fst := by simp [Ne.symm he]
      simp only [insertEntry, if_neg he, List.map_cons, ih]
      by_cases hm : k ∈ es.map Prod.fst
      · rw [if_pos hm, if_pos (hk.mpr hm)]
      · rw [if_neg hm, if_neg (fun h => hm (hk.mp h)), List.cons_append]

/-- Set the value of `k`. -/
def insert (t : Table K V) (k : K) (v : V) : Table K V :=
  ⟨insertEntry k v t.entries, by
    rw [map_fst_insertEntry]
    by_cases hk : k ∈ t.entries.map Prod.fst
    · rw [if_pos hk]; exact t.nodup
    · rw [if_neg hk]
      exact List.nodup_append.mpr ⟨t.nodup, List.nodup_singleton k, fun a ha b hb => by
        rw [List.mem_singleton] at hb
        exact fun hab => hk (hb ▸ hab ▸ ha)⟩⟩

/-- Remove the entry of `k`, if there is one. -/
def erase (t : Table K V) (k : K) : Table K V := t.filter fun e => e.1 ≠ k

theorem entries_insert (t : Table K V) (k : K) (v : V) :
    (t.insert k v).entries = insertEntry k v t.entries := rfl

theorem mem_insertEntry {es : List (K × V)} (hn : (es.map Prod.fst).Nodup) (e : K × V) :
    e ∈ insertEntry k v es ↔ e = (k, v) ∨ e.1 ≠ k ∧ e ∈ es := by
  induction es with
  | nil => simp [insertEntry]
  | cons a es ih =>
    rw [List.map_cons, List.nodup_cons] at hn
    by_cases ha : a.1 = k
    · -- the replaced entry was the only one with key `k`
      have hout : ∀ b ∈ es, b.1 ≠ k := fun b hb hbk =>
        hn.1 (ha ▸ hbk ▸ List.mem_map_of_mem hb)
      simp only [insertEntry, if_pos ha, List.mem_cons]
      constructor
      · grind
      · grind
    · simp only [insertEntry, if_neg ha, List.mem_cons, ih hn.2]
      constructor
      · grind
      · grind

theorem mem_insert {e : K × V} :
    e ∈ (t.insert k v).entries ↔ e = (k, v) ∨ e.1 ≠ k ∧ e ∈ t.entries :=
  mem_insertEntry t.nodup e

theorem mem_erase {e : K × V} : e ∈ (t.erase k).entries ↔ e.1 ≠ k ∧ e ∈ t.entries := by
  simp [erase, and_comm]

theorem get?_insert (t : Table K V) (k j : K) (v : V) :
    (t.insert k v).get? j = if j = k then some v else t.get? j := by
  by_cases hj : j = k
  · rw [if_pos hj, get?_eq_some_iff, mem_insert]
    exact Or.inl (by rw [hj])
  · rw [if_neg hj]
    ext w
    rw [get?_eq_some_iff, mem_insert, get?_eq_some_iff]
    constructor
    · grind
    · exact fun h => Or.inr ⟨hj, h⟩

theorem get?_erase (t : Table K V) (k j : K) :
    (t.erase k).get? j = if j = k then none else t.get? j := by
  by_cases hj : j = k
  · rw [if_pos hj, Option.eq_none_iff_forall_ne_some]
    intro w hw
    rw [get?_eq_some_iff, mem_erase] at hw
    exact hw.1 hj
  · rw [if_neg hj]
    ext w
    rw [get?_eq_some_iff, mem_erase, get?_eq_some_iff]
    exact ⟨fun h => h.2, fun h => ⟨hj, h⟩⟩

theorem contains_insert {j : K} : (t.insert k v).contains j = (decide (j = k) || t.contains j) := by
  rw [contains, get?_insert]
  by_cases hj : j = k
  · simp [hj]
  · simp [hj, contains]

theorem contains_erase {j : K} : (t.erase k).contains j = (decide (j ≠ k) && t.contains j) := by
  rw [contains, get?_erase]
  by_cases hj : j = k
  · simp [hj]
  · simp [hj, contains]

/-! ## Size -/

theorem length_insertEntry (k : K) (v : V) (es : List (K × V)) :
    (insertEntry k v es).length = if k ∈ es.map Prod.fst then es.length else es.length + 1 := by
  have h := congrArg List.length (map_fst_insertEntry k v es)
  by_cases hk : k ∈ es.map Prod.fst
  · rw [if_pos hk] at h ⊢; simpa using h
  · rw [if_neg hk] at h ⊢; simpa using h

theorem size_insert_of_contains (h : t.contains k = true) : (t.insert k v).size = t.size := by
  have hk : k ∈ t.entries.map Prod.fst := contains_iff_mem_keys.mp h
  rw [size, entries_insert, length_insertEntry, if_pos hk, size]

theorem size_insert_of_not_contains (h : t.contains k = false) :
    (t.insert k v).size = t.size + 1 := by
  have hk : k ∉ t.entries.map Prod.fst := fun hm => by
    rw [contains_iff_mem_keys.mpr hm] at h; cases h
  rw [size, entries_insert, length_insertEntry, if_neg hk, size]

theorem size_insert_le (t : Table K V) (k : K) (v : V) : (t.insert k v).size ≤ t.size + 1 := by
  cases h : t.contains k with
  | true => rw [size_insert_of_contains h]; omega
  | false => rw [size_insert_of_not_contains h]

theorem size_le_size_insert (t : Table K V) (k : K) (v : V) : t.size ≤ (t.insert k v).size := by
  cases h : t.contains k with
  | true => rw [size_insert_of_contains h]
  | false => rw [size_insert_of_not_contains h]; omega

/-! ## Entries up to their order -/

/-- The entries with `v` as the value of `k`, in any order. -/
theorem perm_cons_erase {s : Table K V}
    (h : ∀ e, e ∈ s.entries ↔ e = (k, v) ∨ e.1 ≠ k ∧ e ∈ t.entries) :
    s.entries.Perm ((k, v) :: (t.erase k).entries) := by
  have hout : (k, v) ∉ (t.erase k).entries := fun h => (mem_erase.mp h).1 rfl
  rw [List.perm_ext_iff_of_nodup (nodup_entries _)
    (List.nodup_cons.mpr ⟨hout, nodup_entries _⟩)]
  intro e
  rw [h, List.mem_cons, mem_erase]

/-- Insertion puts one entry in the place of those with its key. -/
theorem perm_insert (t : Table K V) (k : K) (v : V) :
    (t.insert k v).entries.Perm ((k, v) :: (t.erase k).entries) :=
  perm_cons_erase fun _ => mem_insert

theorem perm_of_get? (h : t.get? k = some v) : t.entries.Perm ((k, v) :: (t.erase k).entries) := by
  rw [get?_eq_some_iff] at h
  refine perm_cons_erase fun ⟨j, w⟩ => ?_
  constructor
  · grind [entry_unique]
  · grind

theorem erase_of_not_contains (h : t.contains k = false) : t.erase k = t := by
  apply ext
  refine List.filter_eq_self.mpr fun e he => decide_eq_true fun hek => ?_
  rw [contains_iff.mpr ⟨e.2, hek ▸ he⟩] at h
  cases h

/-- A new key adds its own entry to any count of entries, and nothing else. -/
theorem countP_insert_of_not_contains (h : t.contains k = false) (p : K × V → Bool) :
    (t.insert k v).entries.countP p
      = t.entries.countP p + if p (k, v) then 1 else 0 := by
  rw [(perm_insert t k v).countP_eq, List.countP_cons, erase_of_not_contains h]

/-- Replacing the value of a key moves any count of entries by that one entry. -/
theorem countP_insert_of_get? {old : V} (h : t.get? k = some old) (p : K × V → Bool) :
    (t.insert k v).entries.countP p + (if p (k, old) then 1 else 0)
      = t.entries.countP p + if p (k, v) then 1 else 0 := by
  rw [(perm_insert t k v).countP_eq, (perm_of_get? h).countP_eq, List.countP_cons,
    List.countP_cons]
  omega

/-- Removing a key takes its own entry out of any count of entries. -/
theorem countP_erase_of_get? (h : t.get? k = some v) (p : K × V → Bool) :
    (t.erase k).entries.countP p + (if p (k, v) then 1 else 0) = t.entries.countP p := by
  rw [(perm_of_get? h).countP_eq, List.countP_cons]

end Table

end CodexRouter.Lib
