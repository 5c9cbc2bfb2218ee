import CodexRouter.Lib.Table

set_option autoImplicit false

/-! # Finite maps in the order of their keys

`OrderedMap K V` is a table whose entries stand in strictly increasing order of their keys, and
which carries the proof of it: insertion puts an entry in its place in that order. Equal maps are
equal as lists of entries, whatever order they were built in.
-/

namespace CodexRouter.Lib

/-- A finite map with its entries in strictly increasing order of their keys. -/
structure OrderedMap (K V : Type) [LinearOrder K] extends Table K V where
  sorted : (entries.map Prod.fst).Pairwise (· < ·)

namespace OrderedMap

variable {K V : Type} [LinearOrder K]

/-- A list of entries in the order of their keys. -/
def ofSorted (entries : List (K × V)) (h : (entries.map Prod.fst).Pairwise (· < ·)) :
    OrderedMap K V :=
  ⟨⟨entries, h.imp fun h => h.ne⟩, h⟩

theorem ext {s t : OrderedMap K V} (h : s.entries = t.entries) : s = t := by
  cases s; cases t; cases Table.ext h; rfl

instance [DecidableEq V] : DecidableEq (OrderedMap K V) := fun s t =>
  decidable_of_iff (s.entries = t.entries) ⟨ext, fun h => by rw [h]⟩

def empty : OrderedMap K V := .ofSorted [] List.Pairwise.nil

/-! ## Insertion -/

/-- The entries after `insert`. -/
def insertEntry (k : K) (v : V) : List (K × V) → List (K × V)
  | [] => [(k, v)]
  | e :: es =>
    if k < e.1 then (k, v) :: e :: es
    else if e.1 = k then (k, v) :: es
    else e :: insertEntry k v es

variable {k : K} {v : V} {m : OrderedMap K V} {e : K × V}

theorem mem_insertEntry {es : List (K × V)} (hs : (es.map Prod.fst).Pairwise (· < ·)) (e : K × V) :
    e ∈ insertEntry k v es ↔ e = (k, v) ∨ e.1 ≠ k ∧ e ∈ es := by
  induction es with
  | nil => simp [insertEntry]
  | cons a es ih =>
    rw [List.map_cons, List.pairwise_cons] at hs
    have hafter : ∀ b ∈ es, a.1 < b.1 := fun b hb => hs.1 b.1 (List.mem_map_of_mem hb)
    unfold insertEntry
    split
    · next hlt => grind
    · grind

theorem sorted_insertEntry (k : K) (v : V) {es : List (K × V)}
    (hs : (es.map Prod.fst).Pairwise (· < ·)) :
    ((insertEntry k v es).map Prod.fst).Pairwise (· < ·) := by
  induction es with
  | nil => simp [insertEntry]
  | cons a es ih =>
    have hs' := hs
    rw [List.map_cons, List.pairwise_cons] at hs
    unfold insertEntry
    split
    · next hlt => grind
    · next hlt =>
      split
      · next heq =>
        rw [List.map_cons, List.pairwise_cons]
        exact ⟨heq ▸ hs.1, hs.2⟩
      · next hne =>
        rw [List.map_cons, List.pairwise_cons]
        refine ⟨fun b hb => ?_, ih hs.2⟩
        obtain ⟨e, he, rfl⟩ := List.mem_map.mp hb
        rcases (mem_insertEntry hs.2 e).mp he with rfl | ⟨_, he⟩
        · exact lt_of_le_of_ne (not_lt.mp hlt) hne
        · exact hs.1 e.1 (List.mem_map_of_mem he)

/-- Set the value of `k`. -/
def insert (m : OrderedMap K V) (k : K) (v : V) : OrderedMap K V :=
  .ofSorted (insertEntry k v m.entries) (sorted_insertEntry k v m.sorted)

theorem mem_insert : e ∈ (m.insert k v).entries ↔ e = (k, v) ∨ e.1 ≠ k ∧ e ∈ m.entries :=
  mem_insertEntry m.sorted e

/-! ## Removal -/

/-- Remove the entry of `k`. -/
def erase (m : OrderedMap K V) (k : K) : OrderedMap K V :=
  ⟨m.toTable.erase k, m.sorted.sublist (List.filter_sublist.map _)⟩

theorem size_erase_lt (h : m.get? k = some v) : (m.erase k).size < m.size :=
  List.length_filter_lt_length_iff_exists.mpr ⟨(k, v), Table.get?_eq_some_iff.mp h, by simp⟩

/-- Setting the value of a key replaces its entry, or adds one. -/
theorem insert_perm (m : OrderedMap K V) (k : K) (v : V) :
    (m.insert k v).entries.Perm ((k, v) :: (m.erase k).entries) :=
  Table.perm_cons_erase fun _ => mem_insert

theorem entries_erase_of_get?_eq_none (h : m.get? k = none) : (m.erase k).entries = m.entries :=
  congrArg Table.entries (Table.erase_of_not_contains (by rw [Table.contains, h]; rfl))

/-! ## Ranges -/

/-- The entries with keys from `low` to `high`. -/
def range (m : OrderedMap K V) (low high : K) : List (K × V) :=
  m.entries.filter fun e => low ≤ e.1 && e.1 ≤ high

theorem mem_range {low high : K} :
    e ∈ m.range low high ↔ e ∈ m.entries ∧ low ≤ e.1 ∧ e.1 ≤ high := by
  simp [range]

theorem sorted_range (m : OrderedMap K V) (low high : K) :
    ((m.range low high).map Prod.fst).Pairwise (· < ·) :=
  m.sorted.sublist (List.filter_sublist.map _)

end OrderedMap

end CodexRouter.Lib
