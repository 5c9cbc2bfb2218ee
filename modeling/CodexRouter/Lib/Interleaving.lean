import CodexRouter.Lib.Run
import CodexRouter.Lib.Table

set_option autoImplicit false

/-! # Concurrent calls cut at their locks

A call runs in sections, each of which holds a lock and so happens at once. Between two
sections the call stands at a point of type `κ`, which keeps its local variables; other calls
may run there. A run is any order of the sections of any number of calls.
-/

namespace CodexRouter.Lib

/-- The calls of an object with shared state `σ`: what the first section of an operation does,
and what the next section does from each point. A section leaves the call at another point
(`Sum.inl`) or lets it return (`Sum.inr`). -/
structure Program (σ ω κ ρ : Type) where
  enter : ω → σ → σ × (κ ⊕ ρ)
  advance : κ → σ → σ × (κ ⊕ ρ)

/-- The shared state and the calls in progress, by their ids. -/
structure Interleaved (σ κ : Type) where
  shared : σ
  calls : Table Nat κ

/-- The next section of some call: of a new one, or of one in progress. -/
inductive Section (ω : Type)
  | call (id : Nat) (op : ω)
  | advance (id : Nat)

namespace Interleaved

variable {σ ω κ ρ : Type}

def start (shared : σ) : Interleaved σ κ := ⟨shared, Table.empty⟩

/-- The call `id` has run a section. -/
def settle (s : Interleaved σ κ) (id : Nat) (done : σ × (κ ⊕ ρ)) : Interleaved σ κ :=
  ⟨done.1, match done.2 with
    | .inl point => s.calls.insert id point
    | .inr _ => s.calls.erase id⟩

def step (P : Program σ ω κ ρ) (s : Interleaved σ κ) : Section ω → Option (Interleaved σ κ)
  | .call id op => if s.calls.contains id then none else some (s.settle id (P.enter op s.shared))
  | .advance id => (s.calls.get? id).map fun point => s.settle id (P.advance point s.shared)

/-- No call is in progress. -/
def Quiescent (s : Interleaved σ κ) : Prop := s.calls.entries = []

instance (s : Interleaved σ κ) : Decidable s.Quiescent :=
  decidable_of_iff (s.calls.entries.isEmpty = true) (by simp [Quiescent])

/-- A call other than `id` stands at a point that meets `p`. -/
def Another (s : Interleaved σ κ) (id : Nat) (p : κ → Prop) : Prop :=
  ∃ entry ∈ s.calls.entries, entry.1 ≠ id ∧ p entry.2

instance (s : Interleaved σ κ) (id : Nat) (p : κ → Prop) [DecidablePred p] :
    Decidable (s.Another id p) :=
  inferInstanceAs (Decidable (∃ entry ∈ s.calls.entries, _))

/-- Some call stands at a point that meets `p`. -/
def Standing (s : Interleaved σ κ) (p : κ → Prop) : Prop :=
  ∃ id point, s.calls.get? id = some point ∧ p point

/-! ## One section -/

theorem get?_settle (s : Interleaved σ κ) (id j : Nat) (done : σ × (κ ⊕ ρ)) :
    (s.settle id done).calls.get? j = if j = id then done.2.getLeft? else s.calls.get? j := by
  obtain ⟨shared, point | result⟩ := done
  · exact Table.get?_insert _ _ _ _
  · exact Table.get?_erase _ _ _

theorem get?_settle_self (s : Interleaved σ κ) (id : Nat) (done : σ × (κ ⊕ ρ)) :
    (s.settle id done).calls.get? id = done.2.getLeft? := by
  rw [get?_settle, if_pos rfl]

theorem get?_settle_ne (s : Interleaved σ κ) {id j : Nat} (h : j ≠ id) (done : σ × (κ ⊕ ρ)) :
    (s.settle id done).calls.get? j = s.calls.get? j := by
  rw [get?_settle, if_neg h]

variable {P : Program σ ω κ ρ} {s t : Interleaved σ κ} {p : κ → Prop}

theorem step_call {id : Nat} {op : ω} (h : step P s (.call id op) = some t) :
    s.calls.get? id = none ∧ t = s.settle id (P.enter op s.shared) := by
  simp only [step] at h
  split at h
  · cases h
  · next hid =>
    refine ⟨?_, (Option.some.inj h).symm⟩
    rw [Table.contains, Bool.not_eq_true, Option.isSome_eq_false_iff,
      Option.isNone_iff_eq_none] at hid
    exact hid

theorem step_advance {id : Nat} (h : step P s (.advance id) = some t) :
    ∃ point, s.calls.get? id = some point ∧ t = s.settle id (P.advance point s.shared) := by
  grind [Option.map_eq_some_iff, step]

theorem quiescent_iff : s.Quiescent ↔ ∀ id, s.calls.get? id = none := by
  constructor
  · intro h id
    rw [Option.eq_none_iff_forall_ne_some]
    intro point hpoint
    rw [Table.get?_eq_some_iff, h] at hpoint
    cases hpoint
  · intro h
    refine List.eq_nil_iff_forall_not_mem.mpr fun entry hentry => ?_
    have := Table.get?_eq_some_iff.mpr hentry
    rw [h] at this
    cases this

theorem Quiescent.not_standing (h : s.Quiescent) : ¬ s.Standing p := by
  rintro ⟨id, point, hpoint, _⟩
  rw [quiescent_iff.mp h id] at hpoint
  cases hpoint

theorem another_iff {id : Nat} :
    s.Another id p ↔ ∃ j point, s.calls.get? j = some point ∧ j ≠ id ∧ p point := by
  simp only [Another, Prod.exists, Table.get?_eq_some_iff]

/-- After a section of `id`, it is `id` that stands at `p` or it is another call. -/
theorem standing_settle {id : Nat} {done : σ × (κ ⊕ ρ)} :
    (s.settle id done).Standing p
      ↔ (∃ point, done.2 = .inl point ∧ p point) ∨ s.Another id p := by
  rw [another_iff]
  constructor
  · grind [Standing, Interleaved.get?_settle]
  · rintro (⟨point, hpoint, hp⟩ | ⟨j, point, hpoint, hj, hp⟩)
    · exact ⟨id, point, by rw [get?_settle_self, hpoint]; rfl, hp⟩
    · exact ⟨j, point, by rw [get?_settle_ne s hj, hpoint], hp⟩

/-- Standing somewhere is standing in `id` or in another call. -/
theorem standing_iff (id : Nat) :
    s.Standing p ↔ (∃ point, s.calls.get? id = some point ∧ p point) ∨ s.Another id p := by
  grind [another_iff, Standing]

theorem Another.standing {id : Nat} (h : s.Another id p) : s.Standing p :=
  (standing_iff id).mpr (Or.inr h)

/-- A section of a call that does not stand at `p` leaves those that do. -/
theorem Standing.settle {id : Nat} (h : s.Standing p)
    (hid : ∀ point, s.calls.get? id = some point → ¬ p point) (done : σ × (κ ⊕ ρ)) :
    (s.settle id done).Standing p := by
  rcases (standing_iff id).mp h with ⟨point, hpoint, hp⟩ | hother
  · exact absurd hp (hid point hpoint)
  · exact standing_settle.mpr (Or.inr hother)

/-! ## Counting calls -/

/-- How many calls stand at a point that meets `p`. -/
def count (s : Interleaved σ κ) (p : κ → Bool) : Nat := s.calls.entries.countP fun e => p e.2

/-- Whether a call is there and meets `p`, as a number. -/
def occupied (p : κ → Bool) (point : Option κ) : Nat := point.elim 0 fun k => (p k).toNat

theorem occupied_eq_zero {p : κ → Bool} {point : Option κ} :
    occupied p point = 0 ↔ ∀ k ∈ point, p k = false := by
  cases point <;> simp [occupied]

/-- A section moves the count by the call that ran it. -/
theorem count_settle (s : Interleaved σ κ) (id : Nat) (done : σ × (κ ⊕ ρ)) (p : κ → Bool) :
    (s.settle id done).count p + occupied p (s.calls.get? id)
      = s.count p + occupied p done.2.getLeft? := by
  have htoNat : ∀ k, (p k).toNat = if p k then 1 else 0 := fun k => by cases p k <;> rfl
  have hout : s.calls.get? id = none → s.calls.contains id = false := fun h => by
    rw [Table.contains, h]; rfl
  obtain ⟨shared, point | result⟩ := done
  · cases hid : s.calls.get? id with
    | none =>
      simpa [count, settle, occupied, htoNat] using
        Table.countP_insert_of_not_contains (hout hid) fun e => p e.2
    | some old =>
      simpa [count, settle, occupied, htoNat] using
        Table.countP_insert_of_get? hid fun e => p e.2
  · cases hid : s.calls.get? id with
    | none => simp [count, settle, occupied, Table.erase_of_not_contains (hout hid)]
    | some old =>
      simpa [count, settle, occupied, htoNat] using
        Table.countP_erase_of_get? hid fun e => p e.2

theorem standing_of_count_pos {p : κ → Bool} (h : 0 < s.count p) :
    s.Standing fun point => p point = true := by
  obtain ⟨entry, hentry, hp⟩ := List.countP_pos_iff.mp h
  exact ⟨entry.1, entry.2, Table.get?_eq_some_iff.mpr hentry, hp⟩

theorem count_pos {p : κ → Bool} {id : Nat} {point : κ} (h : s.calls.get? id = some point)
    (hp : p point = true) : 0 < s.count p :=
  List.countP_pos_iff.mpr ⟨(id, point), Table.get?_eq_some_iff.mp h, hp⟩

/-- A call at `p` that is not at `q` makes the difference where `q` lies within `p`. -/
theorem count_lt_count {p q : κ → Bool} {id : Nat} {point : κ} (hqp : ∀ k, q k = true → p k = true)
    (h : s.calls.get? id = some point) (hp : p point = true) (hq : q point = false) :
    s.count q < s.count p := by
  have hsplit := List.countP_eq_countP_filter_add s.calls.entries (fun e => p e.2) fun e => q e.2
  have hboth : (s.calls.entries.filter fun e => q e.2).countP (fun e => p e.2) = s.count q := by
    rw [List.countP_filter]
    refine List.countP_congr fun e _ => ?_
    cases hqe : q e.2 <;> simp_all
  have hpos : 0 < (s.calls.entries.filter fun e => !q e.2).countP fun e => p e.2 :=
    List.countP_pos_iff.mpr ⟨(id, point), List.mem_filter.mpr
      ⟨Table.get?_eq_some_iff.mp h, by simp [hq]⟩, hp⟩
  show s.count q < s.calls.entries.countP fun e => p e.2
  omega

/-! ## Replies -/

/-- The reply of a section that lets its call return. -/
def reply? (P : Program σ ω κ ρ) (s : Interleaved σ κ) : Section ω → Option (Nat × ρ)
  | .call id op => (P.enter op s.shared).2.getRight?.map (id, ·)
  | .advance id =>
    (s.calls.get? id).bind fun point => (P.advance point s.shared).2.getRight?.map (id, ·)

/-- The replies of a run, in the order in which the calls return. -/
def replies (P : Program σ ω κ ρ) : Interleaved σ κ → List (Section ω) → List (Nat × ρ)
  | _, [] => []
  | s, e :: es => (reply? P s e).toList ++ (step P s e).elim [] fun t => replies P t es

section

variable {es : List (Section ω)} (hrun : run (step P) s es = some t)

include hrun

theorem replies_append (fs : List (Section ω)) :
    replies P s (es ++ fs) = replies P s es ++ replies P t fs := by
  induction es generalizing s with
  | nil =>
    cases hrun
    rfl
  | cons e es ih =>
    obtain ⟨u, hu, hrun⟩ := run_cons hrun
    simp [replies, hu, ih hrun]

theorem replies_concat {e : Section ω} {u : Interleaved σ κ} (hstep : step P t e = some u) :
    replies P s (es ++ [e]) = replies P s es ++ (reply? P t e).toList := by
  rw [replies_append hrun]
  simp [replies, hstep]

/-- A reply of a run is the reply of one of its sections. -/
theorem exists_of_mem_replies {r : Nat × ρ} (hr : r ∈ replies P s es) :
    ∃ pre e u, pre ++ [e] <+: es ∧ run (step P) s pre = some u ∧ reply? P u e = some r := by
  induction es generalizing s with
  | nil => cases hr
  | cons e es ih =>
    obtain ⟨u, hu, hrun⟩ := run_cons hrun
    simp only [replies, hu, Option.elim_some, List.mem_append, Option.mem_toList] at hr
    rcases hr with hr | hr
    · exact ⟨[], e, s, by simp, rfl, hr⟩
    · obtain ⟨pre, f, v, hpre, hv, hreply⟩ := ih hrun hr
      exact ⟨e :: pre, f, v, by simpa using hpre, by simp [run, hu, hv], hreply⟩

end

/-! ## Letting calls finish -/

/-- A continuation that starts no new call. -/
def Finishing (es : List (Section ω)) : Prop := ∀ e ∈ es, ∃ id, e = .advance id

theorem Finishing.nil : Finishing ([] : List (Section ω)) := nofun

theorem Finishing.cons {id : Nat} {es : List (Section ω)} (h : Finishing es) :
    Finishing (.advance id :: es) := by
  grind [Finishing]

theorem Finishing.append {es fs : List (Section ω)} (h : Finishing es) (h' : Finishing fs) :
    Finishing (es ++ fs) := by
  grind [Finishing]

/-- What every section of a call in progress preserves, a finishing continuation preserves. -/
theorem finishing_invariant {I : Interleaved σ κ → Prop}
    (hstep : ∀ s id t, I s → step P s (.advance id) = some t → I t) :
    ∀ (es : List (Section ω)) (s t : Interleaved σ κ), Finishing es → I s →
      run (step P) s es = some t → I t := by
  intro es
  induction es with
  | nil =>
    intro s t _ hs ht
    exact Option.some.inj ht ▸ hs
  | cons e es ih =>
    intro s t hes hs ht
    obtain ⟨u, hu, hrest⟩ := run_cons ht
    obtain ⟨id, rfl⟩ := hes e (by simp)
    exact ih u t (fun f hf => hes f (by simp [hf])) (hstep s id u hs hu) hrest

section Rank

variable {rank : κ → Nat}
  (hrank : ∀ point shared next, (P.advance point shared).2 = .inl next → rank next < rank point)

include hrank

/-- One call can be run to its end while the others wait. -/
theorem finish_one (s : Interleaved σ κ) (id : Nat) :
    ∃ es t, Finishing es ∧ run (step P) s es = some t ∧
      ∀ j, t.calls.get? j = if j = id then none else s.calls.get? j := by
  -- on the rank of the point where `id` stands
  induction hn : ((s.calls.get? id).elim 0 fun point => rank point + 1)
    using Nat.strong_induction_on generalizing s with
  | _ n ih =>
    cases hid : s.calls.get? id with
    | none =>
      refine ⟨[], s, Finishing.nil, rfl, fun j => ?_⟩
      split
      · next hj => rw [hj, hid]
      · rfl
    | some point =>
      let u := s.settle id (P.advance point s.shared)
      have hstep : step P s (.advance id) = some u := by simp [step, hid, u]
      have hlt : ((u.calls.get? id).elim 0 fun point => rank point + 1) < n := by
        rw [get?_settle_self, ← hn, hid]
        cases hnext : (P.advance point s.shared).2 with
        | inl next => simpa using hrank point s.shared next hnext
        | inr _ => simp
      obtain ⟨es, t, hes, ht, hget⟩ := ih _ hlt u rfl
      refine ⟨.advance id :: es, t, hes.cons, by simp [run, hstep, ht], fun j => ?_⟩
      rw [hget]
      split
      · rfl
      · next hj => exact get?_settle_ne s hj _

/-- Any choice of calls can be run to their end while the others wait. -/
theorem finish_all (ids : List Nat) (s : Interleaved σ κ) :
    ∃ es t, Finishing es ∧ run (step P) s es = some t ∧
      ∀ j, t.calls.get? j = if j ∈ ids then none else s.calls.get? j := by
  induction ids generalizing s with
  | nil => exact ⟨[], s, Finishing.nil, rfl, by simp⟩
  | cons id ids ih =>
    obtain ⟨es, t, hes, ht, hget⟩ := finish_one hrank s id
    obtain ⟨fs, u, hfs, hu, hget'⟩ := ih t
    refine ⟨es ++ fs, u, hes.append hfs, by simp [run_append, ht, hu], fun j => ?_⟩
    rw [hget', hget]
    by_cases hj : j = id <;> simp [hj]

/-- The calls in progress can always be run to their end. -/
theorem exists_quiescent (s : Interleaved σ κ) :
    ∃ es t, Finishing es ∧ run (step P) s es = some t ∧ t.Quiescent := by
  obtain ⟨es, t, hes, ht, hget⟩ := finish_all hrank s.calls.keys s
  refine ⟨es, t, hes, ht, quiescent_iff.mpr fun id => ?_⟩
  rw [hget]
  split
  · rfl
  · next hid =>
    rw [← Table.contains_iff_mem_keys, Table.contains, Bool.not_eq_true,
      Option.isSome_eq_false_iff, Option.isNone_iff_eq_none] at hid
    exact hid

end Rank

end Interleaved

end CodexRouter.Lib
