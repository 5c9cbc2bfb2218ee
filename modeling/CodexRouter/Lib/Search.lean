import Mathlib.Tactic

set_option autoImplicit false

/-! # Search in a finite graph

`search next` takes pending nodes from a stack and adds the neighbours that it has not reached yet.
With as much fuel as there are nodes, it reaches what the paths from its start reach.
-/

namespace CodexRouter.Lib

variable {α : Type} [DecidableEq α] {next : α → List α}

/-- The neighbours of `x` that are not reached yet, each once. -/
def unreached (next : α → List α) (reached : List α) (x : α) : List α :=
  ((next x).filter fun y => y ∉ reached).dedup

def search (next : α → List α) : Nat → List α → List α → List α
  | 0, reached, _ => reached
  | _ + 1, reached, [] => reached
  | fuel + 1, reached, x :: pending =>
    let new := unreached next reached x
    search next fuel (reached ++ new) (new ++ pending)

theorem mem_unreached {reached : List α} {x y : α} :
    y ∈ unreached next reached x ↔ y ∈ next x ∧ y ∉ reached := by
  simp [unreached]

/-- The state of the loop of a search from `start` among the nodes `nodes`. -/
structure Searching (next : α → List α) (nodes : List α) (start : α) (reached pending : List α) :
    Prop where
  distinct : reached.Nodup
  inside : reached ⊆ nodes
  started : start ∈ reached
  sound : ∀ x ∈ reached, Relation.ReflTransGen (fun x y => y ∈ next x) start x
  kept : pending ⊆ reached
  -- a node that is not pending has had its neighbours added
  done : ∀ x ∈ reached, x ∉ pending → ∀ y ∈ next x, y ∈ reached

theorem Searching.pop {nodes reached pending : List α} {start x : α}
    (hnodes : ∀ x ∈ nodes, ∀ y ∈ next x, y ∈ nodes)
    (h : Searching next nodes start reached (x :: pending)) :
    Searching next nodes start (reached ++ unreached next reached x)
      (unreached next reached x ++ pending) := by
  have hx : x ∈ reached := h.kept (List.mem_cons_self ..)
  constructor
  · rw [List.nodup_append]
    refine ⟨h.distinct, List.nodup_dedup _, ?_⟩
    rintro a ha b hb rfl
    exact (mem_unreached.mp hb).2 ha
  · intro y hy
    rcases List.mem_append.mp hy with hy | hy
    · exact h.inside hy
    · exact hnodes x (h.inside hx) y (mem_unreached.mp hy).1
  · exact List.mem_append_left _ h.started
  · intro y hy
    rcases List.mem_append.mp hy with hy | hy
    · exact h.sound y hy
    · exact (h.sound x hx).tail (mem_unreached.mp hy).1
  · grind [cases Searching]
  · intro y hy hpending z hz
    rw [List.mem_append, not_or] at hpending
    rcases List.mem_append.mp hy with hy | hy
    · by_cases hyx : y = x
      · subst hyx
        by_cases hreached : z ∈ reached
        · exact List.mem_append_left _ hreached
        · exact List.mem_append_right _ (mem_unreached.mpr ⟨hz, hreached⟩)
      · have hold : y ∉ x :: pending := by grind
        exact List.mem_append_left _ (h.done y hy hold z hz)
    · exact absurd hy hpending.1

/-- Each round takes one node off the stack, and a node is on it once only, so that the fuel lasts
until nothing is pending. -/
theorem Searching.exhaust {nodes : List α} {start : α}
    (hnodes : ∀ x ∈ nodes, ∀ y ∈ next x, y ∈ nodes) (fuel : Nat) :
    ∀ reached pending : List α, Searching next nodes start reached pending →
      nodes.length + pending.length ≤ reached.length + fuel →
        Searching next nodes start (search next fuel reached pending) [] := by
  induction fuel with
  | zero =>
    intro reached pending h hfuel
    have hle := (List.subperm_of_subset h.distinct h.inside).length_le
    have hnil : pending = [] := List.length_eq_zero_iff.mp (by omega)
    exact hnil ▸ h
  | succ fuel ih =>
    intro reached pending h hfuel
    cases pending with
    | nil => exact h
    | cons x pending =>
      refine ih _ _ (h.pop hnodes) ?_
      rw [List.length_append, List.length_append]
      rw [List.length_cons] at hfuel
      omega

theorem mem_search_iff {nodes : List α} {start : α}
    (hnodes : ∀ x ∈ nodes, ∀ y ∈ next x, y ∈ nodes) (hstart : start ∈ nodes) (y : α) :
    y ∈ search next nodes.length [start] [start] ↔
      Relation.ReflTransGen (fun x y => y ∈ next x) start y := by
  have hinit : Searching next nodes start [start] [start] := by
    constructor
    · exact List.nodup_singleton start
    · grind
    · exact List.mem_singleton_self start
    · intro x hx
      rw [List.mem_singleton.mp hx]
    · exact List.Subset.refl _
    · intro x hx hnot
      exact absurd hx hnot
  have h := Searching.exhaust hnodes nodes.length [start] [start] hinit
    (by rw [List.length_singleton]; omega)
  constructor
  · exact h.sound y
  · intro hpath
    induction hpath with
    | refl => exact h.started
    | tail _ hedge ih => exact h.done _ ih List.not_mem_nil _ hedge

end CodexRouter.Lib
