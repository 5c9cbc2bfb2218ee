import Mathlib.Data.List.Basic

set_option autoImplicit false

/-! # Edits of a list by position

A program that goes through a list and notes positions, and then edits the list at these positions,
edits it element by element.
-/

namespace CodexRouter.Lib

variable {α : Type}

/-- Put each element right after the one at its position. The last goes first, so that no position
moves before it is used. -/
def insertAfter (l : List α) (inserts : List (Nat × α)) : List α :=
  inserts.reverse.foldl (fun l e => l.insertIdx (e.1 + 1) e.2) l

/-- Go through a list from a position on, and leave out the elements at the given positions, which
are in order. -/
def retainExcept : Nat → List Nat → List α → List α
  | _, _, [] => []
  | position, positions, x :: l =>
    if positions.head? = some position then retainExcept (position + 1) positions.tail l
    else x :: retainExcept (position + 1) positions l

theorem insertIdx_length_append (l r : List α) (x : α) :
    (l ++ r).insertIdx l.length x = l ++ x :: r := by
  induction l with
  | nil => simp
  | cons y l ih => simpa using ih

theorem insertAfter_zipIdx (f : α → Option α) (l : List α) :
    insertAfter l (l.zipIdx.filterMap fun e => (f e.1).map fun y => (e.2, y))
      = l.flatMap fun x => x :: (f x).toList := by
  -- the elements before those that are gone through stay in front
  have hgo : ∀ l done : List α,
      ((l.zipIdx done.length).filterMap fun e => (f e.1).map fun y => (e.2, y)).foldr
          (fun e l => l.insertIdx (e.1 + 1) e.2) (done ++ l)
        = done ++ l.flatMap fun x => x :: (f x).toList := by
    intro l
    induction l with
    | nil =>
      intro done
      simp
    | cons x l ih =>
      intro done
      have hrest := ih (done ++ [x])
      rw [List.length_append, List.length_singleton] at hrest
      rw [List.zipIdx_cons, List.flatMap_cons, ← List.append_cons] at *
      cases hf : f x with
      | none =>
        rw [List.filterMap_cons_none (by simp [hf]), hrest]
        simp
      | some y =>
        simp only [List.filterMap_cons, hf, Option.map_some]
        rw [List.foldr_cons, hrest]
        have hat := insertIdx_length_append (done ++ [x])
          (l.flatMap fun x => x :: (f x).toList) y
        rw [List.length_append, List.length_singleton] at hat
        rw [hat]
        simp
  rw [insertAfter, List.foldl_reverse]
  exact hgo l []

theorem retainExcept_zipIdx (p : α → Bool) (l : List α) :
    retainExcept 0 (l.zipIdx.filterMap fun e => if p e.1 then some e.2 else none) l
      = l.filter fun x => !p x := by
  have hgo : ∀ (l : List α) (n : Nat),
      retainExcept n ((l.zipIdx n).filterMap fun e => if p e.1 then some e.2 else none) l
        = l.filter fun x => !p x := by
    intro l
    induction l with
    | nil =>
      intro n
      rfl
    | cons x l ih =>
      intro n
      rw [List.zipIdx_cons]
      cases hp : p x with
      | true =>
        rw [List.filter_cons_of_neg (by simp [hp]), ← ih (n + 1)]
        simp [hp, retainExcept]
      | false =>
        rw [List.filterMap_cons_none (by simp [hp]), List.filter_cons_of_pos (by simp [hp])]
        -- the positions still to come lie further on
        have hne : ((l.zipIdx (n + 1)).filterMap fun e =>
            if p e.1 then some e.2 else none).head? ≠ some n := by
          intro hhead
          have hmem := List.mem_of_mem_head? hhead
          obtain ⟨e, he, heq⟩ := List.mem_filterMap.mp hmem
          split at heq
          · grind
          · cases heq
        rw [retainExcept, if_neg hne, ih (n + 1)]
  exact hgo l 0

theorem flatMap_filter {β : Type} (p : α → Bool) (f : α → List β) (l : List α) :
    (l.filter p).flatMap f = l.flatMap fun x => if p x then f x else [] := by
  induction l with
  | nil => rfl
  | cons x l ih => grind

end CodexRouter.Lib
