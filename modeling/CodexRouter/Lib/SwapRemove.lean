import Mathlib.Tactic

set_option autoImplicit false

/-! # Constant-time removal from a vector

`swapRemove l i` removes the element at `i` and puts the last element in its place, the way
a growable array removes an element without moving the rest. The order of the others is not
kept; up to order the result is the list without that one element (`swapRemove_perm`).
-/

namespace CodexRouter.Lib

variable {α : Type}

/-- Remove the element at `i`, filling its place with the last one. -/
def swapRemove (l : List α) (i : Nat) : List α :=
  match l.getLast? with
  | none => []
  | some x => (l.set i x).dropLast

theorem swapRemove_concat_of_lt {init : List α} {x : α} {i : Nat} (h : i < init.length) :
    swapRemove (init ++ [x]) i = init.set i x := by
  simp [swapRemove, List.set_append_left _ _ h]

theorem swapRemove_concat_length (init : List α) (x : α) :
    swapRemove (init ++ [x]) init.length = init := by
  simp [swapRemove]

section

variable (l : List α) (i : Nat) (h : i < l.length)

include h

/-- Trading the element at `i` for `x`. -/
theorem getElem_cons_set_perm (x : α) :
    (l[i] :: l.set i x).Perm (x :: l) := by
  induction l generalizing i with
  | nil => simp at h
  | cons a l ih =>
    cases i with
    | zero => exact List.Perm.swap x a l
    | succ i =>
      have hi : i < l.length := by simpa using h
      show (l[i] :: a :: l.set i x).Perm (x :: a :: l)
      calc (l[i] :: a :: l.set i x).Perm (a :: l[i] :: l.set i x) := List.Perm.swap _ _ _
        _ |>.Perm (a :: x :: l) := (ih i hi).cons a
        _ |>.Perm (x :: a :: l) := List.Perm.swap _ _ _

/-- Up to order, `swapRemove` takes out the element at `i` and nothing else. -/
theorem swapRemove_perm :
    (l[i] :: swapRemove l i).Perm l := by
  rcases List.eq_nil_or_concat' l with rfl | ⟨init, x, rfl⟩
  · simp at h
  · by_cases hi : i < init.length
    · rw [swapRemove_concat_of_lt hi, List.getElem_append_left hi]
      exact (getElem_cons_set_perm init i hi x).trans (List.perm_append_singleton x init).symm
    · have hlen : i = init.length := by simp at h; omega
      subst hlen
      rw [swapRemove_concat_length]
      simpa using (List.perm_append_singleton x init).symm

theorem length_swapRemove :
    (swapRemove l i).length + 1 = l.length := by
  simpa using (swapRemove_perm l i h).length_eq

/-- Nothing in front of the removed element moves. -/
theorem take_swapRemove :
    (swapRemove l i).take i = l.take i := by
  rcases List.eq_nil_or_concat' l with rfl | ⟨init, x, rfl⟩
  · simp at h
  · grind [swapRemove_concat_of_lt, List.take_set_of_le, swapRemove_concat_length]

end

end CodexRouter.Lib
