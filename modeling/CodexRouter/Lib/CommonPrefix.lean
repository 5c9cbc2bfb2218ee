import Mathlib.Tactic

set_option autoImplicit false

/-! # The common beginning of two lists -/

namespace CodexRouter.Lib

variable {α : Type}

/-- A beginning of `a ++ b` ends in `a` or in `b`. -/
theorem prefix_append_iff {p a b : List α} :
    p <+: a ++ b ↔ p <+: a ∨ ∃ q, p = a ++ q ∧ q <+: b := by
  constructor
  · intro h
    by_cases hlen : p.length ≤ a.length
    · exact Or.inl (List.prefix_of_prefix_length_le h (List.prefix_append a b) hlen)
    · have ha : a <+: p := by grind [List.prefix_of_prefix_length_le]
      obtain ⟨q, rfl⟩ := ha
      exact Or.inr ⟨q, rfl, (List.prefix_append_right_inj a).mp h⟩
  · rintro (h | ⟨q, rfl, h⟩)
    · exact h.trans (List.prefix_append a b)
    · exact (List.prefix_append_right_inj a).mpr h

variable [DecidableEq α]

/-- The number of elements two lists share from the start. -/
def commonLength (a b : List α) : Nat := ((a.zip b).takeWhile fun e => e.1 = e.2).length

theorem commonLength_cons (x y : α) (a b : List α) :
    commonLength (x :: a) (y :: b) = if x = y then commonLength a b + 1 else 0 := by
  by_cases hxy : x = y
  · simp [commonLength, hxy]
  · simp [commonLength, hxy]

/-- Two lists part after their common beginning. -/
theorem commonLength_spec (a b : List α) :
    ∃ s a' b', a = s ++ a' ∧ b = s ++ b' ∧ commonLength a b = s.length ∧
      ∀ x y xs ys, a' = x :: xs → b' = y :: ys → x ≠ y := by
  induction a generalizing b with
  | nil => exact ⟨[], [], b, rfl, rfl, by simp [commonLength], by simp⟩
  | cons x a ih =>
    cases b with
    | nil => exact ⟨[], x :: a, [], rfl, rfl, by simp [commonLength], by simp⟩
    | cons y b =>
      by_cases hxy : x = y
      · obtain ⟨s, a', b', ha, hb, hlen, hpart⟩ := ih b
        refine ⟨x :: s, a', b', by rw [ha]; rfl, by rw [hb, hxy]; rfl, ?_, hpart⟩
        rw [commonLength_cons, if_pos hxy, hlen, List.length_cons]
      · refine ⟨[], x :: a, y :: b, rfl, rfl, ?_, ?_⟩
        · rw [commonLength_cons, if_neg hxy, List.length_nil]
        · grind

/-- Nothing longer is common to both. -/
theorem length_le_commonLength {p a b : List α} (ha : p <+: a) (hb : p <+: b) :
    p.length ≤ commonLength a b := by
  induction p generalizing a b with
  | nil => exact Nat.zero_le _
  | cons x p ih =>
    obtain ⟨a', rfl⟩ := ha
    obtain ⟨b', rfl⟩ := hb
    rw [List.cons_append, List.cons_append, commonLength_cons, if_pos rfl, List.length_cons]
    have := ih (List.prefix_append p a') (List.prefix_append p b')
    omega

end CodexRouter.Lib
