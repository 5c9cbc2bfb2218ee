import Mathlib.Tactic

set_option autoImplicit false

/-! # The longest initial segment with a property

A list is cut at the end until it has a property, or grown from its beginning as long as it has
it. If the property passes to initial segments, both find the longest initial segment that has it.
-/

namespace CodexRouter.Lib

variable {α : Type} {P : List α → Prop} {l q r : List α} {x : α}

/-- `q` is the longest initial segment of `l` with the property `P`. -/
structure IsLongest (P : List α → Prop) (l q : List α) : Prop where
  initial : q <+: l
  holds : P q
  longest : ∀ r, r <+: l → P r → r <+: q

/-- An initial segment that cannot be grown by one element is the longest. -/
theorem isLongest_of_stop (hclosed : ∀ q r, r <+: q → P q → P r) (hinitial : q <+: l) (hq : P q)
    (hstop : ∀ x, q ++ [x] <+: l → ¬ P (q ++ [x])) : IsLongest P l q := by
  refine ⟨hinitial, hq, fun r hr hPr => ?_⟩
  rcases List.prefix_or_prefix_of_prefix hr hinitial with hshort | hlong
  · exact hshort
  · obtain ⟨more, rfl⟩ := hlong
    cases more with
    | nil => simp
    | cons x more =>
      -- one element more than `q` would do already
      have hone : q ++ [x] <+: q ++ x :: more := by simp
      exact absurd (hclosed _ _ hone hPr) (hstop x (hone.trans hr))

end CodexRouter.Lib
