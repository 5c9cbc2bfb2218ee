import CodexRouter.LocalScheduler.Basic

set_option autoImplicit false

/-! # What `pick` picks

`pick` goes through the waiting list once and asks pairwise. If the answers do not change on the
way and are those of a transitive relation, it ends at a waiter to which none is preferred. If some
waiters win against all others, it ends at one of them.
-/

namespace CodexRouter.LocalScheduler

variable {σ : Type} {sc : Scheduler σ} {env : σ} {P : TaskFeatures → TaskFeatures → Prop}
  [DecidableRel P]

/-- The waiter at the index, and no other is preferred to it. -/
def Unbeaten (P : TaskFeatures → TaskFeatures → Prop) (waiting : List Waiter) (index : Nat) :
    Prop :=
  ∃ w, waiting[index]? = some w ∧ ∀ v ∈ waiting, ¬ P v.features w.features

theorem Scheduler.pickFrom_unbeaten
    (hprefers : ∀ first second, sc.prefers env first second = (decide (P first second), env))
    (htrans : ∀ a b c, P a b → P b c → P a c) (hirrefl : ∀ a, ¬ P a a) (rest : List Waiter) :
    ∀ (seen : List Waiter) (best : Nat) (w : Waiter), seen[best]? = some w →
      (∀ v ∈ seen, ¬ P v.features w.features) →
        Unbeaten P (seen ++ rest) (sc.pickFrom env rest best w.features seen.length).1 := by
  induction rest with
  | nil =>
    intro seen best w hw hbest
    rw [List.append_nil]
    exact ⟨w, hw, hbest⟩
  | cons next rest ih =>
    intro seen best w hw hbest
    have hlength : (seen ++ [next]).length = seen.length + 1 := List.length_append
    rw [pickFrom, hprefers, List.append_cons, ← hlength]
    by_cases hnext : P next.features w.features
    · grind
    · grind

theorem Scheduler.pick_unbeaten
    (hprefers : ∀ first second, sc.prefers (sc.scorer.refresh env) first second
      = (decide (P first second), sc.scorer.refresh env))
    (htrans : ∀ a b c, P a b → P b c → P a c) (hirrefl : ∀ a, ¬ P a a) {waiting : List Waiter}
    (hne : waiting ≠ []) :
    ∃ index, (sc.pick env waiting).1 = some index ∧ Unbeaten P waiting index := by
  cases waiting with
  | nil => exact absurd rfl hne
  | cons w rest =>
    refine ⟨_, rfl, ?_⟩
    refine pickFrom_unbeaten hprefers htrans hirrefl rest [w] 0 w rfl fun v hv => ?_
    rw [List.mem_singleton.mp hv]
    exact hirrefl _

section Good

variable (sc) (I : σ → Prop) (M Good : Waiter → Prop)
  (hstate : ∀ s v w, I s → I (sc.prefers s v w).2)
  (hgood : ∀ s v w, I s → M v → M w → (Good v ↔ ¬ Good w) →
    ((sc.prefers s v.features w.features).1 = true ↔ Good v))

include hstate hgood

/-- Between a good waiter and one that is not, the scan takes the good one. -/
theorem Scheduler.pickFrom_good (rest : List Waiter) :
    ∀ (seen : List Waiter) (s : σ) (best : Nat) (w : Waiter), seen[best]? = some w → I s →
      (∀ v ∈ w :: rest, M v) → (∃ v ∈ w :: rest, Good v) →
        ∃ v, (seen ++ rest)[(sc.pickFrom s rest best w.features seen.length).1]? = some v ∧
          Good v := by
  induction rest with
  | nil =>
    intro seen s best w hw _ _ ⟨v, hv, hv'⟩
    rw [List.append_nil]
    exact ⟨w, hw, List.mem_singleton.mp hv ▸ hv'⟩
  | cons next rest ih =>
    intro seen s best w hw hs hM ⟨v, hv, hv'⟩
    have hlength : (seen ++ [next]).length = seen.length + 1 := List.length_append
    have hs' := hstate s next.features w.features hs
    have hone := hgood s next w hs (hM next (by simp)) (hM w (by simp))
    rw [pickFrom, List.append_cons, ← hlength]
    generalize sc.prefers s next.features w.features = answer at hs' hone
    rcases answer with ⟨_ | _, s'⟩
    · refine ih (seen ++ [next]) s' best w ?_ hs' (fun v hv => hM v (by grind)) ?_
      · grind
      · grind
    · refine ih (seen ++ [next]) s' seen.length next ?_ hs' (fun v hv => hM v (by grind)) ?_
      · grind
      · grind

theorem Scheduler.pick_good {waiting : List Waiter} (henv : I (sc.scorer.refresh env))
    (hM : ∀ v ∈ waiting, M v) (hex : ∃ v ∈ waiting, Good v) :
    ∃ index v, (sc.pick env waiting).1 = some index ∧ waiting[index]? = some v ∧ Good v := by
  cases waiting with
  | nil =>
    obtain ⟨_, hv, _⟩ := hex
    cases hv
  | cons w rest =>
    obtain ⟨v, hv, hv'⟩ := pickFrom_good sc I M Good hstate hgood rest [w] _ 0 w rfl henv hM hex
    exact ⟨_, v, rfl, hv, hv'⟩

end Good

end CodexRouter.LocalScheduler
