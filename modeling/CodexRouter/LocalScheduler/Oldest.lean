import CodexRouter.LocalScheduler.Choice
import CodexRouter.LocalScheduler.Scorers

set_option autoImplicit false

/-! # What the policies pick

Under the aging policy a call that has waited long enough is never passed over for a later one,
although the clock goes on during the scan. Under the default policy the rules have no opinion
about a directory without a tier, and the preferences can run in a circle; a waiter that is
preferred to every other is found in any order.
-/

namespace CodexRouter.LocalScheduler

/-! ## The aging policy -/

section Aging

variable {tiers : List (String × Nat)} {maxWait slots oldest : Nat} {s : PolicyState}

/-- A comparison reads the clock once and changes nothing else. -/
theorem prefers_aging_state (s : PolicyState) (first second : TaskFeatures) :
    ((agingPolicy tiers maxWait slots).prefers s first second).2 = s.tick := by
  simp only [Scheduler.prefers, agingPolicy, Scheduler.new, chainScorer, chainScore, agingScorer,
    learned, ruleScorer, pairTableScorer]
  split <;> split <;> grind

/-- Against a call that has waited long enough, one goes first only if it came as early. -/
theorem prefers_aging (hstale : maxWait ≤ s.clock s.reads - oldest) {first second : TaskFeatures}
    (hfirst : oldest ≤ first.waiting_since) (hsecond : oldest ≤ second.waiting_since)
    (hone : first.waiting_since = oldest ∨ second.waiting_since = oldest) :
    ((agingPolicy tiers maxWait slots).prefers s first second).1
      = decide (first.waiting_since = oldest) := by
  have hscore : ((agingScorer maxWait).score s first second).1
      = .certain (first.waiting_since = oldest) := by
    simp only [agingScorer]
    rcases hone with h | h
    · simp [h, hstale, hsecond]
    · rcases hfirst.eq_or_lt with h' | h'
      · simp [← h', hstale, hsecond]
      · simp [h, hstale, h'.ne', not_le.mpr h']
  simp only [Scheduler.prefers, agingPolicy, Scheduler.new, chainScorer, chainScore, hscore]
  have hconfident : (Preference.certain (first.waiting_since = oldest)).confidence
      ≥ chainThreshold := by norm_num [Preference.certain, chainThreshold]
  rw [if_pos hconfident, if_pos (by norm_num [Preference.certain]), firstWins_certain]

/-- **The aging policy picks a call that came first** when that call has waited for `maxWait` at
the start of the scan, whatever the tiers and the pair table say. -/
theorem pick_aging (tiers : List (String × Nat)) (maxWait slots : Nat) (s : PolicyState)
    (waiting : List Waiter) (w : Waiter) (hw : w ∈ waiting)
    (holdest : ∀ v ∈ waiting, w.features.waiting_since ≤ v.features.waiting_since)
    (hstale : maxWait ≤ s.clock s.reads - w.features.waiting_since) :
    ∃ index v, ((agingPolicy tiers maxWait slots).pick s waiting).1 = some index ∧
      waiting[index]? = some v ∧ v.features.waiting_since = w.features.waiting_since := by
  -- the clock never goes back, so the oldest calls stay stale during the scan
  let Stale (s : PolicyState) : Prop := maxWait ≤ s.clock s.reads - w.features.waiting_since
  refine (agingPolicy tiers maxWait slots).pick_good Stale _ _ (fun s first second hs => ?_)
    (fun s v v' hs hv hv' hone => ?_) hstale holdest ⟨w, hw, rfl⟩
  · rw [prefers_aging_state]
    exact hs.trans (Nat.sub_le_sub_right (s.mono (Nat.le_succ _)) _)
  · rw [prefers_aging hs hv hv' (by tauto), decide_eq_true_iff]

end Aging

/-- A call that waits, in a directory of its own. -/
def waiterAt (cwd toolName : String) (since : Nat) : Waiter :=
  ⟨⟨"thread", "turn", cwd⟩, ⟨cwd, toolName, since⟩, since⟩

/-- Nothing is recorded, and the clock goes on by one with each reading. -/
def startState : PolicyState :=
  ⟨Lib.Table.empty, fun n => 10 + n, fun _ _ h => Nat.add_le_add_left h _, 0⟩

theorem pick_aging_second :
    ∃ index v, ((agingPolicy [("/a", 0)] 8 1).pick startState
        [waiterAt "/a" "shell" 5, waiterAt "/b" "shell" 2]).1 = some index ∧
      [waiterAt "/a" "shell" 5, waiterAt "/b" "shell" 2][index]? = some v ∧
      v.features.waiting_since = 2 :=
  pick_aging [("/a", 0)] 8 1 startState _ (waiterAt "/b" "shell" 2) (by simp) (by decide)
    (by decide)

/-! ## The default policy -/

section Default

theorem prefers_default_state {tiers : List (String × Nat)} {slots : Nat} {s : PolicyState}
    (first second : TaskFeatures) :
    ((defaultPolicy tiers slots).prefers s first second).2 = s := by
  simp only [Scheduler.prefers, defaultPolicy, Scheduler.new, chainScorer, chainScore, learned,
    ruleScorer, pairTableScorer]
  grind

/-- **The default policy picks the waiter that goes before every other**, in whatever order they
stand, where there is one. -/
theorem pick_default (tiers : List (String × Nat)) (slots : Nat) (s : PolicyState)
    (waiting : List Waiter) (top : Waiter) (htop : top ∈ waiting)
    (hall : ∀ v ∈ waiting, v ≠ top →
      ((defaultPolicy tiers slots).prefers s top.features v.features).1 = true ∧
        ((defaultPolicy tiers slots).prefers s v.features top.features).1 = false)
    (order : List Waiter) (horder : order.Perm waiting) :
    ∃ index, ((defaultPolicy tiers slots).pick s order).1 = some index ∧
      order[index]? = some top := by
  have hpick := (defaultPolicy tiers slots).pick_good (· = s) (· ∈ waiting) (· = top)
    (fun _ _ _ hs => (prefers_default_state ..).trans hs) (fun _ v w hs hv hw hone => ?_) rfl
    (fun v hv => horder.mem_iff.mp hv) ⟨top, horder.mem_iff.mpr htop, rfl⟩
  · obtain ⟨index, v, hindex, hv, rfl⟩ := hpick
    exact ⟨index, hindex, hv⟩
  · subst hs
    by_cases hv' : v = top
    · subst hv'
      exact iff_of_true (hall w hw fun h => hone.mp rfl h).1 rfl
    · have hw' : w = top := not_not.mp fun h => hv' (hone.mpr h)
      subst hw'
      exact iff_of_false (by rw [(hall v hv hv').2]; decide) hv'

theorem pick_default_tier :
    ∃ index, ((defaultPolicy [("/a", 0), ("/c", 1)] 1).pick startState
        [waiterAt "/c" "shell" 1, waiterAt "/a" "shell" 2]).1 = some index ∧
      [waiterAt "/c" "shell" 1, waiterAt "/a" "shell" 2][index]? = some (waiterAt "/a" "shell" 2) :=
  pick_default [("/a", 0), ("/c", 1)] 1 startState
    [waiterAt "/a" "shell" 2, waiterAt "/c" "shell" 1] (waiterAt "/a" "shell" 2) (by simp)
    (by decide +kernel) _ (List.Perm.swap ..)

/-- A tier, a cheap tool and an early arrival, each of which wins against one of the others: what
is picked depends on the order, and another waiter goes before it. -/
theorem not_pick_default :
    let tiered := waiterAt "/a" "shell" 2
    let cheap := waiterAt "/c" "read_file" 3
    let early := waiterAt "/b" "shell" 1
    let policy := defaultPolicy [("/a", 0), ("/c", 1)] 1
    (policy.pick startState [tiered, cheap, early]).1 = some 2 ∧
      (policy.prefers startState cheap.features early.features).1 = true ∧
      (policy.pick startState [early, tiered, cheap]).1 = some 2 := by
  decide +kernel

end Default

end CodexRouter.LocalScheduler
