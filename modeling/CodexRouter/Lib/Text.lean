import Mathlib.Tactic
import Mathlib.Data.List.DropRight
import CodexRouter.Lib.CommonPrefix

set_option autoImplicit false

/-! # Searching a text and cutting it into lines

A text is a list over any alphabet. `find?` gives the first occurrence of a needle; when more text
may follow, an occurrence can only start where the end of the text begins the needle. `cutLines`
cuts a text after each end of line, and trimming a beginning of a text gives a beginning of the
trimmed text.
-/

namespace CodexRouter.Lib

variable {α : Type}

/-! ## The first occurrence -/

section Find

variable [DecidableEq α] {needle : List α}

/-- The position of the first occurrence of `needle`. -/
def find? (needle : List α) : List α → Option Nat
  | [] => if needle = [] then some 0 else none
  | a :: l => if needle <+: a :: l then some 0 else (find? needle l).map (· + 1)

theorem not_prefix_drop_of_find?_eq_none {l : List α} (h : find? needle l = none) (i : Nat) :
    ¬ needle <+: l.drop i := by
  induction l generalizing i with
  | nil =>
    have hne : needle ≠ [] := by
      rintro rfl
      simp [find?] at h
    simpa using hne
  | cons a l ih =>
    have hhead : ¬ needle <+: a :: l := by
      intro hp
      simp [find?, hp] at h
    have htail : find? needle l = none := by simpa [find?, hhead] using h
    cases i with
    | zero => exact hhead
    | succ i => exact ih htail i

theorem find?_eq_none_of_suffix {l l' : List α} (h : find? needle l = none) (hs : l' <:+ l) :
    find? needle l' = none := by
  induction l with
  | nil => rwa [List.suffix_nil.mp hs]
  | cons a l ih =>
    rcases List.suffix_cons_iff.mp hs with rfl | hs
    · exact h
    · have hhead : ¬ needle <+: a :: l := not_prefix_drop_of_find?_eq_none h 0
      exact ih (by simpa [find?, hhead] using h) hs

/-- The first occurrence lies within the list, and stays the first one, whatever follows. -/
theorem find?_eq_some_spec {l : List α} {i : Nat} (h : find? needle l = some i) :
    i + needle.length ≤ l.length ∧ ∀ t, find? needle (l ++ t) = some i := by
  induction l generalizing i with
  | nil =>
    have hne : needle = [] := by
      by_contra hne
      simp [find?, hne] at h
    have hi : i = 0 := by simpa [find?, hne] using h.symm
    refine ⟨by simp [hi, hne], fun t => ?_⟩
    cases t with
    | nil => exact h
    | cons a t => simp [find?, hne, hi]
  | cons a l ih =>
    by_cases hhead : needle <+: a :: l
    · have hi : i = 0 := by simpa [find?, hhead] using h.symm
      have hlen := hhead.length_le
      refine ⟨by omega, fun t => ?_⟩
      have hhead' : needle <+: a :: (l ++ t) := hhead.trans (List.prefix_append (a :: l) t)
      simp [find?, hhead', hi]
    · simp only [find?, if_neg hhead, Option.map_eq_some_iff] at h
      obtain ⟨j, hj, rfl⟩ := h
      obtain ⟨hlen, happend⟩ := ih hj
      refine ⟨by rw [List.length_cons]; omega, fun t => ?_⟩
      -- the needle fits into `a :: l`, so that what follows cannot complete it at `a`
      have hhead' : ¬ needle <+: a :: (l ++ t) := by grind [List.prefix_of_prefix_length_le]
      simp [find?, hhead', happend]

theorem find?_append_of_not_prefix {a l : List α}
    (h : ∀ i < a.length, ¬ needle <+: a.drop i ++ l) :
    find? needle (a ++ l) = (find? needle l).map (· + a.length) := by
  induction a with
  | nil => simp
  | cons x a ih =>
    have hhead : ¬ needle <+: x :: (a ++ l) := h 0 (by simp)
    have htail := ih fun i hi => h (i + 1) (by simpa using hi)
    simp only [List.cons_append, find?, if_neg hhead, htail, Option.map_map, List.length_cons]
    congr 1

/-- **A text without the needle can be cut** where no longer end of it begins the needle: the rest
alone decides where the needle occurs once more text has come. -/
theorem find?_cut {a b : List α} (hnone : find? needle (a ++ b) = none)
    (hlong : ∀ s, s <:+ a ++ b → b.length < s.length → s.length < needle.length → ¬ s <+: needle)
    (t : List α) :
    find? needle (a ++ b ++ t) = (find? needle (b ++ t)).map (· + a.length) := by
  rw [List.append_assoc]
  apply find?_append_of_not_prefix
  intro i hi hp
  rw [← List.append_assoc] at hp
  have hdrop : a.drop i ++ b = (a ++ b).drop i := (List.drop_append_of_le_length hi.le).symm
  have hinside : ¬ needle <+: a.drop i ++ b := by
    rw [hdrop]
    exact not_prefix_drop_of_find?_eq_none hnone i
  rcases prefix_append_iff.mp hp with hp | ⟨q, hq, -⟩
  · exact hinside hp
  · have hsuffix : a.drop i ++ b <:+ a ++ b := by grind
    have hqne : q ≠ [] := by grind
    have hqpos : 0 < q.length := List.length_pos_iff.mpr hqne
    have hlen : needle.length = (a.drop i ++ b).length + q.length := by rw [hq, List.length_append]
    refine hlong _ hsuffix ?_ (by omega) (hq ▸ List.prefix_append _ _)
    rw [List.length_append, List.length_drop]
    omega

end Find

/-! ## Trimming -/

section Trim

variable {blank : α → Bool} {l l' : List α}

theorem dropWhile_prefix_dropWhile (h : l <+: l') : l.dropWhile blank <+: l'.dropWhile blank := by
  obtain ⟨t, rfl⟩ := h
  induction l with
  | nil => exact List.nil_prefix
  | cons a l ih =>
    by_cases ha : blank a = true
    · simpa [ha] using ih
    · simp [ha]

theorem rdropWhile_prefix_rdropWhile (h : l <+: l') :
    l.rdropWhile blank <+: l'.rdropWhile blank := by
  obtain ⟨t, rfl⟩ := h
  induction t using List.reverseRecOn with
  | nil => simp
  | append_singleton t x ih =>
    rw [← List.append_assoc]
    by_cases hx : blank x = true
    · rwa [List.rdropWhile_concat_pos _ _ _ hx]
    · rw [List.rdropWhile_concat_neg _ _ _ hx, List.append_assoc]
      exact (List.rdropWhile_prefix _ _).trans (List.prefix_append _ _)

theorem rdropWhile_dropWhile_concat {x : α} (hx : blank x = true) :
    ((l ++ [x]).dropWhile blank).rdropWhile blank = (l.dropWhile blank).rdropWhile blank := by
  rw [List.dropWhile_append]
  by_cases hl : (l.dropWhile blank).isEmpty = true
  · simp [hx, List.isEmpty_iff.mp hl]
  · rw [if_neg hl, List.rdropWhile_concat_pos _ _ _ hx]

end Trim

/-! ## Lines -/

section Lines

variable [DecidableEq α] (stop : α)

/-- The text up to and with its first `stop`. -/
def takeLine : List α → List α
  | [] => []
  | a :: l => if a = stop then [a] else a :: takeLine l

/-- The text after its first `stop`. -/
def dropLine : List α → List α
  | [] => []
  | a :: l => if a = stop then l else dropLine l

/-- The lines of a text, each with its `stop`; the last one may lack it. -/
def cutLines : List α → List (List α)
  | [] => []
  | a :: l =>
    if a = stop then [a] :: cutLines l
    else match cutLines l with
      | [] => [[a]]
      | line :: lines => (a :: line) :: lines

variable {stop}

theorem cutLines_cons (a : α) (l : List α) :
    cutLines stop (a :: l) = takeLine stop (a :: l) :: cutLines stop (dropLine stop (a :: l)) := by
  induction l generalizing a with
  | nil => by_cases ha : a = stop <;> simp [cutLines, takeLine, dropLine, ha]
  | cons b l ih =>
    by_cases ha : a = stop
    · simp [cutLines, takeLine, dropLine, ha]
    · have htake : takeLine stop (a :: b :: l) = a :: takeLine stop (b :: l) := by
        rw [takeLine, if_neg ha]
      have hdrop : dropLine stop (a :: b :: l) = dropLine stop (b :: l) := by
        rw [dropLine, if_neg ha]
      rw [cutLines, if_neg ha, ih b, htake, hdrop]

theorem cutLines_of_ne_nil {l : List α} (h : l ≠ []) :
    cutLines stop l = takeLine stop l :: cutLines stop (dropLine stop l) := by
  cases l with
  | nil => exact absurd rfl h
  | cons a l => exact cutLines_cons a l

theorem ne_nil_of_mem_cutLines {l line : List α} (h : line ∈ cutLines stop l) : line ≠ [] := by
  induction l generalizing line with
  | nil => cases h
  | cons a l ih =>
    rw [cutLines] at h
    split at h
    · grind
    · grind

theorem line_append {l : List α} (h : stop ∉ l) (t : List α) :
    takeLine stop (l ++ t) = l ++ takeLine stop t ∧ dropLine stop (l ++ t) = dropLine stop t := by
  induction l with
  | nil => exact ⟨rfl, rfl⟩
  | cons a l ih =>
    rw [List.mem_cons, not_or] at h
    simp only [List.cons_append, takeLine, dropLine, if_neg (Ne.symm h.1), ih h.2, and_self]

theorem cutLines_append_stop {l : List α} (h : stop ∉ l) (t : List α) :
    cutLines stop (l ++ stop :: t) = (l ++ [stop]) :: cutLines stop t := by
  obtain ⟨htake, hdrop⟩ := line_append h (stop :: t)
  rw [cutLines_of_ne_nil (by simp), htake, hdrop, takeLine, dropLine, if_pos rfl, if_pos rfl]

end Lines

end CodexRouter.Lib
