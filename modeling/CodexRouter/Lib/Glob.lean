import Mathlib.Tactic

set_option autoImplicit false

/-! # Globs

A glob is a list of items: any text, any one letter, or a letter that stands for all the letters
with the same fold (their lower case, say). Matching cuts a text where a glob is cut.
-/

namespace CodexRouter.Lib

inductive GlobItem (α : Type)
  | anyText
  | anyOne
  | literal (letter : α)
deriving DecidableEq

variable {α : Type} [DecidableEq α]

def globMatches (fold : α → α) : List (GlobItem α) → List α → Bool
  | [], text => text.isEmpty
  | .anyText :: items, text => text.tails.any (globMatches fold items)
  | .anyOne :: items, text =>
    match text with
    | [] => false
    | _ :: rest => globMatches fold items rest
  | .literal letter :: items, text =>
    match text with
    | [] => false
    | first :: rest => fold letter = fold first && globMatches fold items rest

variable {fold : α → α}

theorem globMatches_anyText {items : List (GlobItem α)} {text : List α} :
    globMatches fold (.anyText :: items) text = true
      ↔ ∃ before after, text = before ++ after ∧ globMatches fold items after = true := by
  simp only [globMatches, List.any_eq_true, List.mem_tails]
  constructor
  · rintro ⟨after, ⟨before, rfl⟩, hmatches⟩
    exact ⟨before, after, rfl, hmatches⟩
  · rintro ⟨before, after, rfl, hmatches⟩
    exact ⟨after, ⟨before, rfl⟩, hmatches⟩

/-- A text matches two globs in sequence if it can be cut so that each part matches its glob. -/
theorem globMatches_append {items items' : List (GlobItem α)} {text : List α} :
    globMatches fold (items ++ items') text = true
      ↔ ∃ before after, text = before ++ after ∧ globMatches fold items before = true
        ∧ globMatches fold items' after = true := by
  induction items generalizing text with
  | nil =>
    constructor
    · intro h
      exact ⟨[], text, rfl, rfl, h⟩
    · rintro ⟨before, after, rfl, hbefore, hafter⟩
      have hnil : before = [] := by simpa [globMatches] using hbefore
      rw [hnil]
      exact hafter
  | cons item items ih =>
    cases item with
    | anyText =>
      rw [List.cons_append, globMatches_anyText]
      constructor
      · rintro ⟨skipped, rest, rfl, hrest⟩
        obtain ⟨before, after, rfl, hbefore, hafter⟩ := ih.mp hrest
        refine ⟨skipped ++ before, after, by simp, ?_, hafter⟩
        exact globMatches_anyText.mpr ⟨skipped, before, rfl, hbefore⟩
      · rintro ⟨before, after, rfl, hbefore, hafter⟩
        obtain ⟨skipped, rest, rfl, hrest⟩ := globMatches_anyText.mp hbefore
        exact ⟨skipped, rest ++ after, by simp, ih.mpr ⟨rest, after, rfl, hrest, hafter⟩⟩
    | anyOne =>
      cases text with
      | nil =>
        constructor
        · nofun
        · rintro ⟨before, after, hcut, hbefore, _⟩
          rw [(List.append_eq_nil_iff.mp hcut.symm).1] at hbefore
          cases hbefore
      | cons first rest =>
        show globMatches fold (items ++ items') rest = true ↔ _
        rw [ih]
        constructor
        · rintro ⟨before, after, rfl, hbefore, hafter⟩
          exact ⟨first :: before, after, rfl, hbefore, hafter⟩
        · rintro ⟨before, after, hcut, hbefore, hafter⟩
          cases before with
          | nil => cases hbefore
          | cons letter before =>
            obtain ⟨_, hrest⟩ := List.cons.inj hcut
            exact ⟨before, after, hrest, hbefore, hafter⟩
    | literal letter =>
      cases text with
      | nil =>
        constructor
        · nofun
        · rintro ⟨before, after, hcut, hbefore, _⟩
          rw [(List.append_eq_nil_iff.mp hcut.symm).1] at hbefore
          cases hbefore
      | cons first rest =>
        show (decide (fold letter = fold first)
          && globMatches fold (items ++ items') rest) = true ↔ _
        rw [Bool.and_eq_true, ih]
        constructor
        · rintro ⟨hfirst, before, after, rfl, hbefore, hafter⟩
          exact ⟨first :: before, after, rfl,
            Bool.and_eq_true_iff.mpr ⟨hfirst, hbefore⟩, hafter⟩
        · rintro ⟨before, after, hcut, hbefore, hafter⟩
          cases before with
          | nil => cases hbefore
          | cons other before =>
            obtain ⟨rfl, hrest⟩ := List.cons.inj hcut
            obtain ⟨hfirst, hbefore⟩ := Bool.and_eq_true_iff.mp hbefore
            exact ⟨hfirst, before, after, hrest, hbefore, hafter⟩

/-- Letters match their own text, up to the fold. -/
theorem globMatches_literals {letters text : List α} :
    globMatches fold (letters.map .literal) text = true ↔ letters.map fold = text.map fold := by
  induction letters generalizing text with
  | nil => cases text <;> simp [globMatches]
  | cons letter letters ih =>
    cases text with
    | nil => simp [globMatches]
    | cons first rest =>
      show (decide (fold letter = fold first)
        && globMatches fold (letters.map .literal) rest) = true ↔ _
      rw [Bool.and_eq_true, ih, decide_eq_true_eq, List.map_cons, List.map_cons,
        List.cons.injEq]

/-- Only a glob of texts matches the empty text. -/
theorem ne_nil_of_globMatches {items : List (GlobItem α)} {text : List α}
    (h : globMatches fold items text = true) (hitem : ∃ item ∈ items, item ≠ .anyText) :
    text ≠ [] := by
  induction items generalizing text with
  | nil =>
    obtain ⟨_, hitem, _⟩ := hitem
    cases hitem
  | cons item items ih =>
    cases item with
    | anyText =>
      obtain ⟨before, after, rfl, hafter⟩ := globMatches_anyText.mp h
      obtain ⟨other, hother, hne⟩ := hitem
      have hmem : other ∈ items := by grind
      intro hnil
      exact ih hafter ⟨other, hmem, hne⟩ (List.append_eq_nil_iff.mp hnil).2
    | anyOne | literal =>
      rintro rfl
      cases h

/-- At least one letter, and any text after it. -/
theorem globMatches_nonempty {text : List α} :
    globMatches fold [.anyOne, .anyText] text = true ↔ text ≠ [] := by
  cases text with
  | nil => simp [globMatches]
  | cons first rest => simp [globMatches]

end CodexRouter.Lib
