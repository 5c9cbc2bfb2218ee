import Mathlib.Tactic

set_option autoImplicit false

/-! # Fallible computations

A sequence of steps in `Except` succeeds exactly when each step does, and `List.mapM` in
`Except` or `Option`, which stops at the first failure, exactly when the function succeeds
everywhere.
-/

namespace CodexRouter.Lib

variable {ε α β : Type} {f : α → Except ε β}

theorem bind_eq_ok_iff {x : Except ε α} {b : β} :
    x >>= f = .ok b ↔ ∃ a, x = .ok a ∧ f a = .ok b := by
  cases x with
  | error e => exact ⟨fun h => (by cases h), fun ⟨_, h, _⟩ => (by cases h)⟩
  | ok a =>
    constructor
    · intro h
      exact ⟨a, rfl, h⟩
    · rintro ⟨_, h, hf⟩
      cases h
      exact hf

theorem toOption_eq_some_iff {x : Except ε α} {a : α} : x.toOption = some a ↔ x = .ok a := by
  cases x <;> simp [Except.toOption]

theorem mapError_eq_ok_iff {ε' : Type} {g : ε → ε'} {x : Except ε α} {a : α} :
    x.mapError g = .ok a ↔ x = .ok a := by
  cases x <;> simp [Except.mapError]

theorem mapM_eq_ok_iff {l : List α} {ys : List β} :
    l.mapM f = .ok ys ↔ List.Forall₂ (fun a b => f a = .ok b) l ys := by
  induction l generalizing ys with
  | nil =>
    constructor
    · intro h; cases h; exact .nil
    · intro h; cases h; rfl
  | cons a l ih =>
    simp only [List.mapM_cons, bind_eq_ok_iff, ih]
    constructor
    · rintro ⟨b, hf, bs, hrest, h⟩
      cases h
      exact .cons hf hrest
    · rintro (_ | ⟨hf, hrest⟩)
      exact ⟨_, hf, _, hrest, rfl⟩

/-- In two lists that are related, every element of the first has one of the second. -/
theorem exists_mem_of_forall₂ {R : α → β → Prop} {l : List α} {ys : List β}
    (h : List.Forall₂ R l ys) {a : α} (ha : a ∈ l) : ∃ b ∈ ys, R a b := by
  induction h with
  | nil => cases ha
  | cons hab _ ih =>
    rcases List.mem_cons.mp ha with rfl | ha
    · exact ⟨_, List.mem_cons_self, hab⟩
    · obtain ⟨b, hb, hab⟩ := ih ha
      exact ⟨b, List.mem_cons_of_mem _ hb, hab⟩

/-- Every result comes from an element. -/
theorem mem_of_mapM_eq_ok {l : List α} {ys : List β} (h : l.mapM f = .ok ys) {b : β}
    (hb : b ∈ ys) : ∃ a ∈ l, f a = .ok b :=
  exists_mem_of_forall₂ (mapM_eq_ok_iff.mp h).flip hb

/-- A function that changes nothing where it succeeds changes nothing in a list. -/
theorem eq_of_mapM_eq_ok {g : α → Except ε α} {l ys : List α} (h : l.mapM g = .ok ys)
    (hg : ∀ a ∈ l, ∀ b, g a = .ok b → b = a) : ys = l := by
  have hall := mapM_eq_ok_iff.mp h
  clear h
  induction hall with
  | nil => rfl
  | cons hf _ ih =>
    rw [hg _ List.mem_cons_self _ hf, ih fun a ha => hg a (List.mem_cons_of_mem _ ha)]

theorem exists_mapM_eq_ok {l : List α} (h : ∀ a ∈ l, ∃ b, f a = .ok b) :
    ∃ ys, l.mapM f = .ok ys := by
  induction l with
  | nil => exact ⟨[], rfl⟩
  | cons a l ih =>
    obtain ⟨b, hb⟩ := h a List.mem_cons_self
    obtain ⟨bs, hbs⟩ := ih fun a ha => h a (List.mem_cons_of_mem _ ha)
    exact ⟨b :: bs, by rw [List.mapM_cons, hb, hbs]; rfl⟩

theorem mapM_eq_some_iff {g : α → Option β} {l : List α} {ys : List β} :
    l.mapM g = some ys ↔ List.Forall₂ (fun a b => g a = some b) l ys := by
  induction l generalizing ys with
  | nil =>
    constructor
    · intro h; cases h; exact .nil
    · intro h; cases h; rfl
  | cons a l ih =>
    simp only [List.mapM_cons, Option.bind_eq_bind, Option.bind_eq_some_iff, ih]
    constructor
    · rintro ⟨b, hg, bs, hrest, h⟩
      cases h
      exact .cons hg hrest
    · rintro (_ | ⟨hg, hrest⟩)
      exact ⟨_, hg, _, hrest, rfl⟩

end CodexRouter.Lib
