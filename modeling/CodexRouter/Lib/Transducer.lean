import Mathlib.Tactic

set_option autoImplicit false

/-! # Machines that emit along their input

`step : S → A → S × Option B` reads one symbol and may emit one result. The input may arrive
in pieces: the state carries over from one piece to the next, and the results come in groups,
one for each piece. Cutting the input elsewhere regroups the results and does nothing else.

A machine may also take a whole piece at once and hold some of it back. `outputs` are then its
outputs on the pieces and at the end of the input.
-/

namespace CodexRouter.Lib

variable {S A B : Type} (step : S → A → S × Option B)

/-- The state after some input. -/
def after : S → List A → S
  | s, [] => s
  | s, a :: as => after (step s a).1 as

/-- What is emitted along some input. -/
def emitted : S → List A → List B
  | _, [] => []
  | s, a :: as => (step s a).2.toList ++ emitted (step s a).1 as

/-- What is emitted along each piece of the input. -/
def groups : S → List (List A) → List (List B)
  | _, [] => []
  | s, piece :: pieces => emitted step s piece :: groups (after step s piece) pieces

theorem emitted_append (s : S) (as bs : List A) :
    emitted step s (as ++ bs) = emitted step s as ++ emitted step (after step s as) bs := by
  induction as generalizing s with
  | nil => rfl
  | cons a as ih => simp [emitted, after, ih]

/-- **Cutting the input regroups the results.** -/
theorem flatten_groups (s : S) (pieces : List (List A)) :
    (groups step s pieces).flatten = emitted step s pieces.flatten := by
  induction pieces generalizing s with
  | nil => rfl
  | cons piece pieces ih => simp [groups, ih, emitted_append]

/-- The input can be cut between any two results. -/
theorem exists_cut {s : S} {as : List A} {l₁ l₂ : List B}
    (h : emitted step s as = l₁ ++ l₂) :
    ∃ as₁ as₂, as = as₁ ++ as₂ ∧ emitted step s as₁ = l₁
      ∧ emitted step (after step s as₁) as₂ = l₂ := by
  induction as generalizing s l₁ with
  | nil =>
    obtain ⟨rfl, rfl⟩ : l₁ = [] ∧ l₂ = [] := by simpa [emitted] using h.symm
    exact ⟨[], [], rfl, rfl, rfl⟩
  | cons a as ih =>
    cases l₁ with
    | nil => exact ⟨[], a :: as, rfl, rfl, h⟩
    | cons b l₁ =>
      -- the first symbol emits `b` or nothing
      rw [emitted] at h
      cases hb : (step s a).2 with
      | none =>
        rw [hb] at h
        obtain ⟨as₁, as₂, rfl, h₁, h₂⟩ := ih h
        exact ⟨a :: as₁, as₂, rfl, by simp [emitted, hb, h₁], h₂⟩
      | some c =>
        rw [hb] at h
        simp only [Option.toList_some, List.cons_append, List.nil_append,
          List.cons.injEq] at h
        obtain ⟨as₁, as₂, rfl, h₁, h₂⟩ := ih h.2
        exact ⟨a :: as₁, as₂, rfl, by simp [emitted, hb, h₁, h.1], h₂⟩

/-! ## Machines that take a piece at once -/

section Pieces

variable {P O : Type} (push : P → List A → P × O) (finish : P → O)

def outputs : P → List (List A) → List O
  | p, [] => [finish p]
  | p, piece :: pieces => (push p piece).2 :: outputs (push p piece).1 pieces

variable {push finish}

/-- **The cuts do not show.** Let `due p t` be what is still to come at `p` when `t` is the rest of
the input. If each piece gives the beginning of what is due and the end gives all of it, then the
outputs together are what was due at the start. -/
theorem flatMap_outputs {Inv : P → Prop} {observe : O → List B} {due : P → List A → List B}
    (hinv : ∀ p piece, Inv p → Inv (push p piece).1)
    (hpush : ∀ p piece, Inv p → ∀ t,
      due p (piece ++ t) = observe (push p piece).2 ++ due (push p piece).1 t)
    (hfinish : ∀ p, Inv p → due p [] = observe (finish p))
    {p : P} (hp : Inv p) (pieces : List (List A)) :
    (outputs push finish p pieces).flatMap observe = due p pieces.flatten := by
  induction pieces generalizing p with
  | nil => simp [outputs, hfinish p hp]
  | cons piece pieces ih =>
    rw [outputs, List.flatMap_cons, List.flatten_cons, hpush p piece hp, ih (hinv p piece hp)]

theorem forall_mem_outputs {Q : O → Prop} (hpush : ∀ p piece, Q (push p piece).2)
    (hfinish : ∀ p, Q (finish p)) (p : P) (pieces : List (List A)) :
    ∀ out ∈ outputs push finish p pieces, Q out := by
  induction pieces generalizing p with
  | nil =>
    intro out hout
    exact List.mem_singleton.mp hout ▸ hfinish p
  | cons piece pieces ih =>
    intro out hout
    rcases List.mem_cons.mp hout with rfl | hout
    · exact hpush p piece
    · exact ih _ out hout

end Pieces

end CodexRouter.Lib
