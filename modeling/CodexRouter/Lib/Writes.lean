import CodexRouter.Lib.Table

set_option autoImplicit false

/-! # Writes to a map, replayed

A list of writes fixes the value of every key it touches, whatever the map held before, and
leaves the others alone. So replaying the writes over their own result changes nothing.
-/

namespace CodexRouter.Lib

inductive Write (K V : Type)
  | put (k : K) (v : V)
  | del (k : K)
  | clear

variable {K V : Type} [DecidableEq K]

def Write.act (w : Write K V) (f : K → Option V) : K → Option V :=
  match w with
  | .put k v => fun j => if j = k then some v else f j
  | .del k => fun j => if j = k then none else f j
  | .clear => fun _ => none

def acts (ws : List (Write K V)) (f : K → Option V) : K → Option V :=
  ws.foldl (fun f w => w.act f) f

@[simp] theorem acts_nil (f : K → Option V) : acts [] f = f := rfl

@[simp] theorem acts_cons (w : Write K V) (ws : List (Write K V)) (f : K → Option V) :
    acts (w :: ws) f = acts ws (w.act f) := rfl

theorem acts_append (ws vs : List (Write K V)) (f : K → Option V) :
    acts (ws ++ vs) f = acts vs (acts ws f) :=
  List.foldl_append

/-- One write keeps the value of a key or fixes it. -/
theorem Write.keeps_or_fixes (w : Write K V) (k : K) :
    (∀ f, w.act f k = f k) ∨ ∃ v, ∀ f, w.act f k = v := by
  cases w with
  | put j v =>
    by_cases hk : k = j
    · exact Or.inr ⟨some v, fun f => by simp [Write.act, hk]⟩
    · exact Or.inl fun f => by simp [Write.act, hk]
  | del j =>
    by_cases hk : k = j
    · exact Or.inr ⟨none, fun f => by simp [Write.act, hk]⟩
    · exact Or.inl fun f => by simp [Write.act, hk]
  | clear => exact Or.inr ⟨none, fun f => rfl⟩

/-- So does a list of writes. -/
theorem acts_keeps_or_fixes (ws : List (Write K V)) (k : K) :
    (∀ f, acts ws f k = f k) ∨ ∃ v, ∀ f, acts ws f k = v := by
  induction ws with
  | nil => exact Or.inl fun f => rfl
  | cons w ws ih =>
    rcases ih with hkeep | ⟨v, hfix⟩
    · rcases w.keeps_or_fixes k with hw | ⟨v, hw⟩
      · exact Or.inl fun f => by rw [acts_cons, hkeep, hw]
      · exact Or.inr ⟨v, fun f => by rw [acts_cons, hkeep, hw]⟩
    · exact Or.inr ⟨v, fun f => by rw [acts_cons, hfix]⟩

/-- **Replay.** Writes over their own result change nothing. -/
theorem acts_idem (ws : List (Write K V)) (f : K → Option V) :
    acts ws (acts ws f) = acts ws f := by
  funext k
  rcases acts_keeps_or_fixes ws k with hkeep | ⟨v, hfix⟩
  · exact hkeep (acts ws f)
  · rw [hfix, hfix]

namespace Table

theorem get?_insert_eq_act (t : Table K V) (k : K) (v : V) :
    (t.insert k v).get? = (Write.put k v).act t.get? :=
  funext fun j => get?_insert t k j v

theorem get?_erase_eq_act (t : Table K V) (k : K) :
    (t.erase k).get? = (Write.del k).act t.get? :=
  funext fun j => get?_erase t k j

theorem acts_puts {es : List (K × V)} (hn : (es.map Prod.fst).Nodup) (f : K → Option V) (k : K) :
    acts (es.map fun e => .put e.1 e.2) f k
      = ((es.find? fun e => e.1 = k).map Prod.snd).or (f k) := by
  induction es generalizing f with
  | nil => simp
  | cons e es ih =>
    rw [List.map_cons, List.nodup_cons] at hn
    rw [List.map_cons, acts_cons, ih hn.2]
    by_cases hk : e.1 = k
    · -- the key does not come again
      have hnone : es.find? (fun e => decide (e.1 = k)) = none :=
        List.find?_eq_none.mpr fun a ha hak => by
          rw [decide_eq_true_iff] at hak
          exact hn.1 (hk ▸ hak ▸ List.mem_map_of_mem ha)
      simp [hnone, hk, Write.act]
    · simp [hk, Ne.symm hk, Write.act]

/-- A table is what putting its entries makes of nothing. -/
theorem acts_entries (t : Table K V) :
    acts (t.entries.map fun e => .put e.1 e.2) (fun _ => none) = t.get? := by
  funext k
  rw [acts_puts t.nodup, get?, Option.or_none]

/-- Tables with the same contents have the same size. -/
theorem size_eq_of_get? {s t : Table K V} (h : s.get? = t.get?) : s.size = t.size := by
  have hkeys : ∀ k, k ∈ s.keys ↔ k ∈ t.keys := fun k => by
    rw [← contains_iff_mem_keys, ← contains_iff_mem_keys, contains, contains, h]
  have hperm : s.keys.Perm t.keys := (List.perm_ext_iff_of_nodup s.nodup t.nodup).mpr hkeys
  simpa [keys, size] using hperm.length_eq

end Table

/-! ## Checked writes

A bounded table refuses to give a present key another value and, after a put, to hold more
entries than `max`. A pass stops at the first check that fails and leaves what it wrote until
then, an entry too many included. -/

inductive Checked (K V E : Type)
  | write (w : Write K V)
  | fail (e : E)

section Checked

variable {E : Type} [DecidableEq V] (max : Nat) (conflict capacity : E)

def checkedPass : Table K V → List (Checked K V E) → Table K V × Option E
  | t, [] => (t, none)
  | t, .fail e :: _ => (t, some e)
  | t, .write (.del k) :: cs => checkedPass (t.erase k) cs
  | _, .write .clear :: cs => checkedPass Table.empty cs
  | t, .write (.put k v) :: cs =>
    if (t.get? k).any fun old => old ≠ v then (t, some conflict)
    else if (t.insert k v).size > max then (t.insert k v, some capacity)
    else checkedPass (t.insert k v) cs

variable {max conflict capacity}

theorem checkedPass_append (t : Table K V) (cs ds : List (Checked K V E)) :
    checkedPass max conflict capacity t (cs ++ ds)
      = match checkedPass max conflict capacity t cs with
        | (u, none) => checkedPass max conflict capacity u ds
        | (u, some e) => (u, some e) := by
  induction cs generalizing t with
  | nil => rfl
  | cons c cs ih =>
    cases c with
    | fail e => rfl
    | write w =>
      cases w with
      | del k => exact ih _
      | clear => exact ih _
      | put k v =>
        simp only [List.cons_append, checkedPass]
        split
        · rfl
        · grind

/-- A pass that goes through has made all the writes, and no check failed. -/
theorem checkedPass_ok {t u : Table K V} {cs : List (Checked K V E)}
    (h : checkedPass max conflict capacity t cs = (u, none)) :
    ∃ ws, cs = ws.map .write ∧ u.get? = acts ws t.get? := by
  induction cs generalizing t with
  | nil =>
    simp only [checkedPass, Prod.mk.injEq, and_true] at h
    exact ⟨[], rfl, by simp [h]⟩
  | cons c cs ih =>
    cases c with
    | fail e => simp [checkedPass] at h
    | write w =>
      cases w with
      | put k v =>
        simp only [checkedPass] at h
        split at h
        · simp at h
        · split at h
          · simp at h
          · obtain ⟨ws, hcs, hu⟩ := ih h
            refine ⟨.put k v :: ws, by simp [hcs], ?_⟩
            rw [hu, Table.get?_insert_eq_act, acts_cons]
      | del k =>
        obtain ⟨ws, hcs, hu⟩ := ih h
        refine ⟨.del k :: ws, by simp [hcs], ?_⟩
        rw [hu, Table.get?_erase_eq_act, acts_cons]
      | clear =>
        obtain ⟨ws, hcs, hu⟩ := ih h
        exact ⟨.clear :: ws, by simp [hcs], by rw [hu]; rfl⟩

/-- The second pass over a list that failed, side by side with the first: `ws` are the writes
both have made so far. -/
theorem checkedPass_fails_beside {b u c : Table K V} {e : E} {cs : List (Checked K V E)}
    {ws : List (Write K V)} {f : K → Option V}
    (hfirst : checkedPass max conflict capacity b cs = (u, some e)) (hb : b.get? = acts ws f)
    (hc : c.get? = acts ws u.get?) : (checkedPass max conflict capacity c cs).2 ≠ none := by
  induction cs generalizing b c ws with
  | nil => simp [checkedPass] at hfirst
  | cons chk cs ih =>
    cases chk with
    | fail e' => simp [checkedPass]
    | write w =>
      have hb' : w.act b.get? = acts (ws ++ [w]) f := by simp [acts_append, hb]
      have hc' : w.act c.get? = acts (ws ++ [w]) u.get? := by simp [acts_append, hc]
      cases w with
      | del k =>
        exact ih hfirst (by rw [Table.get?_erase_eq_act, hb'])
          (by rw [Table.get?_erase_eq_act, hc'])
      | clear => exact ih hfirst hb' hc'
      | put k v =>
        rw [← Table.get?_insert_eq_act] at hb' hc'
        simp only [checkedPass] at hfirst ⊢
        split at hfirst
        · -- the value in the way is still in the way
          rename_i hconf
          simp only [Prod.mk.injEq, Option.some.injEq] at hfirst
          have hcb : c.get? = b.get? := by rw [hc, ← hfirst.1, hb, acts_idem]
          rw [hcb, if_pos hconf]
          simp
        · split
          · simp
          · split at hfirst
            · -- the entry too many is there again
              rename_i hfull
              simp only [Prod.mk.injEq, Option.some.injEq] at hfirst
              have hcb : (c.insert k v).get? = (b.insert k v).get? := by
                rw [hc', ← hfirst.1, hb', acts_idem]
              rw [Table.size_eq_of_get? hcb, if_pos hfull]
              simp
            · grind

/-- **A list that failed fails again** on what the failed pass left. -/
theorem checkedPass_fails_again {t u : Table K V} {e : E} {cs : List (Checked K V E)}
    (h : checkedPass max conflict capacity t cs = (u, some e)) :
    (checkedPass max conflict capacity u cs).2 ≠ none :=
  checkedPass_fails_beside h (acts_nil t.get?).symm (acts_nil u.get?).symm

end Checked

end CodexRouter.Lib
