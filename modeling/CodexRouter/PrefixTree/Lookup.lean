import CodexRouter.PrefixTree.Insert

set_option autoImplicit false

/-! # Matching in the prefix tree

Both matches walk down the tree as far as the text goes. `Walked T n text r` says what the walk
has found when it goes through nodes with a tenant in `T` only: the longest prefix of the text
that one of them has stored. The matches write timestamps and caches on the node they end on,
which changes no stored text (`Kept`).
-/

namespace CodexRouter.PrefixTree

open Lib

variable {n m : Node} {t : TenantId} {c : Char} {T : Set TenantId}

/-! ## The walk -/

theorem Good.at_path (h : Good n) {path : Path} (hget : n.get? path = some m) :
    Good m ∧ ∀ t, m.has t = true → n.has t = true := by
  induction path generalizing n with
  | nil => cases hget; exact ⟨h, fun _ => id⟩
  | cons c path ih =>
    obtain ⟨k, hk, hget⟩ := Option.bind_eq_some_iff.mp hget
    obtain ⟨hm, hhas⟩ := ih (h.child hk) hget
    exact ⟨hm, fun t ht => (h.edge hk).kept t (hhas t ht)⟩

/-- What the walk has found: the node it ends on, and the longest prefix. -/
structure Walked (T : Set TenantId) (n : Node) (text : Text) (r : Path × Nat) : Prop where
  ends : ∃ m, n.get? r.1 = some m ∧
    (r = ([], 0) ∨ r.1 ≠ [] ∧ (∃ t ∈ T, m.has t = true) ∧
      ∀ t, m.has t = true → Holds t n (text.take r.2))
  stays : r.2 ≤ text.length
  longest : ∀ t ∈ T, ∀ p, p <+: text → Holds t n p → p.length ≤ r.2

/-- The walk goes no further when no text of `T` starts like this one. -/
theorem Walked.stop {rest : Text} (hnone : ∀ t ∈ T, ∀ p, ¬ Holds t n (c :: p)) :
    Walked T n (c :: rest) ([], 0) := by
  refine ⟨⟨n, rfl, Or.inl rfl⟩, Nat.zero_le _, fun t ht p hp hholds => ?_⟩
  cases p with
  | nil => exact Nat.zero_le _
  | cons d p =>
    rw [(List.cons_prefix_cons.mp hp).1] at hholds
    exact absurd hholds (hnone t ht p)

/-- Every text that starts like this one goes through the child. -/
theorem le_of_through {rest : Text} {k : Nat} (h : Good n) (hc : n.child? c = some m)
    (hle : ∀ t ∈ T, ∀ p, p <+: c :: rest → Through t m p → p.length ≤ k) :
    ∀ t ∈ T, ∀ p, p <+: c :: rest → Holds t n p → p.length ≤ k := by
  intro t ht p hp hholds
  cases p with
  | nil => exact Nat.zero_le _
  | cons d p =>
    obtain rfl := (List.cons_prefix_cons.mp hp).1
    exact hle t ht _ hp ((holds_cons_of_child h hc).mp hholds)

/-- The walk ends inside the text of a child. -/
theorem Walked.partway {s a b rest : Text} (h : Good n) (hc : n.child? c = some m)
    (htext : c :: rest = s ++ a) (hb : m.text.text = s ++ b)
    (hshared : commonLength (c :: rest) m.text.text = s.length) (hpart : b ≠ [])
    (hT : ∃ t ∈ T, m.has t = true) : Walked T n (c :: rest) ([c], s.length) := by
  constructor
  · refine ⟨m, by simp [Node.get?, hc], Or.inr ⟨by simp, hT, fun t ht => ?_⟩⟩
    refine .edge hc ht ?_
    rw [htext, List.take_left, hb]
    exact List.prefix_append s b
  · rw [htext, List.length_append]
    exact Nat.le_add_right _ _
  · refine le_of_through h hc ?_
    rintro t _ p hp ⟨-, hin | ⟨q, hq, -⟩⟩
    · exact hshared ▸ length_le_commonLength hp hin
    · -- the whole text of the child would be common, but `b` is not
      have hwhole : m.text.text <+: c :: rest := (hq ▸ List.prefix_append _ q).trans hp
      have hlen := length_le_commonLength hwhole (List.prefix_refl m.text.text)
      rw [hshared, hb, List.length_append] at hlen
      have := List.length_pos_iff.mpr hpart
      omega

/-- The walk goes through a child and on below it. -/
theorem Walked.through {a rest : Text} {r : Path × Nat} (h : Good n) (hc : n.child? c = some m)
    (htext : c :: rest = m.text.text ++ a) (hT : ∃ t ∈ T, m.has t = true)
    (hbelow : Walked T m a r) :
    Walked T n (c :: rest) (c :: r.1, m.text.text.length + r.2) := by
  have htake : (c :: rest).take (m.text.text.length + r.2) = m.text.text ++ a.take r.2 := by
    rw [htext, List.take_length_add_append]
  constructor
  · obtain ⟨k, hget, hends⟩ := hbelow.ends
    refine ⟨k, by simp [Node.get?, hc, hget], Or.inr ⟨by simp, ?_, fun t ht => ?_⟩⟩
    · rcases hends with hr | ⟨-, hk, -⟩
      · rw [hr] at hget
        cases hget
        exact hT
      · exact hk
    · have htm := ((h.child hc).at_path hget).2 t ht
      rw [htake]
      rcases hends with hr | ⟨-, -, hk⟩
      · rw [hr]
        exact .deeper hc htm (.nil m)
      · exact .deeper hc htm (hk t ht)
  · grind [cases Walked]
  · refine le_of_through h hc ?_
    rintro t ht p hp ⟨-, hin | ⟨q, rfl, hq⟩⟩
    · exact hin.length_le.trans (Nat.le_add_right _ _)
    · rw [htext] at hp
      have := hbelow.longest t ht q ((List.prefix_append_right_inj _).mp hp) hq
      rw [List.length_append]
      omega

/-- The walk finds the longest prefix of the text in what the tenants of `T` have stored. -/
theorem walked_walk {allowed : Node → Bool}
    (hallowed : ∀ m : Node, (∃ t, m.has t = true) →
      (allowed m = true ↔ ∃ t ∈ T, m.has t = true)) :
    ∀ (fuel : Nat) (n : Node) (text : Text), Good n → text.length ≤ fuel →
      Walked T n text (walk allowed fuel n text)
  | fuel, n, [], _, _ => by
      have hwalk : walk allowed fuel n [] = ([], 0) := by cases fuel <;> rfl
      rw [hwalk]
      refine ⟨⟨n, rfl, Or.inl rfl⟩, Nat.zero_le _, fun _ _ p hp _ => ?_⟩
      rw [List.prefix_nil.mp hp]
      exact Nat.zero_le _
  | 0, _, _ :: _, _, hfuel => absurd hfuel (by simp)
  | fuel + 1, n, c :: rest, h, hfuel => by
      cases hc : n.child? c with
      | none =>
        rw [walk, hc]
        refine Walked.stop fun t _ p hholds => ?_
        obtain ⟨m, hm, -⟩ := (holds_cons_iff h).mp hholds
        rw [hc] at hm
        cases hm
      | some matched =>
        have hT := hallowed matched (h.edge hc).carried
        rw [walk, hc]
        by_cases hin : allowed matched = true
        · obtain ⟨s, a, b, ha, hb, hshared, hpart⟩ :=
            commonLength_spec (c :: rest) matched.text.text
          have hcount : matched.text.charCount = s.length + b.length := by
            rw [matched.text.counted, hb, List.length_append]
          simp only [if_pos hin, sharedPrefixCount, hshared, hcount]
          by_cases hfull : b = []
          -- the whole text of the child is matched: on below it
          · rw [hfull, List.append_nil] at hb
            have hadvance : advanceByChars (c :: rest) s.length = a := by
              rw [advanceByChars, ha, List.drop_left]
            have hshort : a.length ≤ fuel := by grind [h.text_eq_cons]
            rw [if_pos (by rw [hfull]; rfl), hadvance, ← hb]
            exact Walked.through h hc (hb ▸ ha) (hT.mp hin)
              (walked_walk hallowed fuel matched a (h.child hc) hshort)
          · grind [Walked.partway]
        · simp only [if_neg hin]
          refine Walked.stop fun t ht p hholds => hin (hT.mpr ⟨t, ht, ?_⟩)
          exact ((holds_cons_of_child h hc).mp hholds).1

/-! ## Writes on the node a match ends on -/

/-- `n'` differs from `n` in timestamps and caches, and perhaps in its own tenants. -/
structure Kept (n n' : Node) : Prop where
  good : Good n'
  text : n'.text = n.text
  holds : ∀ t p, Holds t n' p ↔ Holds t n p
  used : ∀ t, n'.usedBelow t = n.usedBelow t

theorem Kept.refl (h : Good n) : Kept n n := ⟨h, rfl, fun _ _ => Iff.rfl, fun _ => rfl⟩

theorem Kept.setChild {m' : Node} (h : Good n) (hc : n.child? c = some m) (hm : Kept m m')
    (hhas : ∀ t, m'.has t = m.has t) : Kept n (n.setChild c m') := by
  have hedge : Edge n.tenants c m' := by
    have hold := h.edge hc
    refine ⟨by rw [hm.text]; exact hold.first, fun t ht => hold.kept t (hhas t ▸ ht), ?_⟩
    obtain ⟨t, ht⟩ := hold.carried
    exact ⟨t, hhas t ▸ ht⟩
  have hgood := h.setChild hedge hm.good
  refine ⟨hgood, rfl, fun t p => ?_, fun t => ?_⟩
  · cases p with
    | nil => exact ⟨fun _ => .nil _, fun _ => .nil _⟩
    | cons d p =>
      rw [holds_setChild h hgood]
      by_cases hd : d = c
      · rw [if_pos hd, hd, holds_cons_of_child h hc]
        simp [Through, hm.text, hhas, hm.holds]
      · rw [if_neg hd]
  · rw [usedBelow_setChild t h.keys, usedBelow_eq t h.keys hc, used_eq t m', used_eq t m, hm.text,
      hhas, hm.used]

theorem kept_modify {f : Node → Node} (h : Good n) {path : Path} (hget : n.get? path = some m)
    (hm : Kept m (f m)) (hhas : path ≠ [] → ∀ t, (f m).has t = m.has t) :
    Kept n (n.modify f path) := by
  induction path generalizing n with
  | nil => cases hget; exact hm
  | cons c path ih =>
    obtain ⟨k, hk, hget⟩ := Option.bind_eq_some_iff.mp hget
    rw [Node.modify, hk]
    have hbelow := ih (h.child hk) hget fun _ => hhas (by simp)
    refine Kept.setChild h hk hbelow fun t => ?_
    cases path with
    | nil => cases hget; exact hhas (by simp) t
    | cons d path =>
      obtain ⟨k', hk', -⟩ := Option.bind_eq_some_iff.mp hget
      rw [Node.modify, hk']
      rfl

/-! ## The two matches -/

theorem has_someTenant {first : Nat} (h : ∃ t, n.has t = true) :
    n.has (someTenant first n) = true := by
  obtain ⟨t, ht⟩ := h
  have hmem : t ∈ n.tenants.keys := Table.contains_iff_mem_keys.mp ht
  have hlt : first % n.tenants.keys.length < n.tenants.keys.length :=
    Nat.mod_lt _ (List.length_pos_of_mem hmem)
  rw [someTenant, List.getElem?_eq_getElem hlt]
  exact Table.contains_iff_mem_keys.mpr (List.getElem_mem hlt)

/-- A node with a tenant is matched with one of its tenants. -/
theorem has_matchedTenant {first : Nat} (h : ∃ t, n.has t = true) :
    n.has (matchedTenant first n) = true := by
  unfold matchedTenant
  cases n.lastTenant with
  | none => exact has_someTenant h
  | some t =>
    simp only
    split
    · assumption
    · exact has_someTenant h

theorem kept_touchMatched (t : TenantId) (epoch : Nat) (h : Good n) :
    Kept n (touchMatched t epoch n) := by
  unfold touchMatched
  split
  · exact ⟨(h.setLastTenant t).setTenant t epoch, rfl, fun _ _ => holds_congr rfl, fun _ => rfl⟩
  · exact ⟨h.setLastTenant t, rfl, fun _ _ => holds_congr rfl, fun _ => rfl⟩

theorem has_touchMatched {epoch : Nat} (ht : n.has t = true) (t' : TenantId) :
    (touchMatched t epoch n).has t' = n.has t' := by
  unfold touchMatched
  split
  · exact has_setTenant_of_has (n := n.setLastTenant t) ht t'
  · rfl

/-- `prefix_match_with_counts` finds the longest prefix that anyone has stored, and a tenant that
has stored it. -/
theorem prefixMatchWithCounts_spec {tree : Tree} (h : Good tree.root) (text : Text)
    (epoch first : Nat) :
    let r := (tree.prefixMatchWithCounts text epoch first).1
    r.matchedCharCount ≤ text.length ∧
      (∀ t p, p <+: text → Holds t tree.root p → p.length ≤ r.matchedCharCount) ∧
      (0 < r.matchedCharCount → Holds r.tenant tree.root (text.take r.matchedCharCount)) ∧
      Kept tree.root (tree.prefixMatchWithCounts text epoch first).2.root := by
  have hwalk : Walked Set.univ tree.root text (walk (fun _ => true) text.length tree.root text) :=
    walked_walk (by simp) text.length tree.root text h le_rfl
  unfold Tree.prefixMatchWithCounts
  generalize walk (fun _ => true) text.length tree.root text = r at hwalk
  obtain ⟨m, hget, hends⟩ := hwalk.ends
  simp only [hget, Option.getD_some]
  refine ⟨hwalk.stays, fun t p => hwalk.longest t trivial p, fun hpos => ?_, ?_⟩
  · rcases hends with hr | ⟨-, ⟨t, -, ht⟩, hholds⟩
    · cases hr
      cases hpos
    · exact hholds _ (has_matchedTenant ⟨t, ht⟩)
  · have hm := (h.at_path hget).1
    refine kept_modify h hget (kept_touchMatched _ epoch hm) fun hpath => ?_
    rcases hends with hr | ⟨-, ⟨t, -, ht⟩, -⟩
    · exact absurd (congrArg Prod.fst hr) hpath
    · exact has_touchMatched (has_matchedTenant ⟨t, ht⟩)

/-- `prefix_match_tenant` returns the longest prefix that the tenant has stored. -/
theorem prefixMatchTenant_spec {tree : Tree} (h : Good tree.root) (text : Text) (t : TenantId)
    (epoch : Nat) :
    let found := (tree.prefixMatchTenant text t epoch).1
    found <+: text ∧ Holds t tree.root found ∧
      (∀ p, p <+: text → Holds t tree.root p → p.length ≤ found.length) ∧
      Kept tree.root (tree.prefixMatchTenant text t epoch).2.root := by
  have hwalk : Walked {t} tree.root text (walk (fun n => n.has t) text.length tree.root text) :=
    walked_walk (by simp) text.length tree.root text h le_rfl
  unfold Tree.prefixMatchTenant
  generalize walk (fun n => n.has t) text.length tree.root text = r at hwalk
  obtain ⟨path, k⟩ := r
  obtain ⟨m, hget, hends⟩ := hwalk.ends
  refine ⟨List.take_prefix k text, ?_, fun p hp hholds => ?_, ?_⟩
  · rcases hends with hr | ⟨-, ⟨t', rfl, ht⟩, hholds⟩
    · cases hr
      exact .nil _
    · exact hholds _ ht
  · have hlen := hwalk.longest t rfl p hp hholds
    show p.length ≤ (text.take k).length
    rw [List.length_take]
    exact le_min hlen hp.length_le
  · have hm := (h.at_path hget).1
    refine kept_modify h hget ?_ fun _ t' => ?_
    · split
      · exact ⟨hm.setTenant t epoch, rfl, fun _ _ => holds_congr rfl, fun _ => rfl⟩
      · exact .refl hm
    · split
      · rename_i ht
        exact has_setTenant_of_has ht t'
      · rfl

end CodexRouter.PrefixTree
