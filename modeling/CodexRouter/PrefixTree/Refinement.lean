import CodexRouter.PrefixTree.Removal

set_option autoImplicit false

/-! # The prefix tree as sets of texts

For each tenant the tree stands for a set of texts closed under prefixes. `Sound` is the invariant
of the tree over any sequence of operations, with one lemma for what each operation does to a
sound tree; the refinement reads the sets off these.
-/

namespace CodexRouter.PrefixTree

open Lib

variable {tree : Tree} {t : TenantId}

/-! ## Sound trees -/

structure Tree.Sound (tree : Tree) : Prop where
  good : Good tree.root
  rootText : tree.root.text.charCount = 0
  counts : ∀ t, count tree.tenantCharCount t = tree.root.used t

def Tree.registered (tree : Tree) (t : TenantId) : Prop := tree.tenantCharCount.contains t = true

theorem sound_new : Tree.new.Sound := ⟨.leaf _ _ _, rfl, fun _ => rfl⟩

theorem Tree.Sound.used_eq_usedBelow (h : tree.Sound) (t : TenantId) :
    tree.root.used t = tree.root.usedBelow t := by
  rw [used_eq, h.rootText, ite_self, Nat.zero_add]

theorem usedBelow_pos {n : Node} {p : Text} (h : Good n) (hp : p ≠ []) (hholds : Holds t n p) :
    0 < n.usedBelow t := by
  rw [holds_iff] at hholds
  rcases hholds with rfl | ⟨c, m, hc, ht, -⟩
  · exact absurd rfl hp
  · obtain ⟨rest, htext⟩ := h.text_eq_cons hc
    have hlen : m.text.charCount = rest.length + 1 := by
      rw [m.text.counted, htext, List.length_cons]
    rw [usedBelow_eq t h.keys hc, used_eq, if_pos ht, hlen]
    omega

/-- Who has stored more than the empty text is counted. -/
theorem Tree.Sound.registered_of_holds {p : Text} (h : tree.Sound) (hp : p ≠ [])
    (hholds : Holds t tree.root p) : tree.registered t := by
  have hpos := usedBelow_pos h.good hp hholds
  rw [← h.used_eq_usedBelow, ← h.counts, count] at hpos
  unfold Tree.registered Table.contains
  cases hget : tree.tenantCharCount.get? t with
  | none => rw [hget] at hpos; cases hpos
  | some _ => rfl

theorem Good.used_eq_zero {n : Node} (h : Good n) (ht : n.has t = false) : n.used t = 0 := by
  induction h with
  | @mk n keys edge deeper ih =>
    rw [used_eq, ht, Node.usedBelow, List.sum_eq_zero]
    · rfl
    · intro k hk
      obtain ⟨⟨c, m⟩, hmem, rfl⟩ := List.mem_map.mp hk
      have hc := (Node.child?_eq_some_iff keys).mpr hmem
      refine ih c m hc (Bool.eq_false_iff.mpr fun htm => ?_)
      have : n.has t = true := (edge c m hc).kept t htm
      rw [ht] at this
      cases this

/-! ## What the operations do to a sound tree -/

/-- The root once the tenant is on it, before the loop starts. -/
theorem insert_root (h : tree.Sound) (t : TenantId) :
    ∃ root, (if tree.root.has t then tree.root else tree.root.setTenant t 0) = root ∧
      Good root ∧ root.has t = true ∧ root.text = tree.root.text ∧
      root.children = tree.root.children := by
  by_cases ht : tree.root.has t = true
  · exact ⟨_, rfl, by rw [if_pos ht]; exact ⟨h.good, ht, rfl, rfl⟩⟩
  · refine ⟨_, rfl, ?_⟩
    rw [if_neg ht]
    exact ⟨h.good.setTenant t 0, (Node.has_setTenant _ t t 0).mpr (Or.inr rfl), rfl, rfl⟩

theorem insert_spec (h : tree.Sound) (text : Text) (t : TenantId) (epoch : Nat) :
    (tree.insert text t epoch).Sound ∧
      (∀ t' p, Holds t' (tree.insert text t epoch).root p ↔
        Holds t' tree.root p ∨ t' = t ∧ p <+: text) ∧
      ∀ t', (tree.insert text t epoch).registered t' ↔ tree.registered t' ∨ t' = t := by
  obtain ⟨root, hroot, hgood, hhas, htext, hchildren⟩ := insert_root h t
  have hcount := count_orInsertZero tree.tenantCharCount t
  have hreg := contains_orInsertZero tree.tenantCharCount t
  generalize hcounts : orInsertZero tree.tenantCharCount t = counts at hcount hreg
  have hinserted : Inserted t text root counts (insertLoop t epoch text.length root text counts) :=
    inserted_insertLoop epoch text.length root text counts hgood hhas ((hreg t).mpr (Or.inr rfl))
      le_rfl
  have hinsert : tree.insert text t epoch
      = ⟨(insertLoop t epoch text.length root text counts).1,
          (insertLoop t epoch text.length root text counts).2⟩ := by
    unfold Tree.insert
    rw [hroot, hcounts]
  rw [hinsert]
  have hempty : (insertLoop t epoch text.length root text counts).1.text.charCount = 0 := by
    rw [hinserted.sameText, htext, h.rootText]
  refine ⟨⟨hinserted.good, hempty, fun t' => ?_⟩, fun t' p => ?_, fun t' => ?_⟩
  · have hsized := hinserted.sized t'
    have hbelow : root.usedBelow t' = tree.root.usedBelow t' := by
      unfold Node.usedBelow
      rw [hchildren]
    have hold := h.counts t'
    rw [h.used_eq_usedBelow, ← hcount] at hold
    show count (insertLoop t epoch text.length root text counts).2 t'
      = (insertLoop t epoch text.length root text counts).1.used t'
    rw [used_eq, hempty, ite_self]
    omega
  · rw [hinserted.holds, holds_congr hchildren]
  · show (insertLoop t epoch text.length root text counts).2.contains t' = true ↔ _
    rw [hinserted.registered, hreg]
    rfl

theorem Tree.Sound.of_kept {root : Node} (h : tree.Sound) (hkept : Kept tree.root root) :
    Tree.Sound { tree with root := root } := by
  refine ⟨hkept.good, by rw [hkept.text]; exact h.rootText, fun t => ?_⟩
  show count tree.tenantCharCount t = root.used t
  rw [h.counts, h.used_eq_usedBelow, used_eq, hkept.text, h.rootText, ite_self, Nat.zero_add,
    hkept.used]

theorem removeTenant_spec (h : tree.Sound) (t : TenantId) :
    (tree.removeTenant t).Sound ∧
      (∀ t' p, t' ≠ t → (Holds t' (tree.removeTenant t).root p ↔ Holds t' tree.root p)) ∧
      ∀ t', (tree.removeTenant t).registered t' ↔ tree.registered t' ∧ t' ≠ t := by
  obtain ⟨hlost, hnone⟩ := removeLoop_spec t tree.root (tenantLeaves t tree.root) h.good
    (fun q => mem_tenantLeaves h.good) (nodup_tenantLeaves h.good)
  refine ⟨⟨hlost.good, ?_, fun t' => ?_⟩, hlost.others, fun t' => ?_⟩
  · show (removeLoop t tree.root (tenantLeaves t tree.root)).text.charCount = 0
    rw [hlost.text, h.rootText]
  · show ((tree.tenantCharCount.erase t).get? t').getD 0
      = (removeLoop t tree.root (tenantLeaves t tree.root)).used t'
    rw [Table.get?_erase]
    by_cases htt : t' = t
    · rw [if_pos htt, htt, hlost.good.used_eq_zero hnone]
      rfl
    · rw [if_neg htt, hlost.used t' htt]
      exact h.counts t'
  · show ((tree.tenantCharCount.erase t).get? t').isSome = true
      ↔ (tree.tenantCharCount.get? t').isSome = true ∧ t' ≠ t
    rw [Table.get?_erase]
    by_cases htt : t' = t
    · simp [htt]
    · simp [htt]

/-- What an eviction keeps and what it may take. -/
structure Evicted (tree tree' : Tree) : Prop where
  sound : tree'.Sound
  shrinks : ∀ t p, Holds t tree'.root p → Holds t tree.root p
  registered : ∀ t, tree'.registered t ↔ tree.registered t

theorem Evicted.refl (h : tree.Sound) : Evicted tree tree :=
  ⟨h, fun _ _ => id, fun _ => Iff.rfl⟩

theorem Evicted.trans {tree' tree'' : Tree} (h : Evicted tree tree') (h' : Evicted tree' tree'') :
    Evicted tree tree'' :=
  ⟨h'.sound, fun t p hp => h.shrinks t p (h'.shrinks t p hp),
    fun t => (h'.registered t).trans (h.registered t)⟩

/-- A leaf leaves the tree and the count of its tenant. -/
theorem evicted_detach {k : Node} {path : Path} (h : tree.Sound)
    (hget : tree.root.get? path = some k) (ht : k.has t = true)
    (hleaf : k.noChildHas t = true) :
    Evicted tree ⟨detach t path tree.root,
      match tree.tenantCharCount.get? t with
      | some count => tree.tenantCharCount.insert t (count - k.text.charCount)
      | none => tree.tenantCharCount⟩ := by
  have hdetached := detached_detach h.good hget ht hleaf
  refine ⟨⟨hdetached.good, by rw [hdetached.text]; exact h.rootText, fun t' => ?_⟩,
    hdetached.shrinks, fun t' => ?_⟩
  · have hused := hdetached.used t'
    have hcount := h.counts t'
    cases hcounts : tree.tenantCharCount.get? t with
    | none =>
      show count tree.tenantCharCount t' = (detach t path tree.root).used t'
      -- no count means count zero, and then nothing of the tenant is there to take off
      by_cases htt : t' = t
      · have hzero : count tree.tenantCharCount t' = 0 := by
          rw [count, htt, hcounts]
          rfl
        omega
      · rw [if_neg htt] at hused
        omega
    | some used =>
      show ((tree.tenantCharCount.insert t (used - k.text.charCount)).get? t').getD 0
        = (detach t path tree.root).used t'
      rw [Table.get?_insert]
      by_cases htt : t' = t
      · have hold : count tree.tenantCharCount t' = used := by
          rw [count, htt, hcounts]
          rfl
        rw [if_pos htt] at hused ⊢
        rw [Option.getD_some]
        omega
      · rw [if_neg htt] at hused ⊢
        rw [← count]
        omega
  · cases hcounts : tree.tenantCharCount.get? t with
    | none => exact Iff.rfl
    | some used =>
      show ((tree.tenantCharCount.insert t (used - k.text.charCount)).get? t').isSome = true
        ↔ (tree.tenantCharCount.get? t').isSome = true
      rw [Table.get?_insert]
      by_cases htt : t' = t
      · simp [htt, hcounts]
      · rw [if_neg htt]

theorem evicted_evictEntry (maxSize : Nat) (entry : EvictionEntry) (h : tree.Sound) :
    Evicted tree (evictEntry maxSize tree entry).1 := by
  unfold evictEntry
  split
  · exact .refl h
  · split
    · exact .refl h
    · rename_i k hget
      split
      · rename_i hleaf
        obtain ⟨ht, hleaf⟩ := Bool.and_eq_true_iff.mp hleaf
        exact evicted_detach h hget ht hleaf
      · exact .refl h

theorem evicted_evictLoop (maxSize : Nat) (ties : Nat → Nat) (queue : List EvictionEntry)
    (h : tree.Sound) : Evicted tree (evictLoop maxSize ties tree queue) := by
  induction ties, tree, queue using evictLoop.induct maxSize with
  | case1 ties tree queue hpop =>
    rw [evictLoop]
    split
    · exact .refl h
    · grind
  | case2 ties tree queue entry rest hpop ih =>
    have hentry := evicted_evictEntry maxSize entry h
    rw [evictLoop]
    split
    · exact .refl h
    · rename_i hpop'
      rw [hpop] at hpop'
      cases hpop'
      exact hentry.trans (ih hentry.sound)

theorem sound_apply (h : tree.Sound) (op : Op) : (tree.apply op).Sound := by
  cases op with
  | insert text t epoch => exact (insert_spec h text t epoch).1
  | prefixMatch text epoch first =>
    exact h.of_kept (prefixMatchWithCounts_spec h.good text epoch first).2.2.2
  | prefixMatchTenant text t epoch =>
    exact h.of_kept (prefixMatchTenant_spec h.good text t epoch).2.2.2
  | evict maxSize ties => exact (evicted_evictLoop maxSize ties _ h).sound
  | removeTenant t => exact (removeTenant_spec h t).1

theorem sound_after (ops : List Op) : (Tree.after ops).Sound := by
  have hfold : ∀ (ops : List Op) (tree : Tree), tree.Sound → (ops.foldl Tree.apply tree).Sound := by
    intro ops
    induction ops with
    | nil => exact fun _ h => h
    | cons op ops ih => exact fun tree h => ih _ (sound_apply h op)
  exact hfold ops _ sound_new

/-! ## Sets of texts -/

/-- A set of texts for each tenant. -/
abbrev Sets := TenantId → Set Text

/-- Every prefix of a member is a member. -/
def Sets.Closed (s : Sets) : Prop := ∀ t p q, p ∈ s t → q <+: p → q ∈ s t

/-- What an operation does to the sets. -/
def Sets.Step (s : Sets) : Op → Sets → Prop
  | .insert text t _, s' => s' = Function.update s t (s t ∪ {p | p <+: text})
  | .prefixMatch _ _ _, s' => s' = s
  | .prefixMatchTenant _ _ _, s' => s' = s
  | .evict _ _, s' => ∀ t, s' t ⊆ s t
  | .removeTenant t, s' => s' = Function.update s t ∅

/-- `found` is the longest prefix of `q` in `S`; in an empty set that is the empty text. -/
structure LongestIn (S : Set Text) (q found : Text) : Prop where
  isPrefix : found <+: q
  member : found ∈ S ∨ S = ∅ ∧ found = []
  longest : ∀ p ∈ S, p <+: q → p.length ≤ found.length

/-- What the tree has stored for each tenant. -/
def Tree.contents (tree : Tree) : Sets := fun t => {p | tree.registered t ∧ Holds t tree.root p}

theorem Tree.Sound.holds_iff_contents {p : Text} (h : tree.Sound) (hp : p ≠ []) :
    p ∈ tree.contents t ↔ Holds t tree.root p :=
  ⟨fun hmem => hmem.2, fun hholds => ⟨h.registered_of_holds hp hholds, hholds⟩⟩

theorem contents_step (h : tree.Sound) (op : Op) :
    Sets.Step tree.contents op (tree.apply op).contents := by
  cases op with
  | insert text t epoch =>
    obtain ⟨-, hholds, hreg⟩ := insert_spec h text t epoch
    funext t'
    ext p
    show (tree.insert text t epoch).registered t' ∧ Holds t' (tree.insert text t epoch).root p ↔ _
    rw [hholds, hreg]
    by_cases htt : t' = t
    · grind [h.holds_iff_contents]
    · rw [Function.update_of_ne htt]
      simp [htt, Tree.contents]
  | prefixMatch text epoch first =>
    have hkept := (prefixMatchWithCounts_spec h.good text epoch first).2.2.2
    funext t'
    ext p
    exact and_congr_right fun _ => hkept.holds t' p
  | prefixMatchTenant text t epoch =>
    have hkept := (prefixMatchTenant_spec h.good text t epoch).2.2.2
    funext t'
    ext p
    exact and_congr_right fun _ => hkept.holds t' p
  | evict maxSize ties =>
    have hevicted := evicted_evictLoop maxSize ties (evictionLeaves tree.root) h
    rintro t' p ⟨hreg, hholds⟩
    exact ⟨(hevicted.registered t').mp hreg, hevicted.shrinks t' p hholds⟩
  | removeTenant t =>
    obtain ⟨-, hothers, hreg⟩ := removeTenant_spec h t
    funext t'
    ext p
    show (tree.removeTenant t).registered t' ∧ Holds t' (tree.removeTenant t).root p ↔ _
    rw [hreg]
    by_cases htt : t' = t
    · subst htt
      simp
    · rw [Function.update_of_ne htt, hothers t' p htt]
      simp [htt, Tree.contents]

theorem contents_closed (tree : Tree) : tree.contents.Closed :=
  fun _ _ _ hp hq => ⟨hp.1, hp.2.initial hq⟩

/-- The characters matched are the longest prefix that anyone has stored. -/
theorem prefixMatchWithCounts_longest (h : tree.Sound) (q : Text) (epoch first : Nat) :
    let r := (tree.prefixMatchWithCounts q epoch first).1
    r.matchedCharCount ≤ q.length ∧
      LongestIn (⋃ t, tree.contents t) q (q.take r.matchedCharCount) ∧
      (0 < r.matchedCharCount → q.take r.matchedCharCount ∈ tree.contents r.tenant) := by
  obtain ⟨hle, hlongest, hholds, -⟩ := prefixMatchWithCounts_spec h.good q epoch first
  generalize (tree.prefixMatchWithCounts q epoch first).1 = r at hle hlongest hholds
  have hlen : (q.take r.matchedCharCount).length = r.matchedCharCount := List.length_take_of_le hle
  have hmem : 0 < r.matchedCharCount → q.take r.matchedCharCount ∈ tree.contents r.tenant := by
    intro hpos
    refine (h.holds_iff_contents fun hnil => ?_).mpr (hholds hpos)
    rw [hnil] at hlen
    exact absurd hlen.symm (Nat.ne_of_gt hpos)
  refine ⟨hle, ⟨List.take_prefix _ _, ?_, fun p hp hpq => ?_⟩, hmem⟩
  · by_cases hpos : 0 < r.matchedCharCount
    · exact Or.inl (Set.mem_iUnion.mpr ⟨r.tenant, hmem hpos⟩)
    · have hnil : q.take r.matchedCharCount = [] := by
        rw [Nat.eq_zero_of_not_pos hpos, List.take_zero]
      rw [hnil]
      by_cases hempty : (⋃ t, tree.contents t) = ∅
      · exact Or.inr ⟨hempty, rfl⟩
      · -- who is registered has stored the empty text
        obtain ⟨p, hp⟩ := Set.nonempty_iff_ne_empty.mpr hempty
        obtain ⟨t, hreg, -⟩ := Set.mem_iUnion.mp hp
        exact Or.inl (Set.mem_iUnion.mpr ⟨t, hreg, .nil _⟩)
  · obtain ⟨t, -, hp⟩ := Set.mem_iUnion.mp hp
    rw [hlen]
    exact hlongest t p hpq hp

theorem prefixMatchTenant_longest (h : tree.Sound) (q : Text) (t : TenantId) (epoch : Nat) :
    LongestIn (tree.contents t) q (tree.prefixMatchTenant q t epoch).1 := by
  obtain ⟨hpre, hholds, hlongest, -⟩ := prefixMatchTenant_spec h.good q t epoch
  refine ⟨hpre, ?_, fun p hp hpq => hlongest p hpq hp.2⟩
  by_cases hreg : tree.registered t
  · exact Or.inl ⟨hreg, hholds⟩
  · refine Or.inr ⟨Set.eq_empty_of_forall_notMem fun p hp => hreg hp.1, ?_⟩
    by_contra hne
    exact hreg (h.registered_of_holds hne hholds)

/-- **The tree refines a prefix-closed set of texts for each tenant**, after any sequence of
operations: the empty tree stands for empty sets, each operation changes the sets as it should,
and the two matches answer with the longest prefix, of anyone or of the tenant. -/
theorem tree_refines_sets (ops : List Op) :
    let tree := Tree.after ops
    Tree.new.contents = (fun _ => ∅) ∧
      tree.contents.Closed ∧
      (∀ op, Sets.Step tree.contents op (tree.apply op).contents) ∧
      (∀ q epoch first,
        let r := (tree.prefixMatchWithCounts q epoch first).1
        r.matchedCharCount ≤ q.length ∧
          LongestIn (⋃ t, tree.contents t) q (q.take r.matchedCharCount) ∧
          (0 < r.matchedCharCount → q.take r.matchedCharCount ∈ tree.contents r.tenant)) ∧
      ∀ q t epoch, LongestIn (tree.contents t) q (tree.prefixMatchTenant q t epoch).1 := by
  have h := sound_after ops
  refine ⟨?_, contents_closed _, contents_step h, prefixMatchWithCounts_longest h,
    prefixMatchTenant_longest h⟩
  funext t
  exact Set.eq_empty_of_forall_notMem fun p hp => by cases hp.1

/-- The prefixes of what a tenant was given since it was last removed. -/
def Sets.given (s : Sets) : Op → Sets
  | .insert text t _ => Function.update s t (s t ∪ {p | p <+: text})
  | .removeTenant t => Function.update s t ∅
  | _ => s

theorem contents_le_given (ops : List Op) :
    (Tree.after ops).contents ≤ ops.foldl Sets.given fun _ => ∅ := by
  induction ops using List.reverseRecOn with
  | nil => exact fun t p hp => by cases hp.1
  | append_singleton ops op ih =>
    have hstep := contents_step (sound_after ops) op
    rw [Tree.after, List.foldl_concat, List.foldl_concat]
    cases op with
    | insert text t epoch =>
      refine hstep.le.trans (update_le_update_iff.mpr ⟨?_, fun u _ => ih u⟩)
      exact Set.union_subset_union_left _ (ih t)
    | prefixMatch | prefixMatchTenant => exact hstep.le.trans ih
    | evict => exact fun t => (hstep t).trans (ih t)
    | removeTenant t =>
      exact hstep.le.trans (update_le_update_iff.mpr ⟨le_rfl, fun u _ => ih u⟩)

/-- **No match is made up**: after any run the tenant reported was given what is matched. -/
theorem matched_was_given (ops : List Op) (q : Text) (epoch first : Nat) :
    let r := ((Tree.after ops).prefixMatchWithCounts q epoch first).1
    r.matchedCharCount = 0 ∨
      q.take r.matchedCharCount ∈ ops.foldl Sets.given (fun _ => ∅) r.tenant := by
  have hmem := (prefixMatchWithCounts_longest (sound_after ops) q epoch first).2.2
  exact (Nat.eq_zero_or_pos _).imp_right fun h => contents_le_given ops _ (hmem h)

end CodexRouter.PrefixTree
