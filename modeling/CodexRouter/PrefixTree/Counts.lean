import CodexRouter.PrefixTree.Refinement

set_option autoImplicit false

/-! # The character counts of the tenants

The count of a tenant is the number of nonempty texts stored for it: `Node.stored` lists them
without repetition, and there are as many as the nodes that carry the tenant have characters.
-/

namespace CodexRouter.PrefixTree

open Lib

variable {n m : Node} {t : TenantId} {c : Char} {p : Text}

/-! ## The stored texts as a list -/

/-- The nonempty prefixes of a text. -/
def prefixes (text : Text) : List Text := (List.range text.length).map fun i => text.take (i + 1)

theorem mem_prefixes {text : Text} : p ∈ prefixes text ↔ p ≠ [] ∧ p <+: text := by
  unfold prefixes
  rw [List.mem_map]
  constructor
  · grind
  · rintro ⟨hne, hp⟩
    have hpos := List.length_pos_iff.mpr hne
    have hlen := hp.length_le
    refine ⟨p.length - 1, List.mem_range.mpr (by omega), ?_⟩
    rw [Nat.sub_add_cancel hpos]
    exact (List.prefix_iff_eq_take.mp hp).symm

theorem nodup_prefixes (text : Text) : (prefixes text).Nodup := by
  refine List.Nodup.map_on ?_ List.nodup_range
  intro i hi j hj heq
  have hi := List.mem_range.mp hi
  have hj := List.mem_range.mp hj
  have := congrArg List.length heq
  rw [List.length_take, List.length_take] at this
  omega

/-- The nonempty texts that the tenant has stored below a node. -/
def Node.stored (t : TenantId) : Node → List Text
  | .mk _ _ _ children => storedIn children
where
  storedIn : List (Char × Node) → List Text
    | [] => []
    | (_, m) :: rest =>
      (if m.has t then prefixes m.text.text ++ (m.stored t).map (m.text.text ++ ·) else [])
        ++ storedIn rest

/-- The nonempty texts that go through a node. -/
def Node.storedThrough (t : TenantId) (m : Node) : List Text :=
  if m.has t then prefixes m.text.text ++ (m.stored t).map (m.text.text ++ ·) else []

theorem stored_eq (t : TenantId) (n : Node) :
    n.stored t = n.children.flatMap fun e => e.2.storedThrough t := by
  have hin : ∀ children : List (Char × Node),
      Node.stored.storedIn t children = children.flatMap fun e => e.2.storedThrough t := by
    intro children
    induction children with
    | nil => rfl
    | cons e children ih =>
      rw [Node.stored.storedIn, ih, List.flatMap_cons]
      rfl
  cases n with
  | mk text tenants last children => exact hin children

theorem mem_storedThrough (hm : ∀ p, p ∈ m.stored t ↔ p ≠ [] ∧ Holds t m p)
    (htext : m.text.text ≠ []) :
    p ∈ m.storedThrough t ↔ p ≠ [] ∧ Through t m p := by
  unfold Node.storedThrough Through
  by_cases ht : m.has t = true
  · rw [if_pos ht, List.mem_append, mem_prefixes, List.mem_map]
    constructor
    · rintro (⟨hne, hp⟩ | ⟨q, hq, rfl⟩)
      · exact ⟨hne, ht, Or.inl hp⟩
      · exact ⟨by simp [htext], ht, Or.inr ⟨q, rfl, ((hm q).mp hq).2⟩⟩
    · grind
  · simp [ht]

theorem mem_stored (h : Good n) : ∀ p, p ∈ n.stored t ↔ p ≠ [] ∧ Holds t n p := by
  induction h with
  | @mk n keys edge deeper ih =>
    have hgood : Good n := .mk keys edge deeper
    intro p
    rw [stored_eq, List.mem_flatMap, holds_iff]
    have hthrough : ∀ c m, n.child? c = some m →
        (p ∈ m.storedThrough t ↔ p ≠ [] ∧ Through t m p) := by
      grind [mem_storedThrough, hgood.text_eq_cons]
    constructor
    · rintro ⟨⟨c, m⟩, hmem, hp⟩
      have hc := (Node.child?_eq_some_iff keys).mpr hmem
      obtain ⟨hne, hp⟩ := (hthrough c m hc).mp hp
      exact ⟨hne, Or.inr ⟨c, m, hc, hp⟩⟩
    · rintro ⟨hne, hnil | ⟨c, m, hc, hp⟩⟩
      · exact absurd hnil hne
      · exact ⟨(c, m), (Node.child?_eq_some_iff keys).mp hc, (hthrough c m hc).mpr ⟨hne, hp⟩⟩

theorem nodup_stored (h : Good n) : (n.stored t).Nodup := by
  induction h with
  | @mk n keys edge deeper ih =>
    have hgood : Good n := .mk keys edge deeper
    have hfirst : ∀ e ∈ n.children, ∀ p ∈ e.2.storedThrough t, p.head? = some e.1 := by
      rintro ⟨c, m⟩ hmem p hp
      have hc := (Node.child?_eq_some_iff keys).mpr hmem
      obtain ⟨rest, htext⟩ := hgood.text_eq_cons hc
      obtain ⟨hne, -, hp⟩ :=
        (mem_storedThrough (mem_stored (deeper c m hc)) (by rw [htext]; simp)).mp hp
      rcases hp with ⟨r, hr⟩ | ⟨q, rfl, -⟩
      · cases p with
        | nil => exact absurd rfl hne
        | cons d p => grind
      · rw [htext]
        rfl
    rw [stored_eq, List.nodup_flatMap]
    constructor
    · rintro ⟨c, m⟩ hmem
      have hc := (Node.child?_eq_some_iff keys).mpr hmem
      show (m.storedThrough t).Nodup
      unfold Node.storedThrough
      split
      · rw [List.nodup_append]
        refine ⟨nodup_prefixes _, (ih c m hc).map (List.append_right_injective _), ?_⟩
        -- what goes beyond the node is longer than its text
        rintro a ha b hb rfl
        obtain ⟨q, hq, rfl⟩ := List.mem_map.mp hb
        have hlen := (mem_prefixes.mp ha).2.length_le
        have hpos := List.length_pos_iff.mpr ((mem_stored (deeper c m hc) q).mp hq).1
        rw [List.length_append] at hlen
        omega
      · exact List.nodup_nil
    · refine (List.pairwise_map.mp keys).imp_of_mem ?_
      intro e e' he he' hne p hp hp'
      have := (hfirst e he p hp).symm.trans (hfirst e' he' p hp')
      exact hne (Option.some.inj this)

theorem length_stored (h : Good n) : (n.stored t).length = n.usedBelow t := by
  induction h with
  | @mk n keys edge deeper ih =>
    rw [stored_eq, List.length_flatMap]
    unfold Node.usedBelow
    congr 1
    refine List.map_congr_left ?_
    rintro ⟨c, m⟩ hmem
    have hc := (Node.child?_eq_some_iff keys).mpr hmem
    show (m.storedThrough t).length = m.used t
    unfold Node.storedThrough
    by_cases ht : m.has t = true
    · rw [if_pos ht, List.length_append, List.length_map, ih c m hc, used_eq, if_pos ht,
        m.text.counted]
      simp [prefixes]
    · rw [if_neg ht, (deeper c m hc).used_eq_zero (Bool.eq_false_iff.mpr ht)]
      rfl

/-! ## Counts after any sequence of operations -/

/-- The tenant has been inserted, and not removed since. -/
def present (t : TenantId) (ops : List Op) : Bool :=
  ops.foldl
    (fun b op =>
      match op with
      | .insert _ t' _ => b || t = t'
      | .removeTenant t' => b && t ≠ t'
      | _ => b)
    false

theorem registered_after (t : TenantId) (ops : List Op) :
    (Tree.after ops).registered t ↔ present t ops = true := by
  induction ops using List.reverseRecOn with
  | nil =>
    constructor
    · nofun
    · nofun
  | append_singleton ops op ih =>
    have h := sound_after ops
    have hafter : Tree.after (ops ++ [op]) = (Tree.after ops).apply op := by simp [Tree.after]
    rw [hafter]
    unfold present at ih ⊢
    rw [List.foldl_append]
    simp only [List.foldl_cons, List.foldl_nil]
    cases op with
    | insert text t' epoch =>
      show ((Tree.after ops).insert text t' epoch).registered t ↔ _
      rw [(insert_spec h text t' epoch).2.2, ih]
      simp
    | prefixMatch text epoch first => exact ih
    | prefixMatchTenant text t' epoch => exact ih
    | evict maxSize ties => exact ((evicted_evictLoop maxSize ties _ h).registered t).trans ih
    | removeTenant t' =>
      show ((Tree.after ops).removeTenant t').registered t ↔ _
      rw [(removeTenant_spec h t').2.2, ih]
      simp

/-- The number of distinct nonempty texts stored for a tenant. -/
theorem ncard_contents {tree : Tree} (h : tree.Sound) (t : TenantId) :
    {p | p ≠ [] ∧ p ∈ tree.contents t}.ncard = tree.root.used t := by
  have hset : {p | p ≠ [] ∧ p ∈ tree.contents t} = ↑(tree.root.stored t).toFinset := by
    ext p
    rw [List.coe_toFinset, Set.mem_ofPred_eq, Set.mem_ofPred_eq, mem_stored h.good]
    exact and_congr_right h.holds_iff_contents
  rw [hset, Set.ncard_coe_finset, List.toFinset_card_of_nodup (nodup_stored h.good),
    length_stored h.good, h.used_eq_usedBelow]

/-- **The counts and the shape of the tree**, after any sequence of operations. A tenant that is
present has its used size as count, and so many nonempty texts stored; one that is not has no
count and no node below the root. Every node below the root has a tenant, shares its tenants with
its parent and stands under the first character of its text. -/
theorem counts_and_shape (ops : List Op) :
    let tree := Tree.after ops
    (∀ t, tree.tenantCharCount.get? t
        = if present t ops then some (tree.root.used t) else none) ∧
      (∀ t, present t ops = false → tree.root.used t = 0) ∧
      (∀ t, {p | p ≠ [] ∧ p ∈ tree.contents t}.ncard = tree.root.used t) ∧
      ∀ path parent c child, tree.root.get? path = some parent →
        parent.child? c = some child →
          (∀ t, child.has t = true → parent.has t = true) ∧
            (∃ t, child.has t = true) ∧ child.text.firstChar = some c := by
  have h := sound_after ops
  have hcount : ∀ t, (Tree.after ops).tenantCharCount.get? t
      = if present t ops then some ((Tree.after ops).root.used t) else none := by
    intro t
    have hreg := registered_after t ops
    have hold := h.counts t
    unfold Tree.registered Table.contains at hreg
    unfold count at hold
    cases hget : (Tree.after ops).tenantCharCount.get? t with
    | none =>
      rw [hget] at hreg
      rw [if_neg fun hp => by cases hreg.mpr hp]
    | some used => grind
  refine ⟨hcount, fun t hnone => ?_, ncard_contents h, fun path parent c child hget hc => ?_⟩
  · rw [← h.counts, count, hcount, hnone]
    rfl
  · have hedge := (h.good.at_path hget).1.edge hc
    exact ⟨hedge.kept, hedge.carried, hedge.first⟩

end CodexRouter.PrefixTree
