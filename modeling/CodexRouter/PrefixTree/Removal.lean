import CodexRouter.PrefixTree.Lookup

set_option autoImplicit false

/-! # Taking tenants off the nodes

Eviction and the removal of a tenant take the tenant off one node after another, always off one
that no child of it shares. `Detached` says what one such step does to the tree: the tenant is no
longer on that node, a node left without tenants is gone, and nothing else has changed. The queue
of `remove_tenant` holds exactly the leaves of the tenant in each round, so that the tenant is
nowhere in the tree when the queue is empty.
-/

namespace CodexRouter.PrefixTree

open Lib

variable {n m k : Node} {t : TenantId} {c : Char} {path : Path}

/-! ## Nodes on a path -/

/-- The node at the path carries the tenant. -/
def Node.carries (n : Node) (t : TenantId) (path : Path) : Prop :=
  ∃ m, n.get? path = some m ∧ m.has t = true

theorem Node.carries_nil : n.carries t [] ↔ n.has t = true := by
  simp [Node.carries, Node.get?]

theorem Node.carries_cons : n.carries t (c :: path) ↔
    ∃ m, n.child? c = some m ∧ m.carries t path := by
  unfold Node.carries
  simp only [Node.get?, Option.bind_eq_some_iff]
  constructor
  · rintro ⟨k, ⟨m, hc, hget⟩, ht⟩
    exact ⟨m, hc, k, hget, ht⟩
  · rintro ⟨m, hc, k, hget, ht⟩
    exact ⟨k, ⟨m, hc, hget⟩, ht⟩

theorem Node.get?_append (n : Node) (p q : Path) :
    n.get? (p ++ q) = (n.get? p).bind fun m => m.get? q := by
  induction p generalizing n with
  | nil => rfl
  | cons c p ih =>
    show (n.child? c).bind (fun m => m.get? (p ++ q)) = _
    simp only [ih, Node.get?, Option.bind_assoc]

theorem carries_setChild (h : Good n) (d : Char) (q : Path) :
    (n.setChild c m).carries t (d :: q) ↔
      if d = c then m.carries t q else n.carries t (d :: q) := by
  rw [Node.carries_cons, Node.child?_setChild h.keys]
  by_cases hd : d = c
  · simp [hd]
  · rw [if_neg hd, if_neg hd, Node.carries_cons]

theorem carries_eraseChild (h : Good n) (d : Char) (q : Path) :
    (n.eraseChild c).carries t (d :: q) ↔ d ≠ c ∧ n.carries t (d :: q) := by
  rw [Node.carries_cons, Node.child?_eraseChild h.keys]
  by_cases hd : d = c
  · simp [hd]
  · simp [hd, Node.carries_cons]

/-- What is put in the place of a child makes up for an earlier change of it. -/
theorem setChild_again (n m m' : Node) (c : Char) :
    (n.setChild c m).setChild c m' = n.setChild c m'
      ∧ (n.setChild c m).eraseChild c = n.eraseChild c := by
  have hentries : ∀ es : List (Char × Node),
      Table.insertEntry c m' (Table.insertEntry c m es) = Table.insertEntry c m' es
        ∧ (Table.insertEntry c m es).filter (fun e => e.1 ≠ c) = es.filter fun e => e.1 ≠ c := by
    intro es
    induction es with
    | nil => simp [Table.insertEntry]
    | cons e es ih => grind [Table.insertEntry]
  exact (hentries n.children).imp (congrArg (Node.mk n.text n.tenants n.lastTenant))
    (congrArg (Node.mk n.text n.tenants n.lastTenant))

/-! ## One step -/

/-- The tenant has left the node `k` at the path. -/
structure Detached (t : TenantId) (path : Path) (k n n' : Node) : Prop where
  good : Good n'
  text : n'.text = n.text
  carries : ∀ t' q, n'.carries t' q ↔ n.carries t' q ∧ ¬ (t' = t ∧ q = path)
  shrinks : ∀ t' p, Holds t' n' p → Holds t' n p
  others : ∀ t' p, t' ≠ t → Holds t' n p → Holds t' n' p
  used : ∀ t', n'.used t' + (if t' = t then k.text.charCount else 0) = n.used t'

theorem detached_dropTenant (h : Good n) (ht : n.has t = true) (hleaf : n.noChildHas t = true) :
    Detached t [] n n (n.dropTenant t) := by
  have hsame : ∀ t' p, Holds t' (n.dropTenant t) p ↔ Holds t' n p := fun _ _ => holds_congr rfl
  refine ⟨h.dropTenant hleaf, rfl, fun t' q => ?_, fun t' p => (hsame t' p).mp,
    fun t' p _ => (hsame t' p).mpr, fun t' => ?_⟩
  · cases q with
    | nil =>
      rw [Node.carries_nil, Node.carries_nil, Node.has_dropTenant]
      simp
    | cons c q =>
      have hchild : (n.dropTenant t).child? c = n.child? c := rfl
      simp [Node.carries_cons, hchild]
  · have hbelow : (n.dropTenant t).usedBelow t' = n.usedBelow t' := rfl
    have htext : (n.dropTenant t).text = n.text := rfl
    have hhas := Node.has_dropTenant n t t'
    rw [used_eq, used_eq, hbelow, htext]
    by_cases htt : t' = t
    · grind
    · have hsame : (n.dropTenant t).has t' = n.has t' := by grind
      rw [if_neg htt, hsame, Nat.add_zero]

theorem Detached.has (h : Detached t path k n m) (t' : TenantId) :
    m.has t' = true ↔ n.has t' = true ∧ ¬ (t' = t ∧ path = []) := by
  have hnil := h.carries t' []
  rw [Node.carries_nil, Node.carries_nil] at hnil
  rw [hnil, eq_comm (a := path)]

theorem Detached.through {t' : TenantId} {p : Text} (h : Detached t path k n m)
    (hp : Through t' m p) : Through t' n p := by
  obtain ⟨ht', hp⟩ := hp
  rw [h.text] at hp
  refine ⟨((h.has t').mp ht').1, hp.imp_right ?_⟩
  rintro ⟨q, hq, hholds⟩
  exact ⟨q, hq, h.shrinks t' q hholds⟩

theorem Detached.through_others {t' : TenantId} {p : Text} (h : Detached t path k n m)
    (htt : t' ≠ t) (hp : Through t' n p) : Through t' m p := by
  obtain ⟨ht', hp⟩ := hp
  refine ⟨(h.has t').mpr ⟨ht', fun h => htt h.1⟩, ?_⟩
  rw [h.text]
  refine hp.imp_right ?_
  rintro ⟨q, hq, hholds⟩
  exact ⟨q, hq, h.others t' q htt hholds⟩

/-- Below a node whose child has been detached from, and still carries a tenant. -/
theorem Detached.setChild {m' : Node} (hm : Detached t path k m m') (h : Good n)
    (hc : n.child? c = some m) (hcarried : ∃ t, m'.has t = true) :
    Detached t (c :: path) k n (n.setChild c m') := by
  have hold := h.edge hc
  have hedge : Edge n.tenants c m' :=
    ⟨by rw [hm.text]; exact hold.first, fun t' ht' => hold.kept t' ((hm.has t').mp ht').1,
      hcarried⟩
  have hgood := h.setChild hedge hm.good
  have hholds : ∀ t' p, (Holds t' (n.setChild c m') p → Holds t' n p)
      ∧ (t' ≠ t → Holds t' n p → Holds t' (n.setChild c m') p) := by
    intro t' p
    cases p with
    | nil => exact ⟨fun _ => .nil n, fun _ _ => .nil _⟩
    | cons d p =>
      rw [holds_setChild h hgood]
      by_cases hd : d = c
      · rw [if_pos hd, hd, holds_cons_of_child h hc]
        exact ⟨hm.through, hm.through_others⟩
      · rw [if_neg hd]
        exact ⟨id, fun _ => id⟩
  refine ⟨hgood, rfl, fun t' q => ?_, fun t' p => (hholds t' p).1, fun t' p => (hholds t' p).2,
    fun t' => ?_⟩
  · cases q with
    | nil => simp [Node.carries_nil, Node.has]
    | cons d q =>
      rw [carries_setChild h]
      by_cases hd : d = c
      · simp [hd, hm.carries, Node.carries_cons, hc]
      · simp [hd]
  · have hused := hm.used t'
    have hown : (n.setChild c m').has t' = n.has t' := rfl
    rw [used_eq, used_eq t' n, hown, Node.text_setChild, usedBelow_setChild t' h.keys,
      usedBelow_eq t' h.keys hc]
    omega

theorem Good.children_eq_nil (h : Good n) (hnone : ∀ t, n.has t = false) : n.children = [] := by
  rw [List.eq_nil_iff_forall_not_mem]
  rintro ⟨c, m⟩ hmem
  have hedge := h.edge ((Node.child?_eq_some_iff h.keys).mpr hmem)
  obtain ⟨t, ht⟩ := hedge.carried
  have : n.has t = true := hedge.kept t ht
  rw [hnone] at this
  cases this

theorem holds_eraseChild (h : Good n) (d : Char) (p : Text) :
    Holds t (n.eraseChild c) (d :: p) ↔ d ≠ c ∧ Holds t n (d :: p) := by
  rw [holds_cons_iff (h.eraseChild c), holds_cons_iff h, Node.child?_eraseChild h.keys]
  by_cases hd : d = c
  · simp [hd]
  · simp [hd]

/-- A node that lost its last tenant carried no other, and nothing below it carried any. -/
theorem Detached.only {t' : TenantId} {q : Path} (h : Detached t [] n n m)
    (hnone : ∀ t, m.has t = false) (hq : n.carries t' q) : t' = t ∧ q = [] := by
  by_contra hout
  obtain ⟨k, hget, hk⟩ := (h.carries t' q).mpr ⟨hq, hout⟩
  have hhas := (h.good.at_path hget).2 t' hk
  rw [hnone] at hhas
  cases hhas

/-- Below a node whose child is gone with its last tenant. -/
theorem Detached.eraseChild {m' : Node} (hm : Detached t [] m m m') (h : Good n)
    (hc : n.child? c = some m) (hnone : ∀ t, m'.has t = false) :
    Detached t [c] m n (n.eraseChild c) := by
  refine ⟨h.eraseChild c, rfl, fun t' q => ?_, fun t' p => ?_, fun t' p htt => ?_, fun t' => ?_⟩
  · cases q with
    | nil =>
      simp only [Node.carries_nil, List.ne_cons_self, and_false, not_false_eq_true, and_true]
      rfl
    | cons d q =>
      grind [carries_eraseChild, Node.carries_cons, hm.only]
  · cases p with
    | nil => exact fun _ => .nil n
    | cons d p => exact fun hp => ((holds_eraseChild h d p).mp hp).2
  · cases p with
    | nil => exact fun _ => .nil _
    | cons d p =>
      refine fun hp => (holds_eraseChild h d p).mpr ⟨?_, hp⟩
      rintro rfl
      obtain ⟨ht', -⟩ := (holds_cons_of_child h hc).mp hp
      exact htt (hm.only hnone (Node.carries_nil.mpr ht')).1
  · have hused := hm.used t'
    have hgone : m'.used t' = 0 := by
      rw [used_eq, hnone, Node.usedBelow, hm.good.children_eq_nil hnone]
      rfl
    have hown : (n.eraseChild c).has t' = n.has t' := rfl
    have htext : (n.eraseChild c).text = n.text := rfl
    rw [used_eq, used_eq t' n, hown, htext, usedBelow_eq t' h.keys hc]
    omega

/-! ## `detach` -/

theorem modify_cons {f : Node → Node} (hc : n.child? c = some m) :
    n.modify f (c :: path) = n.setChild c (m.modify f path) := by
  rw [Node.modify, hc]

theorem get?_setChild (h : Good n) : (n.setChild c m).get? (c :: path) = m.get? path := by
  rw [Node.get?, Node.child?_setChild h.keys, if_pos rfl]
  rfl

/-- Deeper than a child, the child changes in its place. -/
theorem detach_cons_cons {d : Char} (h : Good n) (hc : n.child? c = some m) :
    detach t (c :: d :: path) n = n.setChild c (detach t (d :: path) m) := by
  have hchild : ∀ k : Node, (n.setChild c k).child? c = some k := fun k => by
    rw [Node.child?_setChild h.keys, if_pos rfl]
  unfold detach
  simp only [modify_cons hc, get?_setChild h]
  cases (m.modify (fun n => n.dropTenant t) (d :: path)).get? (d :: path) with
  | none => rfl
  | some k =>
    simp only
    split
    · cases k.text.firstChar with
      | none => rfl
      | some e => simp only [List.dropLast_cons_cons, modify_cons (hchild _), setChild_again]
    · rfl

/-- Off a child, which goes when nothing is left of it. -/
theorem detach_singleton (h : Good n) (hc : n.child? c = some m) :
    detach t [c] n
      = if (m.dropTenant t).children.isEmpty && (m.dropTenant t).tenants.size == 0 then
          n.eraseChild c
        else n.setChild c (m.dropTenant t) := by
  have hfirst : (m.dropTenant t).text.firstChar = some c := (h.edge hc).first
  have hmodify : n.modify (fun n => n.dropTenant t) [c] = n.setChild c (m.dropTenant t) :=
    modify_cons hc
  have hget : (n.setChild c (m.dropTenant t)).get? [c] = some (m.dropTenant t) := get?_setChild h
  unfold detach
  simp only [hmodify, hget, hfirst]
  split
  · exact (setChild_again n _ m c).2
  · rfl

theorem isEmpty_iff_not_has (h : Good n) :
    (n.children.isEmpty && n.tenants.size == 0) = true ↔ ∀ t, n.has t = false := by
  constructor
  · intro hempty t
    have hsize : n.tenants.entries.length = 0 := by
      simpa [Table.size] using (Bool.and_eq_true_iff.mp hempty).2
    rw [Bool.eq_false_iff]
    intro ht
    obtain ⟨v, hv⟩ := Table.contains_iff.mp ht
    rw [List.length_eq_zero_iff.mp hsize] at hv
    cases hv
  · intro hnone
    rw [h.children_eq_nil hnone]
    have hentries : n.tenants.entries = [] := by
      rw [List.eq_nil_iff_forall_not_mem]
      rintro ⟨t, v⟩ hmem
      have : n.has t = true := Table.contains_iff.mpr ⟨v, hmem⟩
      rw [hnone] at this
      cases this
    simp [Table.size, hentries]

/-- The tenant leaves a leaf of it. -/
theorem detached_detach (h : Good n) (hget : n.get? path = some k) (ht : k.has t = true)
    (hleaf : k.noChildHas t = true) : Detached t path k n (detach t path n) := by
  induction path generalizing n with
  | nil =>
    cases hget
    exact detached_dropTenant h ht hleaf
  | cons c path ih =>
    obtain ⟨m, hc, hget⟩ := Option.bind_eq_some_iff.mp hget
    cases path with
    | nil =>
      cases hget
      have hdrop := detached_dropTenant (h.child hc) ht hleaf
      rw [detach_singleton h hc]
      by_cases hempty : ((k.dropTenant t).children.isEmpty
          && (k.dropTenant t).tenants.size == 0) = true
      · rw [if_pos hempty]
        exact hdrop.eraseChild h hc ((isEmpty_iff_not_has hdrop.good).mp hempty)
      · rw [if_neg hempty]
        refine hdrop.setChild h hc ?_
        by_contra hnone
        refine hempty ((isEmpty_iff_not_has hdrop.good).mpr fun t' => ?_)
        exact Bool.eq_false_iff.mpr fun ht' => hnone ⟨t', ht'⟩
    | cons d path =>
      have hbelow := ih (h.child hc) hget
      rw [detach_cons_cons h hc]
      refine hbelow.setChild h hc ?_
      -- the child is above the node the tenant leaves
      obtain ⟨t', ht'⟩ := (h.edge hc).carried
      exact ⟨t', (hbelow.has t').mpr ⟨ht', by simp⟩⟩

/-! ## Leaves -/

/-- The tenant is on the node at the path and on no child of it. -/
def Node.IsLeaf (n : Node) (t : TenantId) (path : Path) : Prop :=
  ∃ k, n.get? path = some k ∧ k.has t = true ∧ k.noChildHas t = true

theorem isLeaf_iff (h : Good n) :
    n.IsLeaf t path ↔ n.carries t path ∧ ∀ c, ¬ n.carries t (path ++ [c]) := by
  have hbelow : ∀ k, n.get? path = some k →
      (k.noChildHas t = true ↔ ∀ c, ¬ n.carries t (path ++ [c])) := by
    intro k hget
    rw [Node.noChildHas_iff (h.at_path hget).1.keys]
    have hcarries : ∀ c, n.carries t (path ++ [c]) ↔
        ∃ m, k.child? c = some m ∧ m.has t = true := by
      intro c
      rw [Node.carries, Node.get?_append, hget]
      simp [Node.get?]
    simp only [hcarries]
    constructor
    · grind
    · intro hnone c m hc
      exact Bool.eq_false_iff.mpr fun ht => hnone c ⟨m, hc, ht⟩
  constructor
  · rintro ⟨k, hget, ht, hleaf⟩
    exact ⟨⟨k, hget, ht⟩, (hbelow k hget).mp hleaf⟩
  · rintro ⟨⟨k, hget, ht⟩, hleaf⟩
    exact ⟨k, hget, ht, (hbelow k hget).mpr hleaf⟩

/-- A tenant that is anywhere has a leaf. -/
theorem Good.exists_leaf (h : Good n) (ht : n.has t = true) : ∃ path, n.IsLeaf t path := by
  induction h with
  | @mk n keys edge deeper ih =>
    by_cases hleaf : n.noChildHas t = true
    · exact ⟨[], n, rfl, ht, hleaf⟩
    · rw [Node.noChildHas_iff keys] at hleaf
      push Not at hleaf
      obtain ⟨c, m, hc, hm⟩ := hleaf
      obtain ⟨path, k, hget, hk⟩ := ih c m hc (by simpa using hm)
      exact ⟨c :: path, k, by rw [Node.get?, hc]; exact hget, hk⟩

/-- The parent that `newLeaf` reports is a leaf. -/
theorem mem_newLeaf {q : Path} :
    q ∈ ((newLeaf t path n).map Prod.fst).toList ↔
      path ≠ [] ∧ q = path.dropLast ∧ n.IsLeaf t q := by
  unfold newLeaf Node.IsLeaf
  cases path with
  | nil => simp
  | cons c path =>
    generalize (c :: path).dropLast = parent
    cases hget : n.get? parent with
    | none => grind
    | some k =>
      have hhas : k.has t = (k.tenants.get? t).isSome := rfl
      have hat : (q = parent ∧ ∃ k, n.get? q = some k ∧ k.has t = true ∧
          k.noChildHas t = true) ↔ q = parent ∧ k.has t = true ∧ k.noChildHas t = true := by grind
      rw [hat, hhas]
      by_cases hleaf : k.noChildHas t = true
      · simp only [hleaf, if_true]
        cases k.tenants.get? t <;> simp
      · simp [hleaf]

/-! ## The nodes of a tree -/

theorem nodes_below_eq (path : Path) (children : List (Char × Node)) :
    nodes.below path children = children.flatMap fun e => nodes (path ++ [e.1]) e.2 := by
  induction children with
  | nil => rfl
  | cons e children ih => rw [nodes.below, ih, List.flatMap_cons]

theorem nodes_eq (path : Path) (n : Node) :
    nodes path n = (path, n) :: n.children.flatMap fun e => nodes (path ++ [e.1]) e.2 := by
  cases n with
  | mk text tenants last children => rw [nodes, nodes_below_eq]; rfl

theorem mem_nodes (h : Good n) {q : Path} {path : Path} :
    (q, k) ∈ nodes path n ↔ ∃ r, q = path ++ r ∧ n.get? r = some k := by
  induction h generalizing path with
  | @mk n keys edge deeper ih =>
    rw [nodes_eq, List.mem_cons, List.mem_flatMap]
    constructor
    · rintro (heq | ⟨⟨c, m⟩, hmem, hk⟩)
      · cases heq
        exact ⟨[], by simp, rfl⟩
      · grind [Node.child?_eq_some_iff, Node.get?]
    · rintro ⟨r, rfl, hr⟩
      cases r with
      | nil =>
        cases hr
        exact Or.inl (by simp)
      | cons c r =>
        obtain ⟨m, hc, hr⟩ := Option.bind_eq_some_iff.mp hr
        refine Or.inr ⟨(c, m), (Node.child?_eq_some_iff keys).mp hc, (ih c m hc).mpr ?_⟩
        exact ⟨r, by simp, hr⟩

theorem nodup_nodes (h : Good n) {path : Path} : ((nodes path n).map Prod.fst).Nodup := by
  induction h generalizing path with
  | @mk n keys edge deeper ih =>
    have hunder : ∀ e ∈ n.children, ∀ q ∈ (nodes (path ++ [e.1]) e.2).map Prod.fst,
        ∃ r, q = path ++ e.1 :: r := by
      rintro ⟨c, m⟩ hmem q hq
      obtain ⟨⟨q, k⟩, hk, rfl⟩ := List.mem_map.mp hq
      have hc := (Node.child?_eq_some_iff keys).mpr hmem
      obtain ⟨r, rfl, -⟩ := (mem_nodes (deeper c m hc)).mp hk
      exact ⟨r, by simp⟩
    rw [nodes_eq, List.map_cons, List.nodup_cons, List.map_flatMap]
    constructor
    · intro hmem
      obtain ⟨e, he, hq⟩ := List.mem_flatMap.mp hmem
      obtain ⟨r, hr⟩ := hunder e he _ hq
      simp at hr
    · rw [List.nodup_flatMap]
      refine ⟨?_, ?_⟩
      · rintro ⟨c, m⟩ hmem
        exact ih c m ((Node.child?_eq_some_iff keys).mpr hmem)
      · refine (List.pairwise_map.mp keys).imp_of_mem ?_
        intro e e' he he' hne q hq hq'
        obtain ⟨r, rfl⟩ := hunder e he q hq
        obtain ⟨r', hr'⟩ := hunder e' he' _ hq'
        rw [List.append_cancel_left_eq, List.cons.injEq] at hr'
        exact hne hr'.1

theorem mem_tenantLeaves (h : Good n) : path ∈ tenantLeaves t n ↔ n.IsLeaf t path := by
  unfold tenantLeaves Node.IsLeaf
  rw [List.mem_map]
  constructor
  · rintro ⟨⟨q, k⟩, hmem, rfl⟩
    obtain ⟨hnode, hleaf⟩ := List.mem_filter.mp hmem
    obtain ⟨r, rfl, hr⟩ := (mem_nodes h).mp hnode
    exact ⟨k, hr, Bool.and_eq_true_iff.mp hleaf⟩
  · rintro ⟨k, hget, hleaf⟩
    exact ⟨(path, k), List.mem_filter.mpr ⟨(mem_nodes h).mpr ⟨path, rfl, hget⟩,
      Bool.and_eq_true_iff.mpr hleaf⟩, rfl⟩

theorem nodup_tenantLeaves (h : Good n) : (tenantLeaves t n).Nodup :=
  (nodup_nodes h).sublist (List.filter_sublist.map Prod.fst)

/-! ## The loop of `remove_tenant` -/

/-- Only the tenant may have lost texts. -/
structure OnlyLost (t : TenantId) (n n' : Node) : Prop where
  good : Good n'
  text : n'.text = n.text
  others : ∀ t' p, t' ≠ t → (Holds t' n' p ↔ Holds t' n p)
  used : ∀ t', t' ≠ t → n'.used t' = n.used t'

theorem OnlyLost.refl (h : Good n) : OnlyLost t n n :=
  ⟨h, rfl, fun _ _ _ => Iff.rfl, fun _ _ => rfl⟩

theorem OnlyLost.of_detached {n' n'' : Node} (h' : OnlyLost t n' n'')
    (h : Detached t path k n n') : OnlyLost t n n'' := by
  refine ⟨h'.good, h'.text.trans h.text, fun t' p ht => ?_, fun t' ht => ?_⟩
  · rw [h'.others t' p ht]
    exact ⟨h.shrinks t' p, h.others t' p ht⟩
  · grind [cases Detached, cases OnlyLost]

/-- The queue after one round holds the leaves that are left. -/
theorem leaves_detached {n' : Node} {rest : List Path} (h : Good n)
    (hdetached : Detached t path k n n') (hqueue : ∀ q, q ∈ path :: rest ↔ n.IsLeaf t q)
    (hnodup : (path :: rest).Nodup) :
    (∀ q, q ∈ rest ++ ((newLeaf t path n').map Prod.fst).toList ↔ n'.IsLeaf t q) ∧
      (rest ++ ((newLeaf t path n').map Prod.fst).toList).Nodup := by
  have hleaf : ∀ q, n.IsLeaf t q ↔ _ := fun q => isLeaf_iff h
  have hleaf' : ∀ q, n'.IsLeaf t q ↔ _ := fun q => isLeaf_iff hdetached.good
  have hcarries : ∀ q, n'.carries t q ↔ n.carries t q ∧ q ≠ path := fun q => by
    simp [hdetached.carries t q]
  have hpath := (hleaf path).mp ((hqueue path).mp (List.mem_cons_self ..))
  rw [List.nodup_cons] at hnodup
  constructor
  · intro q
    rw [List.mem_append, mem_newLeaf]
    constructor
    · grind
    · grind
  · rw [List.nodup_append]
    refine ⟨hnodup.2, ?_, ?_⟩
    · cases newLeaf t path n' <;> simp
    · intro q hq q' hq' heq
      subst heq
      obtain ⟨hne, rfl, -⟩ := mem_newLeaf.mp hq'
      have hold := (hleaf _).mp ((hqueue _).mp (List.mem_cons_of_mem _ hq))
      apply hold.2 (path.getLast hne)
      rw [List.dropLast_append_getLast hne]
      exact hpath.1

/-- The loop takes the tenant off every node, and changes nothing for the others. -/
theorem removeLoop_spec (t : TenantId) (n : Node) (queue : List Path) (h : Good n)
    (hqueue : ∀ q, q ∈ queue ↔ n.IsLeaf t q) (hnodup : queue.Nodup) :
    OnlyLost t n (removeLoop t n queue) ∧ (removeLoop t n queue).has t = false := by
  induction n, queue using removeLoop.induct (t := t) with
  | case1 n =>
    rw [removeLoop]
    refine ⟨.refl h, Bool.eq_false_iff.mpr fun ht => ?_⟩
    -- a tenant that is still there has a leaf, which would be in the queue
    obtain ⟨path, hleaf⟩ := h.exists_leaf ht
    cases (hqueue path).mpr hleaf
  | case2 n path rest ih =>
    rw [removeLoop]
    obtain ⟨k, hget, ht, hleaf⟩ := (hqueue path).mp (List.mem_cons_self ..)
    have hdetached := detached_detach h hget ht hleaf
    obtain ⟨hqueue', hnodup'⟩ := leaves_detached h hdetached hqueue hnodup
    obtain ⟨hlost, hnone⟩ := ih hdetached.good hqueue' hnodup'
    exact ⟨hlost.of_detached hdetached, hnone⟩

end CodexRouter.PrefixTree
