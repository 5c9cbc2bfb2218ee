import CodexRouter.PrefixTree.Basic

set_option autoImplicit false

/-! # The shape of a prefix tree and the texts in it

`Good` is the invariant of the nodes: a child stands under the first character of its text, has
a tenant, and all its tenants are tenants of its parent too. `Holds t n p` says that the tenant
`t` has stored the text `p` below the node `n`; on a good node the first character of `p` decides
under which child to look for it.
-/

namespace CodexRouter.PrefixTree

open Lib

variable {n m : Node} {t : TenantId} {c : Char} {p : Text}

/-! ## Nodes and their parts -/

namespace Node

@[simp] theorem text_setChild : (n.setChild c m).text = n.text := rfl

@[simp] theorem tenants_setChild : (n.setChild c m).tenants = n.tenants := rfl

@[simp] theorem text_setTenant {epoch : Nat} : (n.setTenant t epoch).text = n.text := rfl

theorem has_setTenant (n : Node) (t t' : TenantId) (epoch : Nat) :
    (n.setTenant t epoch).has t' = true ↔ n.has t' = true ∨ t' = t := by
  show (n.tenants.insert t epoch).contains t' = true ↔ n.tenants.contains t' = true ∨ t' = t
  simp [Table.contains_insert, or_comm]

theorem has_dropTenant (n : Node) (t t' : TenantId) :
    (n.dropTenant t).has t' = true ↔ n.has t' = true ∧ t' ≠ t := by
  show (n.tenants.erase t).contains t' = true ↔ n.tenants.contains t' = true ∧ t' ≠ t
  simp [Table.contains_erase, and_comm]

section

variable (hkeys : (n.children.map Prod.fst).Nodup)

include hkeys

theorem child?_setChild (d : Char) :
    (n.setChild c m).child? d = if d = c then some m else n.child? d :=
  Table.get?_insert ⟨n.children, hkeys⟩ c d m

theorem child?_eraseChild (d : Char) :
    (n.eraseChild c).child? d = if d = c then none else n.child? d :=
  Table.get?_erase ⟨n.children, hkeys⟩ c d

theorem child?_eq_some_iff :
    n.child? c = some m ↔ (c, m) ∈ n.children :=
  Table.get?_eq_some_iff (t := ⟨n.children, hkeys⟩)

theorem noChildHas_iff :
    n.noChildHas t = true ↔ ∀ c m, n.child? c = some m → m.has t = false := by
  unfold noChildHas
  rw [List.all_eq_true]
  constructor
  · grind [child?_eq_some_iff]
  · rintro h ⟨c, m⟩ hmem
    have := h c m ((child?_eq_some_iff hkeys).mpr hmem)
    simpa using this

end

end Node

/-! ## Good nodes -/

/-- What a child owes to its key and to its parent's tenants. -/
structure Edge (tenants : Table TenantId Nat) (c : Char) (m : Node) : Prop where
  first : m.text.firstChar = some c
  kept : ∀ t, m.has t = true → tenants.contains t = true
  carried : ∃ t, m.has t = true

inductive Good : Node → Prop
  | mk {n : Node} (keys : (n.children.map Prod.fst).Nodup)
      (edge : ∀ c m, n.child? c = some m → Edge n.tenants c m)
      (deeper : ∀ c m, n.child? c = some m → Good m) : Good n

section

variable (h : Good n)

include h

theorem Good.keys : (n.children.map Prod.fst).Nodup := by
  cases h
  assumption

theorem Good.edge (hc : n.child? c = some m) : Edge n.tenants c m := by
  cases h with
  | mk _ edge _ => exact edge c m hc

theorem Good.child (hc : n.child? c = some m) : Good m := by
  cases h with
  | mk _ _ deeper => exact deeper c m hc

theorem Good.text_eq_cons (hc : n.child? c = some m) :
    ∃ rest, m.text.text = c :: rest := by
  have hfirst : m.text.text.head? = some c := (h.edge hc).first
  cases htext : m.text.text with
  | nil => rw [htext] at hfirst; cases hfirst
  | cons d rest => grind

omit h in
theorem Good.leaf (text : NodeText) (tenants : Table TenantId Nat) (last : Option TenantId) :
    Good (.mk text tenants last []) :=
  .mk List.nodup_nil (fun _ _ h => by cases h) (fun _ _ h => by cases h)

/-- A node with the children of a good one, and its tenants at least. -/
theorem Good.of_children {n' : Node} (hchildren : n'.children = n.children)
    (htenants : ∀ t, n.noChildHas t = false → n.has t = true → n'.has t = true) : Good n' := by
  have hchild : ∀ c, n'.child? c = n.child? c := fun c => by
    unfold Node.child?
    rw [hchildren]
  constructor
  · rw [hchildren]
    exact h.keys
  · intro c m hc
    rw [hchild] at hc
    have hedge := h.edge hc
    refine ⟨hedge.first, fun t ht => ?_, hedge.carried⟩
    apply htenants t _ (hedge.kept t ht)
    by_contra hnone
    rw [Bool.not_eq_false, Node.noChildHas_iff h.keys] at hnone
    rw [hnone c m hc] at ht
    cases ht
  · intro c m hc
    rw [hchild] at hc
    exact h.child hc

theorem Good.setTenant (t : TenantId) (epoch : Nat) : Good (n.setTenant t epoch) :=
  h.of_children rfl fun t' _ ht => (Node.has_setTenant n t t' epoch).mpr (Or.inl ht)

theorem Good.dropTenant (hleaf : n.noChildHas t = true) : Good (n.dropTenant t) := by
  refine h.of_children rfl ?_
  intro t' hchild ht
  refine (Node.has_dropTenant n t t').mpr ⟨ht, fun heq => ?_⟩
  rw [heq, hleaf] at hchild
  cases hchild

theorem Good.setText (nt : NodeText) : Good (n.setText nt) :=
  h.of_children rfl fun _ _ ht => ht

theorem Good.setLastTenant (t : TenantId) : Good (n.setLastTenant t) :=
  h.of_children rfl fun _ _ ht => ht

theorem Good.setChild (hedge : Edge n.tenants c m) (hm : Good m) :
    Good (n.setChild c m) := by
  constructor
  · show ((Table.insertEntry c m n.children).map Prod.fst).Nodup
    exact (Table.insert ⟨n.children, h.keys⟩ c m).nodup
  · intro d m' hd
    rw [Node.child?_setChild h.keys] at hd
    split at hd
    · rename_i hdc
      cases hd
      exact hdc ▸ hedge
    · exact h.edge hd
  · intro d m' hd
    rw [Node.child?_setChild h.keys] at hd
    split at hd
    · cases hd
      exact hm
    · exact h.child hd

theorem Good.eraseChild (c : Char) : Good (n.eraseChild c) := by
  constructor
  · exact (Table.erase ⟨n.children, h.keys⟩ c).nodup
  · intro d m' hd
    rw [Node.child?_eraseChild h.keys] at hd
    split at hd
    · cases hd
    · exact h.edge hd
  · intro d m' hd
    rw [Node.child?_eraseChild h.keys] at hd
    split at hd
    · cases hd
    · exact h.child hd

end

/-! ## Used sizes -/

/-- `get_used_size_per_tenant` at one tenant: the characters of the nodes that carry it. -/
def Node.used (t : TenantId) : Node → Nat
  | .mk text tenants _ children =>
    (if tenants.contains t then text.charCount else 0) + usedIn children
where
  usedIn : List (Char × Node) → Nat
    | [] => 0
    | (_, m) :: rest => m.used t + usedIn rest

/-- The used size below a node. -/
def Node.usedBelow (t : TenantId) (n : Node) : Nat := (n.children.map fun e => e.2.used t).sum

theorem usedIn_eq_sum (t : TenantId) (children : List (Char × Node)) :
    Node.used.usedIn t children = (children.map fun e => e.2.used t).sum := by
  induction children with
  | nil => rfl
  | cons e children ih => rw [Node.used.usedIn, ih, List.map_cons, List.sum_cons]

theorem used_eq (t : TenantId) (n : Node) :
    n.used t = (if n.has t then n.text.charCount else 0) + n.usedBelow t := by
  cases n with
  | mk text tenants last children => rw [Node.used, usedIn_eq_sum]; rfl

/-- The used size below a node, one child apart. -/
theorem usedBelow_eq (t : TenantId) (hkeys : (n.children.map Prod.fst).Nodup)
    (hc : n.child? c = some m) : n.usedBelow t = m.used t + (n.eraseChild c).usedBelow t := by
  have hperm := Table.perm_of_get? (t := ⟨n.children, hkeys⟩) hc
  exact (hperm.map fun e => e.2.used t).sum_eq

theorem usedBelow_setChild (t : TenantId) (hkeys : (n.children.map Prod.fst).Nodup) :
    (n.setChild c m).usedBelow t = m.used t + (n.eraseChild c).usedBelow t := by
  have hperm := Table.perm_insert ⟨n.children, hkeys⟩ c m
  exact (hperm.map fun e => e.2.used t).sum_eq

theorem eraseChild_of_none (hkeys : (n.children.map Prod.fst).Nodup) (hc : n.child? c = none) :
    (n.eraseChild c).children = n.children := by
  have hfree : (⟨n.children, hkeys⟩ : Table Char Node).contains c = false := by
    show (n.child? c).isSome = false
    rw [hc]
    rfl
  exact congrArg Table.entries (Table.erase_of_not_contains hfree)

/-! ## Stored texts -/

/-- The tenant `t` has stored `p` below the node. -/
inductive Holds (t : TenantId) : Node → Text → Prop
  | nil (n : Node) : Holds t n []
  | edge {n : Node} {c : Char} {m : Node} {p : Text} (hc : n.child? c = some m)
      (ht : m.has t = true) (hp : p <+: m.text.text) : Holds t n p
  | deeper {n : Node} {c : Char} {m : Node} {q : Text} (hc : n.child? c = some m)
      (ht : m.has t = true) (hq : Holds t m q) : Holds t n (m.text.text ++ q)

/-- The texts that go through a node, its own text included. -/
def Through (t : TenantId) (m : Node) (p : Text) : Prop :=
  m.has t = true ∧ (p <+: m.text.text ∨ ∃ q, p = m.text.text ++ q ∧ Holds t m q)

theorem holds_iff :
    Holds t n p ↔ p = [] ∨ ∃ c m, n.child? c = some m ∧ Through t m p := by
  constructor
  · intro h
    cases h with
    | nil => exact Or.inl rfl
    | edge hc ht hp => exact Or.inr ⟨_, _, hc, ht, Or.inl hp⟩
    | deeper hc ht hq => exact Or.inr ⟨_, _, hc, ht, Or.inr ⟨_, rfl, hq⟩⟩
  · rintro (rfl | ⟨c, m, hc, ht, hp | ⟨q, rfl, hq⟩⟩)
    · exact .nil n
    · exact .edge hc ht hp
    · exact .deeper hc ht hq

/-- The first character of a text decides where it is. -/
theorem holds_cons_iff (h : Good n) :
    Holds t n (c :: p) ↔ ∃ m, n.child? c = some m ∧ Through t m (c :: p) := by
  rw [holds_iff]
  constructor
  · rintro (hnil | ⟨d, m, hd, ht, hp⟩)
    · cases hnil
    · obtain ⟨rest, htext⟩ := h.text_eq_cons hd
      have hdc : d = c := by grind
      exact ⟨m, hdc ▸ hd, ht, hp⟩
  · rintro ⟨m, hc, hthrough⟩
    exact Or.inr ⟨c, m, hc, hthrough⟩

theorem holds_cons_of_child (h : Good n) (hc : n.child? c = some m) :
    Holds t n (c :: p) ↔ Through t m (c :: p) := by
  simp [holds_cons_iff h, hc]

theorem holds_congr {n' : Node} (hchildren : n'.children = n.children) :
    Holds t n' p ↔ Holds t n p := by
  have hchild : ∀ c, n'.child? c = n.child? c := fun c => by
    unfold Node.child?
    rw [hchildren]
  simp only [holds_iff, hchild]

/-- A tenant with a text below a node is on the node. -/
theorem Good.has_of_holds (h : Good n) (hp : p ≠ []) (hholds : Holds t n p) : n.has t = true := by
  rw [holds_iff] at hholds
  rcases hholds with rfl | ⟨c, m, hc, ht, -⟩
  · exact absurd rfl hp
  · exact (h.edge hc).kept t ht

/-- What a tenant has stored is closed under prefixes. -/
theorem Holds.initial {q : Text} (h : Holds t n p) (hq : q <+: p) : Holds t n q := by
  induction h generalizing q with
  | nil n =>
    rw [List.prefix_nil.mp hq]
    exact .nil n
  | edge hc ht hp => exact .edge hc ht (hq.trans hp)
  | deeper hc ht _ ih =>
    rcases prefix_append_iff.mp hq with hq | ⟨r, rfl, hr⟩
    · exact .edge hc ht hq
    · exact .deeper hc ht (ih hr)

end CodexRouter.PrefixTree
