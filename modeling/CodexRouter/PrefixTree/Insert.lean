import CodexRouter.PrefixTree.Shape

set_option autoImplicit false

/-! # Insertion into the prefix tree

One round of the insertion loop turns the child the text goes through into a node whose text is
what the two have in common, puts the tenant on it and continues below. `Inserted` says what the
loop has done to the node it starts from: the tenant's texts are the old ones and the prefixes of
the inserted text, nothing else changes, and the count of the tenant moves with its used size.
-/

namespace CodexRouter.PrefixTree

open Lib

variable {n m : Node} {t : TenantId} {c : Char}

/-! ## Counts -/

def count (counts : Table TenantId Nat) (t : TenantId) : Nat := (counts.get? t).getD 0

theorem count_addCount (counts : Table TenantId Nat) (t t' : TenantId) (k : Nat) :
    count (addCount counts t k) t' = count counts t' + if t' = t then k else 0 := by
  unfold count addCount
  rw [Table.get?_insert]
  by_cases ht : t' = t
  · simp [ht]
  · simp [ht]

variable {counts : Table TenantId Nat} {s ys rest : Text} {y : Char}

theorem contains_addCount (h : counts.contains t = true) (t' : TenantId) (k : Nat) :
    (addCount counts t k).contains t' = counts.contains t' := by
  unfold addCount Table.contains
  rw [Table.get?_insert]
  by_cases ht : t' = t
  · rw [if_pos ht, ht]
    exact h.symm
  · rw [if_neg ht]

theorem count_orInsertZero (counts : Table TenantId Nat) (t t' : TenantId) :
    count (orInsertZero counts t) t' = count counts t' := by
  unfold orInsertZero count
  split
  · rfl
  · rename_i hnone
    have hget : counts.get? t = none := by simpa [Table.contains] using hnone
    rw [Table.get?_insert]
    split
    · grind
    · rfl

theorem contains_orInsertZero (counts : Table TenantId Nat) (t t' : TenantId) :
    (orInsertZero counts t).contains t' = true ↔ counts.contains t' = true ∨ t' = t := by
  unfold orInsertZero
  split
  · grind
  · simp [Table.contains_insert, or_comm]

/-! ## Texts below a node with a new child -/

theorem holds_setChild (h : Good n) (h' : Good (n.setChild c m)) (d : Char) (p : Text) :
    Holds t (n.setChild c m) (d :: p) ↔
      if d = c then Through t m (d :: p) else Holds t n (d :: p) := by
  rw [holds_cons_iff h', Node.child?_setChild h.keys]
  by_cases hd : d = c
  · simp [hd]
  · rw [if_neg hd, if_neg hd, holds_cons_iff h]

/-! ## Turning a child into the common part -/

/-- `m'` stands for `m`, with `s` as its text. -/
structure Turned (s : Text) (m m' : Node) : Prop where
  text : m'.text.text = s
  tenants : m'.tenants = m.tenants
  good : Good m'
  through : ∀ t p, Through t m' p ↔ Through t m p
  used : ∀ t, m'.used t = m.used t

theorem Turned.refl (h : Good m) : Turned m.text.text m m :=
  ⟨rfl, rfl, h, fun _ _ => Iff.rfl, fun _ => rfl⟩

theorem splitAtChar_append {nt : NodeText} (htext : nt.text = s ++ y :: ys) (hs : s ≠ []) :
    nt.splitAtChar s.length = (.new s, .new (y :: ys)) := by
  obtain ⟨text, charCount, counted⟩ := nt
  subst counted
  cases htext
  have hpos : s.length ≠ 0 := fun h => hs (List.length_eq_zero_iff.mp h)
  simp [NodeText.splitAtChar, NodeText.new, hpos]

theorem splitNode_eq (htext : m.text.text = s ++ y :: ys) (hs : s ≠ []) :
    splitNode m s.length
      = .mk (.new s) m.tenants m.lastTenant [(y, m.setText (.new (y :: ys)))] := by
  unfold splitNode
  rw [splitAtChar_append htext hs]
  rfl

theorem splitNode_child? (nt : NodeText) (tenants : Table TenantId Nat) (last : Option TenantId)
    (y d : Char) (k : Node) :
    (Node.mk nt tenants last [(y, k)]).child? d = if d = y then some k else none := by
  unfold Node.child?
  by_cases hd : y = d
  · simp [Node.children, hd]
  · simp [Node.children, hd, Ne.symm hd]

theorem good_split (h : Good m) (hcarried : ∃ t, m.has t = true) :
    Good (.mk (.new s) m.tenants m.lastTenant [(y, m.setText (.new (y :: ys)))]) := by
  have hchild := splitNode_child? (.new s) m.tenants m.lastTenant y
    (k := m.setText (.new (y :: ys)))
  constructor
  · simp [Node.children]
  · intro d k hd
    rw [hchild] at hd
    split at hd
    · rename_i hdy
      cases hd
      exact ⟨hdy ▸ rfl, fun _ ht => ht, hcarried⟩
    · cases hd
  · intro d k hd
    rw [hchild] at hd
    split at hd
    · cases hd
      exact h.setText _
    · cases hd

/-- What is below a split is what goes through the rest of the old node. -/
theorem holds_split (q : Text) :
    Holds t (.mk (.new s) m.tenants m.lastTenant [(y, m.setText (.new (y :: ys)))]) q ↔
      q = [] ∨ Through t (m.setText (.new (y :: ys))) q := by
  rw [holds_iff]
  simp only [splitNode_child?]
  constructor
  · grind
  · rintro (hq | hthrough)
    · exact Or.inl hq
    · exact Or.inr ⟨y, _, if_pos rfl, hthrough⟩

theorem through_split (htext : m.text.text = s ++ y :: ys) (p : Text) :
    Through t (.mk (.new s) m.tenants m.lastTenant [(y, m.setText (.new (y :: ys)))]) p ↔
      Through t m p := by
  have hsame : ∀ q, Holds t (m.setText (.new (y :: ys))) q ↔ Holds t m q :=
    fun q => holds_congr rfl
  simp only [holds_split, Through, hsame, htext, prefix_append_iff]
  show m.has t = true ∧ (p <+: s ∨ ∃ q, p = s ++ q ∧ (q = [] ∨ m.has t = true ∧
    (q <+: y :: ys ∨ ∃ r, q = y :: ys ++ r ∧ Holds t m r))) ↔ _
  constructor
  · grind
  · grind

/-- A split stands for the node it splits. -/
theorem turned_splitNode (h : Good m) (hcarried : ∃ t, m.has t = true)
    (htext : m.text.text = s ++ y :: ys) (hs : s ≠ []) : Turned s m (splitNode m s.length) := by
  rw [splitNode_eq htext hs]
  refine ⟨rfl, rfl, good_split h hcarried, fun t p => through_split htext p, fun t => ?_⟩
  have hlen : m.text.charCount = s.length + (ys.length + 1) := by
    rw [m.text.counted, htext, List.length_append, List.length_cons]
  have hrest : (m.setText (.new (y :: ys))).used t
      = (if m.has t then ys.length + 1 else 0) + m.usedBelow t := used_eq t _
  rw [used_eq, used_eq, hlen]
  show (if m.has t then s.length else 0) + ((m.setText (.new (y :: ys))).used t + 0) = _
  rw [hrest]
  split <;> omega

/-- The node the text continues in: the child itself, or a split of it. -/
theorem turned_next {b : Text} (h : Good m) (hcarried : ∃ t, m.has t = true)
    (htext : m.text.text = s ++ b) (hs : s ≠ []) :
    Turned s m (if s.length < m.text.charCount then splitNode m s.length else m) := by
  have hcount : m.text.charCount = s.length + b.length := by
    rw [m.text.counted, htext, List.length_append]
  cases b with
  | nil => grind [Turned.refl]
  | cons y ys =>
    rw [if_pos (by simp [hcount])]
    exact turned_splitNode h hcarried htext hs

/-! ## The insertion loop -/

/-- What the insertion of `text` for `t` below the node `n` has made of it. -/
structure Inserted (t : TenantId) (text : Text) (n : Node) (counts : Table TenantId Nat)
    (r : Node × Table TenantId Nat) : Prop where
  good : Good r.1
  sameText : r.1.text = n.text
  has : ∀ t', r.1.has t' = n.has t'
  holds : ∀ t' p, Holds t' r.1 p ↔ Holds t' n p ∨ t' = t ∧ p <+: text
  sized : ∀ t', count r.2 t' + n.usedBelow t' = count counts t' + r.1.usedBelow t'
  registered : ∀ t', r.2.contains t' = counts.contains t'

theorem has_setTenant_of_has {epoch : Nat} (h : n.has t = true) (t' : TenantId) :
    (n.setTenant t epoch).has t' = n.has t' := by
  rw [Bool.eq_iff_iff, Node.has_setTenant]
  constructor
  · grind
  · exact Or.inl

/-- The texts that go through a node with the tenant put on it and `text` inserted below. -/
theorem through_inserted {text : Text} {m' : Node} (h : Good m) (htext : m.text.text = s)
    (htext' : m'.text.text = s) (hhas : ∀ t', m'.has t' = true ↔ m.has t' = true ∨ t' = t)
    (hholds : ∀ t' p, Holds t' m' p ↔ Holds t' m p ∨ t' = t ∧ p <+: text) (t' : TenantId)
    (p : Text) : Through t' m' p ↔ Through t' m p ∨ t' = t ∧ p <+: s ++ text := by
  unfold Through
  simp only [hhas, hholds, htext, htext', prefix_append_iff]
  constructor
  · rintro ⟨hhas, hp | ⟨q, rfl, hq | ⟨ht, hq⟩⟩⟩
    · grind
    · -- a text below the node is stored by a tenant of the node, the empty one apart
      by_cases hnil : q = []
      · grind
      · exact Or.inl ⟨h.has_of_holds hnil hq, Or.inr ⟨q, rfl, hq⟩⟩
    · exact Or.inr ⟨ht, Or.inr ⟨q, rfl, hq⟩⟩
  · grind

/-- A child with the inserted text through it gives the node the inserted text. -/
theorem holds_setChild_inserted (h : Good n) (h' : Good (n.setChild c m))
    (hthrough : ∀ t' p, Through t' m p ↔
      (∃ old, n.child? c = some old ∧ Through t' old p) ∨ t' = t ∧ p <+: c :: rest) (t' : TenantId)
    (p : Text) : Holds t' (n.setChild c m) p ↔ Holds t' n p ∨ t' = t ∧ p <+: c :: rest := by
  cases p with
  | nil => exact ⟨fun _ => Or.inl (.nil n), fun _ => .nil _⟩
  | cons d p =>
    rw [holds_setChild h h']
    by_cases hd : d = c
    · rw [if_pos hd, hthrough, hd, holds_cons_iff h]
    · grind

/-- The tenant on a node on the way. -/
structure Attached (t : TenantId) (n : Node) (counts : Table TenantId Nat)
    (r : Node × Table TenantId Nat) : Prop where
  good : Good r.1
  sameText : r.1.text = n.text
  children : r.1.children = n.children
  has : ∀ t', r.1.has t' = true ↔ n.has t' = true ∨ t' = t
  sized : ∀ t', count r.2 t' + n.used t' = count counts t' + r.1.used t'
  registered : ∀ t', r.2.contains t' = counts.contains t'

theorem attached_attach (h : Good n) (hreg : counts.contains t = true) :
    Attached t n counts (attach t n counts) := by
  unfold attach
  by_cases ht : n.has t = true
  · rw [if_pos ht]
    refine ⟨h, rfl, rfl, fun t' => ⟨Or.inl, ?_⟩, fun _ => rfl, fun _ => rfl⟩
    rintro (ht' | rfl)
    · exact ht'
    · exact ht
  · rw [if_neg ht]
    have hhas := fun t' => Node.has_setTenant n t t' 0
    refine ⟨h.setTenant t 0, rfl, rfl, hhas, fun t' => ?_, fun t' => contains_addCount hreg t' _⟩
    have hbelow : (n.setTenant t 0).usedBelow t' = n.usedBelow t' := rfl
    rw [count_addCount, used_eq, used_eq, hbelow, Node.text_setTenant]
    by_cases htt : t' = t
    · grind
    · grind

/-- No child goes the way of the text: a leaf with the tenant. -/
theorem inserted_leaf (epoch : Nat) (h : Good n) (ht : n.has t = true)
    (hreg : counts.contains t = true) (hc : n.child? c = none) :
    Inserted t (c :: rest) n counts
      (n.setChild c (.mk (.new (c :: rest)) (Table.empty.insert t epoch) (some t) []),
        addCount counts t (c :: rest).length) := by
  have hhas : ∀ t', (Table.empty.insert t epoch).contains t' = true ↔ t' = t := by
    intro t'
    rw [Table.contains_iff]
    simp [Table.mem_insert, Table.empty]
  have hedge : Edge n.tenants c
      (.mk (.new (c :: rest)) (Table.empty.insert t epoch) (some t) []) :=
    ⟨rfl, fun t' ht' => (hhas t').mp ht' ▸ ht, ⟨t, (hhas t).mpr rfl⟩⟩
  have hgood := h.setChild hedge (.leaf _ _ _)
  refine ⟨hgood, rfl, fun _ => rfl, holds_setChild_inserted h hgood fun t' p => ?_, fun t' => ?_,
    fun t' => contains_addCount hreg t' _⟩
  · have hbelow : ∀ q, Holds t' (.mk (.new (c :: rest)) (Table.empty.insert t epoch) (some t) []) q
        ↔ q = [] := by
      intro q
      rw [holds_iff]
      simp [Node.child?, Node.children]
    have hown : (Node.mk (.new (c :: rest)) (Table.empty.insert t epoch) (some t) []).has t' = true
        ↔ t' = t := hhas t'
    unfold Through
    simp only [hbelow, hc, hown]
    show t' = t ∧ (p <+: c :: rest ∨ ∃ q, p = c :: rest ++ q ∧ q = []) ↔ _
    constructor
    · grind
    · grind
  · have herase : (n.eraseChild c).usedBelow t' = n.usedBelow t' := by
      unfold Node.usedBelow
      rw [eraseChild_of_none h.keys hc]
    rw [usedBelow_setChild t' h.keys, herase, count_addCount, used_eq]
    show _ = _ +
      ((if (Table.empty.insert t epoch).contains t' = true then (c :: rest).length else 0)
      + 0 + n.usedBelow t')
    simp only [hhas]
    split <;> omega

/-- The child on the way, once the tenant is on it and the rest inserted below it. -/
theorem inserted_child {a : Text} {matched next : Node} {w r : Node × Table TenantId Nat}
    (h : Good n) (ht : n.has t = true) (hc : n.child? c = some matched) (hs : s ≠ [])
    (htext : c :: rest = s ++ a) (hturned : Turned s matched next)
    (hattached : Attached t next counts w) (hinserted : Inserted t a w.1 w.2 r) :
    Inserted t (c :: rest) n counts (n.setChild c r.1, r.2) := by
  have hown : r.1.text.text = s := by rw [hinserted.sameText, hattached.sameText, hturned.text]
  have hhas : ∀ t', r.1.has t' = true ↔ next.has t' = true ∨ t' = t := fun t' => by
    rw [hinserted.has, hattached.has]
  have hnext : ∀ t', next.has t' = matched.has t' := fun t' => by
    unfold Node.has
    rw [hturned.tenants]
  have hedge : Edge n.tenants c r.1 := by
    refine ⟨?_, fun t' ht' => ?_, ⟨t, (hhas t).mpr (Or.inr rfl)⟩⟩
    · cases s with
      | nil => exact absurd rfl hs
      | cons d s => grind [NodeText.firstChar]
    · rcases (hhas t').mp ht' with ht' | rfl
      · exact (h.edge hc).kept t' (hnext t' ▸ ht')
      · exact ht
  have hgood := h.setChild hedge hinserted.good
  refine ⟨hgood, rfl, fun _ => rfl, holds_setChild_inserted h hgood fun t' p => ?_, fun t' => ?_,
    fun t' => by rw [hinserted.registered, hattached.registered]⟩
  · have hholds : ∀ t' q, Holds t' r.1 q ↔ Holds t' next q ∨ t' = t ∧ q <+: a := fun t' q => by
      rw [hinserted.holds, holds_congr hattached.children]
    rw [through_inserted hturned.good hturned.text hown hhas hholds, hturned.through, htext, hc]
    simp
  · have hused : r.1.used t' + w.1.usedBelow t' = w.1.used t' + r.1.usedBelow t' := by
      grind [used_eq, cases Inserted]
    have hbelow := hinserted.sized t'
    have hway := hattached.sized t'
    have hsplit := hturned.used t'
    show count r.2 t' + _ = _
    rw [usedBelow_setChild t' h.keys, usedBelow_eq t' h.keys hc]
    omega

/-- The loop inserts the text. -/
theorem inserted_insertLoop (epoch : Nat) :
    ∀ (fuel : Nat) (n : Node) (text : Text) (counts : Table TenantId Nat), Good n →
      n.has t = true → counts.contains t = true → text.length ≤ fuel →
        Inserted t text n counts (insertLoop t epoch fuel n text counts)
  | fuel, n, [], counts, h, ht, _, _ => by
      have hloop : insertLoop t epoch fuel n [] counts = (n.setTenant t epoch, counts) := by
        cases fuel <;> rfl
      rw [hloop]
      -- the end of the text: only the timestamp on the last node changes
      refine ⟨h.setTenant t epoch, rfl, has_setTenant_of_has ht, fun t' p => ?_, fun _ => rfl,
        fun _ => rfl⟩
      have hsame : Holds t' (n.setTenant t epoch) p ↔ Holds t' n p := holds_congr rfl
      rw [hsame]
      constructor
      · exact Or.inl
      · rintro (hp | ⟨-, hp⟩)
        · exact hp
        · rw [List.prefix_nil.mp hp]
          exact .nil n
  | 0, _, _ :: _, _, _, _, _, hfuel => absurd hfuel (by simp)
  | fuel + 1, n, c :: rest, counts, h, ht, hreg, hfuel => by
      cases hc : n.child? c with
      | none =>
        have hloop : insertLoop t epoch (fuel + 1) n (c :: rest) counts
            = (n.setChild c (.mk (.new (c :: rest)) (Table.empty.insert t epoch) (some t) []),
              addCount counts t (c :: rest).length) := by
          rw [insertLoop, hc]
        rw [hloop]
        exact inserted_leaf epoch h ht hreg hc
      | some matched =>
        obtain ⟨s, a, b, ha, hb, hshared, hpart⟩ :=
          commonLength_spec (c :: rest) matched.text.text
        -- both texts start with `c`, so that they have a character in common
        have hs : s ≠ [] := by grind [h.text_eq_cons]
        have hadvance : advanceByChars (c :: rest) s.length = a := by
          rw [advanceByChars, ha, List.drop_left]
        have hturned := turned_next (h.child hc) (h.edge hc).carried hb hs
        have hattached : Attached t _ counts _ := attached_attach hturned.good hreg
        rw [insertLoop, hc]
        simp only [sharedPrefixCount, hshared, hadvance]
        refine inserted_child h ht hc hs ha hturned hattached
          (inserted_insertLoop epoch fuel _ a _ hattached.good ?_ ?_ ?_)
        · exact (hattached.has t).mpr (Or.inr rfl)
        · rw [hattached.registered]
          exact hreg
        · -- the round has taken the common part, which is not empty
          have hpos := List.length_pos_iff.mpr hs
          have hlen := congrArg List.length ha
          rw [List.length_append] at hlen
          omega

end CodexRouter.PrefixTree
