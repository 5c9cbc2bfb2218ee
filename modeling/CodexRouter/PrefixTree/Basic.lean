import CodexRouter.Lib.CommonPrefix
import CodexRouter.Lib.Table

set_option autoImplicit false

/-! # The prefix tree of the router

`router/src/tree.rs`: a radix tree whose nodes carry the tenants that stored a text through
them. The operations here run one after another, so that a node is a value and not a shared
cell: the source's `parent` of a node is the node it hangs under, and a reference to a node
that outlives an operation on it is the path of child keys that leads there.

Texts are lists of characters; slicing by bytes in the source is a shortcut for the same
slices. Three things are left open and are arguments of the operations: the value `get_epoch`
returns, since all trees of a process share its counter; which entry of a tenant map comes
first when it is iterated; and which of several heap entries with the least timestamp is
popped first.
-/

namespace CodexRouter.PrefixTree

open Lib

abbrev Text := List Char

abbrev TenantId := String

/-! ## Node texts -/

/-- A text with its number of characters. -/
structure NodeText where
  text : Text
  charCount : Nat
  counted : charCount = text.length

namespace NodeText

def new (text : Text) : NodeText := ⟨text, text.length, rfl⟩

def empty : NodeText := ⟨[], 0, rfl⟩

def firstChar (nt : NodeText) : Option Char := nt.text.head?

def splitAtChar (nt : NodeText) (charIdx : Nat) : NodeText × NodeText :=
  if charIdx = 0 then (empty, nt)
  else if h : charIdx ≥ nt.charCount then (nt, empty)
  else
    (⟨nt.text.take charIdx, charIdx, by
        have := nt.counted
        simp
        omega⟩,
      ⟨nt.text.drop charIdx, nt.charCount - charIdx, by simp [nt.counted]⟩)

end NodeText

def sharedPrefixCount (a b : Text) : Nat := commonLength a b

def advanceByChars (s : Text) (n : Nat) : Text := s.drop n

def takeChars (s : Text) (n : Nat) : Text := s.take n

/-! ## Nodes -/

inductive Node
  | mk (text : NodeText) (tenantLastAccessTime : Table TenantId Nat)
      (lastTenant : Option TenantId) (children : List (Char × Node))

/-- The keys of the children on the way from the root to a node. -/
abbrev Path := List Char

namespace Node

def text : Node → NodeText
  | mk text _ _ _ => text

def tenants : Node → Table TenantId Nat
  | mk _ tenants _ _ => tenants

def lastTenant : Node → Option TenantId
  | mk _ _ last _ => last

def children : Node → List (Char × Node)
  | mk _ _ _ children => children

def has (n : Node) (t : TenantId) : Bool := n.tenants.contains t

def child? (n : Node) (c : Char) : Option Node :=
  (n.children.find? fun e => e.1 = c).map Prod.snd

def setChild (n : Node) (c : Char) (m : Node) : Node :=
  mk n.text n.tenants n.lastTenant (Table.insertEntry c m n.children)

def eraseChild (n : Node) (c : Char) : Node :=
  mk n.text n.tenants n.lastTenant (n.children.filter fun e => e.1 ≠ c)

def setTenant (n : Node) (t : TenantId) (epoch : Nat) : Node :=
  mk n.text (n.tenants.insert t epoch) n.lastTenant n.children

def dropTenant (n : Node) (t : TenantId) : Node :=
  mk n.text (n.tenants.erase t) n.lastTenant n.children

def setText (n : Node) (text : NodeText) : Node := mk text n.tenants n.lastTenant n.children

def setLastTenant (n : Node) (t : TenantId) : Node := mk n.text n.tenants (some t) n.children

/-- No child of the node has the tenant. -/
def noChildHas (n : Node) (t : TenantId) : Bool := n.children.all fun e => !e.2.has t

def get? : Node → Path → Option Node
  | n, [] => some n
  | n, c :: path => (n.child? c).bind fun m => m.get? path

def modify (f : Node → Node) : Path → Node → Node
  | [], n => f n
  | c :: path, n =>
    match n.child? c with
    | none => n
    | some m => n.setChild c (modify f path m)

end Node

structure Tree where
  root : Node
  tenantCharCount : Table TenantId Nat

def Tree.new : Tree := ⟨.mk .empty Table.empty none [], Table.empty⟩

/-! ## Insertion -/

/-- `entry(tenant).and_modify(+= n).or_insert(n)`. -/
def addCount (counts : Table TenantId Nat) (t : TenantId) (n : Nat) : Table TenantId Nat :=
  counts.insert t ((counts.get? t).getD 0 + n)

/-- `entry(tenant).or_insert(0)`. -/
def orInsertZero (counts : Table TenantId Nat) (t : TenantId) : Table TenantId Nat :=
  if counts.contains t then counts else counts.insert t 0

/-- The new node of a split: the shared part of the text, the tenants, and the old node with
the rest of the text under it. -/
def splitNode (matched : Node) (shared : Nat) : Node :=
  let (matchedText, contractedText) := matched.text.splitAtChar shared
  .mk matchedText matched.tenants matched.lastTenant
    ((contractedText.firstChar.map fun c => (c, matched.setText contractedText)).toList)

/-- The tenant is put on a node on the way, if it is not there, and its count goes up by the
length of the node's text. -/
def attach (t : TenantId) (n : Node) (counts : Table TenantId Nat) : Node × Table TenantId Nat :=
  if n.has t then (n, counts)
  else (n.setTenant t 0, addCount counts t n.text.charCount)

/-- The loop of `insert`. Each round takes at least one character when every child stands
under the first character of its text, so that the fuel is never short. -/
def insertLoop (t : TenantId) (epoch : Nat) :
    Nat → Node → Text → Table TenantId Nat → Node × Table TenantId Nat
  | _, prev, [], counts => (prev.setTenant t epoch, counts)
  | 0, prev, _ :: _, counts => (prev, counts)
  | fuel + 1, prev, c :: rest, counts =>
    let remaining := c :: rest
    match prev.child? c with
    | none =>
      -- no child under the first character: a leaf with all that remains
      let leaf := Node.mk (.new remaining) (Table.empty.insert t epoch) (some t) []
      (prev.setChild c leaf, addCount counts t remaining.length)
    | some matched =>
      let shared := sharedPrefixCount remaining matched.text.text
      -- a child whose text goes another way is split where the two part
      let next := if shared < matched.text.charCount then splitNode matched shared else matched
      let (next, counts) := attach t next counts
      let (next, counts) :=
        insertLoop t epoch fuel next (advanceByChars remaining shared) counts
      (prev.setChild c next, counts)

def Tree.insert (tree : Tree) (text : Text) (t : TenantId) (epoch : Nat) : Tree :=
  -- a tenant is on the root from its first insertion on
  let root := if tree.root.has t then tree.root else tree.root.setTenant t 0
  let counts := orInsertZero tree.tenantCharCount t
  let (root, counts) := insertLoop t epoch text.length root text counts
  ⟨root, counts⟩

/-! ## Matching -/

/-- The walk of the two matches: the path it ends on and the number of characters matched.
A child that is not `allowed` stops it. -/
def walk (allowed : Node → Bool) : Nat → Node → Text → Path × Nat
  | _, _, [] => ([], 0)
  | 0, _, _ :: _ => ([], 0)
  | fuel + 1, prev, c :: rest =>
    let remaining := c :: rest
    match prev.child? c with
    | none => ([], 0)
    | some matched =>
      if allowed matched then
        let shared := sharedPrefixCount remaining matched.text.text
        if shared = matched.text.charCount then
          let (path, n) := walk allowed fuel matched (advanceByChars remaining shared)
          (c :: path, shared + n)
        -- the text leaves the child on the way, and the walk ends on it
        else ([c], shared)
      else ([], 0)

structure PrefixMatchResult where
  tenant : TenantId
  matchedCharCount : Nat
  inputCharCount : Nat

/-- The first tenant of an iteration, the one that `first` picks. -/
def someTenant (first : Nat) (n : Node) : TenantId :=
  (n.tenants.keys[first % n.tenants.keys.length]?).getD "empty"

def matchedTenant (first : Nat) (n : Node) : TenantId :=
  match n.lastTenant with
  | some t => if n.has t then t else someTenant first n
  | none => someTenant first n

/-- The tenant is cached and, one time in eight, its timestamp is set. -/
def touchMatched (t : TenantId) (epoch : Nat) (n : Node) : Node :=
  if epoch % 8 = 0 then (n.setLastTenant t).setTenant t epoch else n.setLastTenant t

def Tree.prefixMatchWithCounts (tree : Tree) (text : Text) (epoch first : Nat) :
    PrefixMatchResult × Tree :=
  let (path, matchedChars) := walk (fun _ => true) text.length tree.root text
  let curr := (tree.root.get? path).getD tree.root
  let tenant := matchedTenant first curr
  (⟨tenant, matchedChars, text.length⟩,
    { tree with root := tree.root.modify (touchMatched tenant epoch) path })

def Tree.prefixMatchTenant (tree : Tree) (text : Text) (t : TenantId) (epoch : Nat) :
    Text × Tree :=
  let (path, matchedChars) := walk (fun n => n.has t) text.length tree.root text
  let touch := fun n : Node => if n.has t then n.setTenant t epoch else n
  (takeChars text matchedChars, { tree with root := tree.root.modify touch path })

/-! ## Taking a tenant off a node -/

/-- The tenant leaves the node at `path`, and the node its parent when nothing is left of it. -/
def detach (t : TenantId) (path : Path) (root : Node) : Node :=
  let root := root.modify (fun n => n.dropTenant t) path
  match root.get? path, path with
  | some n, _ :: _ =>
    -- the parent knows the node by the first character of its text
    if n.children.isEmpty && n.tenants.size == 0 then
      match n.text.firstChar with
      | some c => root.modify (fun parent => parent.eraseChild c) path.dropLast
      | none => root
    else root
  | _, _ => root

/-- The parent of the node at `path`, with the timestamp of the tenant, when it has become a
leaf of the tenant. -/
def newLeaf (t : TenantId) (path : Path) (root : Node) : Option (Path × Nat) :=
  match path with
  | [] => none
  | _ :: _ =>
    match root.get? path.dropLast with
    | none => none
    | some parent =>
      if parent.noChildHas t then
        (parent.tenants.get? t).map fun timestamp => (path.dropLast, timestamp)
      else none

/-- The nodes of a subtree with their paths, from the node at `path` on. -/
def nodes (path : Path) : Node → List (Path × Node)
  | .mk text tenants last children => (path, .mk text tenants last children) :: below children
where
  below : List (Char × Node) → List (Path × Node)
    | [] => []
    | (c, m) :: rest => nodes (path ++ [c]) m ++ below rest

/-! ## Eviction -/

structure EvictionEntry where
  timestamp : Nat
  tenant : TenantId
  node : Path
  deriving DecidableEq

/-- The tenants of a node that no child of it has. -/
def leafOf (n : Node) : List TenantId := n.tenants.keys.filter fun t => n.noChildHas t

/-- The entries the heap starts with. -/
def evictionLeaves (root : Node) : List EvictionEntry :=
  (nodes [] root).flatMap fun e =>
    (leafOf e.2).filterMap fun t =>
      (e.2.tenants.get? t).map fun timestamp => ⟨timestamp, t, e.1⟩

/-- The entries with the least timestamp. -/
def earliest (queue : List EvictionEntry) : List EvictionEntry :=
  queue.filter fun e => queue.all fun e' => e.timestamp ≤ e'.timestamp

/-- `pq.pop()`; `tie` says which of the entries with the least timestamp it is. -/
def popMin (tie : Nat) (queue : List EvictionEntry) :
    Option (EvictionEntry × List EvictionEntry) :=
  ((earliest queue)[tie % (earliest queue).length]?).map fun e => (e, queue.erase e)

/-- One entry of the heap: nothing, when its tenant is small enough or the node is no leaf of it
any more; else the tenant leaves the node, and the parent may become a leaf. -/
def evictEntry (maxSize : Nat) (tree : Tree) (entry : EvictionEntry) :
    Tree × List EvictionEntry :=
  -- the count is read again for each entry, so that a tenant keeps its newer leaves
  if (tree.tenantCharCount.get? entry.tenant).any fun used => used ≤ maxSize then (tree, [])
  else
    match tree.root.get? entry.node with
    | none => (tree, [])
    | some n =>
      if n.has entry.tenant && n.noChildHas entry.tenant then
        let counts :=
          match tree.tenantCharCount.get? entry.tenant with
          | some count => tree.tenantCharCount.insert entry.tenant (count - n.text.charCount)
          | none => tree.tenantCharCount
        let root := detach entry.tenant entry.node tree.root
        (⟨root, counts⟩, ((newLeaf entry.tenant entry.node root).map fun e =>
          ⟨e.2, entry.tenant, e.1⟩).toList)
      else (tree, [])

/-- What the loops of eviction and removal bring down: a path gives way to a shorter one. -/
def weight (queue : List Path) : Nat := (queue.map fun path => path.length + 1).sum

theorem weight_newLeaf (t : TenantId) (path : Path) (root : Node) :
    weight ((newLeaf t path root).map Prod.fst).toList ≤ path.length := by
  unfold newLeaf
  cases path with
  | nil => simp [weight]
  | cons c path =>
    simp only
    split
    · simp [weight]
    · split
      · cases ‹Node›.tenants.get? t <;> simp [weight]
      · simp [weight]

def entryWeight (queue : List EvictionEntry) : Nat := weight (queue.map EvictionEntry.node)

theorem entryWeight_popMin {tie : Nat} {queue rest : List EvictionEntry} {entry : EvictionEntry}
    (h : popMin tie queue = some (entry, rest)) :
    entryWeight rest + (entry.node.length + 1) = entryWeight queue := by
  obtain ⟨e, he, heq⟩ := Option.map_eq_some_iff.mp h
  obtain ⟨rfl, rfl⟩ := Prod.mk.inj heq
  have hmem : e ∈ queue := (List.mem_filter.mp (List.mem_of_getElem? he)).1
  have hperm := ((List.perm_cons_erase hmem).map EvictionEntry.node).map
    fun path => path.length + 1
  have hsum := hperm.sum_eq
  simp only [List.map_cons, List.sum_cons] at hsum
  unfold entryWeight weight
  omega

theorem entryWeight_evictEntry (maxSize : Nat) (tree : Tree) (entry : EvictionEntry) :
    entryWeight (evictEntry maxSize tree entry).2 ≤ entry.node.length := by
  have hnone : entryWeight [] ≤ entry.node.length := Nat.zero_le _
  unfold evictEntry
  split
  · exact hnone
  · split
    · exact hnone
    · split
      · simp only
        have hleaf := weight_newLeaf entry.tenant entry.node
          (detach entry.tenant entry.node tree.root)
        generalize newLeaf entry.tenant entry.node _ = leaf at hleaf
        cases leaf with
        | none => exact hnone
        | some e => exact hleaf
      · exact hnone

def evictLoop (maxSize : Nat) (ties : Nat → Nat) (tree : Tree) (queue : List EvictionEntry) :
    Tree :=
  match _hpop : popMin (ties 0) queue with
  | none => tree
  | some (entry, rest) =>
    evictLoop maxSize (fun i => ties (i + 1)) (evictEntry maxSize tree entry).1
      ((evictEntry maxSize tree entry).2 ++ rest)
termination_by entryWeight queue
decreasing_by
  have hpop := entryWeight_popMin _hpop
  have hentry := entryWeight_evictEntry maxSize tree entry
  simp only [entryWeight, weight, List.map_append, List.sum_append] at hpop hentry ⊢
  omega

def Tree.evictTenantBySize (tree : Tree) (maxSize : Nat) (ties : Nat → Nat) : Tree :=
  evictLoop maxSize ties tree (evictionLeaves tree.root)

/-! ## Removal of a tenant -/

def removeLoop (t : TenantId) (root : Node) : List Path → Node
  | [] => root
  | path :: rest =>
    removeLoop t (detach t path root)
      (rest ++ ((newLeaf t path (detach t path root)).map Prod.fst).toList)
termination_by queue => weight queue
decreasing_by
  have hleaf := weight_newLeaf t path (detach t path root)
  simp only [weight, List.map_append, List.sum_append, List.map_cons, List.sum_cons] at hleaf ⊢
  omega

/-- The leaves of the tenant. -/
def tenantLeaves (t : TenantId) (root : Node) : List Path :=
  ((nodes [] root).filter fun e => e.2.has t && e.2.noChildHas t).map Prod.fst

def Tree.removeTenant (tree : Tree) (t : TenantId) : Tree :=
  ⟨removeLoop t tree.root (tenantLeaves t tree.root), tree.tenantCharCount.erase t⟩

/-! ## Sequences of operations -/

inductive Op
  | insert (text : Text) (t : TenantId) (epoch : Nat)
  | prefixMatch (text : Text) (epoch first : Nat)
  | prefixMatchTenant (text : Text) (t : TenantId) (epoch : Nat)
  | evict (maxSize : Nat) (ties : Nat → Nat)
  | removeTenant (t : TenantId)

def Tree.apply (tree : Tree) : Op → Tree
  | .insert text t epoch => tree.insert text t epoch
  | .prefixMatch text epoch first => (tree.prefixMatchWithCounts text epoch first).2
  | .prefixMatchTenant text t epoch => (tree.prefixMatchTenant text t epoch).2
  | .evict maxSize ties => tree.evictTenantBySize maxSize ties
  | .removeTenant t => tree.removeTenant t

/-- The tree after a sequence of operations. -/
def Tree.after (ops : List Op) : Tree := ops.foldl Tree.apply Tree.new

end CodexRouter.PrefixTree
