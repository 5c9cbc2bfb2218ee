import CodexRouter.Lib.Interleaving
import CodexRouter.Lib.OrderedMap

set_option autoImplicit false

/-! # The consistent hash policy

`router/src/policies/consistent_hash.rs`: a ring of virtual nodes, and the list of workers it was
built from, which tells whether the ring has to be built again. The ring and the list stand behind
locks of their own: `update_hash_ring` reads the list, writes the ring and then writes the list,
`reset` clears the ring and then the list. The property is `Built`: the ring is the ring of the
list.
-/

namespace CodexRouter.Policies

open Lib

namespace ConsistentHash

/-! ## The hash -/

/-- The multiplier `M` of MurmurHash64A. -/
def murmurM : UInt64 := 0xc6a4a7935bd1e995

def seed : UInt64 := 4193360111

def fromLeBytes (bytes : List UInt8) : UInt64 :=
  bytes.foldr (fun byte acc => acc <<< 8 ||| byte.toUInt64) 0

def shiftMix (h : UInt64) : UInt64 := h ^^^ h >>> 47

/-- One 8-byte chunk, mixed into `h`. -/
def murmurChunk (h k : UInt64) : UInt64 := (h ^^^ shiftMix (k * murmurM) * murmurM) * murmurM

/-- The 8-byte chunks and then the remaining bytes, the last one first. -/
def murmurBody : UInt64 → List UInt8 → UInt64
  | h, b0 :: b1 :: b2 :: b3 :: b4 :: b5 :: b6 :: b7 :: rest =>
    murmurBody (murmurChunk h (fromLeBytes [b0, b1, b2, b3, b4, b5, b6, b7])) rest
  | h, [] => h
  | h, remainder =>
    remainder.zipIdx.foldr
      (fun (byte, i) h => h ^^^ byte.toUInt64 <<< (8 * i).toUInt64) h * murmurM

def murmurFinish (h : UInt64) : UInt64 := shiftMix (shiftMix h * murmurM)

def murmurHash64a (key : List UInt8) (seed : UInt64) : UInt64 :=
  murmurFinish (murmurBody (seed ^^^ key.length.toUInt64 * murmurM) key)

def murmurRehash64a (k : UInt64) : UInt64 :=
  murmurFinish (murmurChunk (seed ^^^ 8 * murmurM) k)

/-- The words from which the bits are drawn; `hash_cache` keeps those already computed. -/
def furcWord (key : List UInt8) : Nat → UInt64
  | 0 => murmurHash64a key seed
  | n + 1 => murmurRehash64a (furcWord key n)

def furcGetBit (key : List UInt8) (idx : Nat) : Bool :=
  (furcWord key (idx >>> 6) >>> (idx &&& 0x3f).toUInt64) &&& 1 != 0

def furcShift : Nat := 23

def maxTries : Nat := 32

/-- The search for a 1 bit, down from depth `d`; `none` when the depth is used up. -/
def furcDescend (key : List UInt8) : Nat → Nat → Option (Nat × Nat)
  | 0, a => if furcGetBit key a then some (0, a) else none
  | d + 1, a => if furcGetBit key a then some (d + 1, a) else furcDescend key d d

/-- Append `n` bits to `num`. -/
def furcNumber (key : List UInt8) : Nat → Nat → Nat → Nat × Nat
  | 0, a, num => (num, a)
  | n + 1, a, num => furcNumber key n (a + furcShift) (num <<< 1 ||| (furcGetBit key a).toNat)

def furcTry (key : List UInt8) (m : Nat) : Nat → Nat → Nat → Nat
  -- give up and return 0, which is always a legal value
  | 0, _, _ => 0
  | tries + 1, d, a =>
    match furcDescend key d a with
    | none => 0
    | some (d, a) =>
      let (num, a) := furcNumber key (d - 1) (a + furcShift) 1
      if num < m then num else furcTry key m tries d a

def furcHash (key : List UInt8) (m : Nat) : Nat :=
  if m ≤ 1 then 0
  else
    let d := ((List.range 32).find? fun d => m ≤ 1 <<< d).getD 32
    furcTry key m maxTries d d

def largeModulus : Nat := 1 <<< 23 - 1

def toLeBytes (n : Nat) : List UInt8 :=
  [n.toUInt8, (n >>> 8).toUInt8, (n >>> 16).toUInt8, (n >>> 24).toUInt8]

def fbiHash (key : String) : UInt64 :=
  murmurHash64a (toLeBytes (furcHash key.toUTF8.toList largeModulus)) seed

/-! ## The ring -/

abbrev Ring := OrderedMap Nat String

def virtualNodesPerWorker : Nat := 160

def virtualKey (workerUrl : String) (i : Nat) : String := workerUrl ++ ":" ++ toString i

def insertWorker (ring : Ring) (workerUrl : String) : Ring :=
  (List.range virtualNodesPerWorker).foldl
    (fun ring i => ring.insert (fbiHash (virtualKey workerUrl i)).toNat workerUrl) ring

def buildRing (workerUrls : List String) : Ring := workerUrls.foldl insertWorker OrderedMap.empty

structure Policy where
  hashRing : Ring
  currentWorkers : List String

def new : Policy := ⟨OrderedMap.empty, []⟩

/-- The stored ring is the one built from the stored list. -/
def Built (p : Policy) : Prop := p.hashRing = buildRing p.currentWorkers

variable {e : Nat × String} {id : Nat} {urls : List String}

theorem insert_ne_nil (ring : Ring) (k : Nat) (v : String) : (ring.insert k v).entries ≠ [] := by
  intro h
  have hmem : (k, v) ∈ (ring.insert k v).entries := OrderedMap.mem_insert.mpr (Or.inl rfl)
  rw [h] at hmem
  cases hmem

theorem insertWorker_ne_nil (ring : Ring) (workerUrl : String) :
    (insertWorker ring workerUrl).entries ≠ [] := by
  exact insert_ne_nil _ _ _

/-- Only the empty list has the empty ring. -/
theorem buildRing_eq_nil_iff (workerUrls : List String) :
    (buildRing workerUrls).entries = [] ↔ workerUrls = [] := by
  constructor
  · intro h
    induction workerUrls using List.reverseRecOn with
    | nil => rfl
    | append_singleton urls url _ =>
      rw [buildRing, List.foldl_append, List.foldl_cons, List.foldl_nil] at h
      exact absurd h (insertWorker_ne_nil _ url)
  · rintro rfl
    rfl

/-! ## The two calls -/

inductive Operation
  | updateHashRing (workerUrls : List String)
  | reset

/-- Where a call stands between two of its locked sections. -/
inductive Point
  /-- The workers have changed; the new ring is not stored yet. -/
  | changed (workerUrls : List String)
  /-- The new ring is stored, the new list is not. -/
  | ringStored (workerUrls : List String)
  /-- The ring is cleared, the list is not. -/
  | ringCleared

def enter (op : Operation) (p : Policy) : Policy × (Point ⊕ Unit) :=
  match op with
  | .updateHashRing workerUrls =>
    if p.currentWorkers = workerUrls then (p, .inr ()) else (p, .inl (.changed workerUrls))
  | .reset => ({ p with hashRing := OrderedMap.empty }, .inl .ringCleared)

def advance (point : Point) (p : Policy) : Policy × (Point ⊕ Unit) :=
  match point with
  | .changed workerUrls =>
    ({ p with hashRing := buildRing workerUrls }, .inl (.ringStored workerUrls))
  | .ringStored workerUrls => ({ p with currentWorkers := workerUrls }, .inr ())
  | .ringCleared => ({ p with currentWorkers := [] }, .inr ())

def program : Program Policy Operation Point Unit := ⟨enter, advance⟩

abbrev System := Interleaved Policy Point

abbrev step : System → Section Operation → Option System := Interleaved.step program

abbrev init : System := Interleaved.start new

/-- The call has stored the ring of the list, and is about to store the list. -/
def Storing (workerUrls : List String) : Point → Prop
  | .changed _ => False
  | .ringStored urls => urls = workerUrls
  | .ringCleared => workerUrls = []

/-- No call other than `id` stands between its two writes, unless with the same ring. -/
def RingFree (s : System) (id : Nat) (workerUrls : List String) : Prop :=
  ∀ urls, s.Another id (Storing urls) → buildRing urls = buildRing workerUrls

/-- The writes of two calls do not overlap: a call writes its ring only while no other call
stands between its two writes, unless with the same ring. -/
def WritesApart (s : System) : Section Operation → Prop
  | .call _ (.updateHashRing _) => True
  | .call id .reset => RingFree s id []
  | .advance id => ∀ urls, s.calls.get? id = some (.changed urls) → RingFree s id urls

/-! ## One section -/

/-- The ring is that of every call between its two writes; without such a call, that of the
list. -/
structure Consistent (s : System) : Prop where
  storing : ∀ urls, s.Standing (Storing urls) → s.shared.hashRing = buildRing urls
  built : (∀ urls, ¬ s.Standing (Storing urls)) → Built s.shared

theorem consistent_init : Consistent init where
  storing := by
    rintro urls ⟨id, point, hpoint, _⟩
    cases hpoint
  built _ := rfl

variable {s t : System} {point : Point}

theorem Consistent.built_of_quiescent (h : Consistent s) (hq : s.Quiescent) : Built s.shared :=
  h.built fun _ => hq.not_standing

/-- The write of the ring of `urls`, by a call whose writes are apart from all others. -/
theorem consistent_storeRing (urls : List String) (hfree : RingFree s id urls)
    (hpoint : ∀ l, Storing l point ↔ l = urls) :
    Consistent (s.settle id
      (({ s.shared with hashRing := buildRing urls }, .inl point) : Policy × (Point ⊕ Unit))) := by
  constructor
  · intro l hl
    show buildRing urls = buildRing l
    rcases Interleaved.standing_settle.mp hl with ⟨point', hpoint', hl⟩ | hother
    · cases hpoint'
      rw [(hpoint l).mp hl]
    · exact (hfree l hother).symm
  · intro hnone
    exact absurd (Interleaved.standing_settle.mpr (Or.inl ⟨point, rfl, (hpoint urls).mpr rfl⟩))
      (hnone urls)

/-- The write of the list `urls`, by a call that has stored its ring. -/
theorem consistent_storeList (h : Consistent s) (urls : List String)
    (hid : s.calls.get? id = some point) (hpoint : Storing urls point) :
    Consistent (s.settle id
      (({ s.shared with currentWorkers := urls }, .inr ()) : Policy × (Point ⊕ Unit))) := by
  have hring : s.shared.hashRing = buildRing urls := h.storing urls ⟨id, point, hid, hpoint⟩
  constructor
  · intro l hl
    rcases Interleaved.standing_settle.mp hl with ⟨_, hnone, _⟩ | hother
    · cases hnone
    · exact h.storing l hother.standing
  · intro _
    exact hring

/-- A section that writes nothing, of a call that has stored nothing. -/
theorem consistent_idle (h : Consistent s)
    (hid : ∀ point urls, s.calls.get? id = some point → ¬ Storing urls point) {next : Point ⊕ Unit}
    (hnext : ∀ point urls, next = .inl point → ¬ Storing urls point) :
    Consistent (s.settle id ((s.shared, next) : Policy × (Point ⊕ Unit))) := by
  have hsame : ∀ urls, (s.settle id ((s.shared, next) : Policy × (Point ⊕ Unit))).Standing
      (Storing urls) ↔ s.Standing (Storing urls) := by
    intro urls
    constructor
    · intro hl
      rcases Interleaved.standing_settle.mp hl with ⟨point, hpoint, hl⟩ | hother
      · exact absurd hl (hnext point urls hpoint)
      · exact hother.standing
    · exact fun hl => hl.settle (fun point hpoint => hid point urls hpoint) _
  constructor
  · exact fun urls hl => h.storing urls ((hsame urls).mp hl)
  · exact fun hnone => h.built fun urls hl => hnone urls ((hsame urls).mpr hl)

theorem step_consistent {e : Section Operation} (h : Consistent s) (hok : WritesApart s e)
    (hstep : step s e = some t) : Consistent t := by
  cases e with
  | call id op =>
    obtain ⟨hid, rfl⟩ := Interleaved.step_call hstep
    cases op with
    | updateHashRing urls =>
      have hnone : ∀ point l, s.calls.get? id = some point → ¬ Storing l point := by grind
      simp only [program, enter]
      split
      · exact consistent_idle h hnone (fun point l hnext => by cases hnext)
      · exact consistent_idle h hnone (fun point l hnext => by cases hnext; exact not_false)
    | reset => exact consistent_storeRing [] hok fun l => Iff.rfl
  | advance id =>
    obtain ⟨point, hid, rfl⟩ := Interleaved.step_advance hstep
    cases point with
    | changed urls => exact consistent_storeRing urls (hok urls hid) fun l => eq_comm
    | ringStored urls => exact consistent_storeList h urls hid rfl
    | ringCleared => exact consistent_storeList h [] hid rfl

/-! ## Runs -/

/-- How many sections a call has left. -/
def sectionsLeft : Point → Nat
  | .changed _ => 2
  | .ringStored _ => 1
  | .ringCleared => 1

theorem sectionsLeft_advance (point : Point) (p : Policy) (next : Point)
    (h : (program.advance point p).2 = .inl next) : sectionsLeft next < sectionsLeft point := by
  cases point with
  | changed urls =>
    cases h
    exact Nat.lt_succ_self 1
  | ringStored urls => cases h
  | ringCleared => cases h

/-- The section that stores the list. -/
theorem step_storing (hid : s.calls.get? id = some point) (hpoint : Storing urls point) :
    step s (.advance id) = some ⟨⟨s.shared.hashRing, urls⟩, s.calls.erase id⟩ := by
  cases point with
  | changed l => exact hpoint.elim
  | ringStored l | ringCleared => cases hpoint; simp [Interleaved.step, hid, program, advance,
      Interleaved.settle]

section

variable {a b : Nat} {pa pb : Point} (hab : a ≠ b) (hpa : Storing urls pa) {urls' : List String}
  (hpb : Storing urls' pb)

include hab hpa hpb

/-- Two calls that stand between their writes: the one that writes its list last decides, and
the other one's ring may stay. -/
theorem exists_not_built_of_two (ha : s.calls.get? a = some pa) (hb : s.calls.get? b = some pb)
    (honly : ∀ j, j ≠ a → j ≠ b → s.calls.get? j = none)
    (hne : s.shared.hashRing ≠ buildRing urls) :
    ∃ rest u, Interleaved.Finishing rest ∧ run step s rest = some u ∧ u.Quiescent ∧
      ¬ Built u.shared := by
  -- `b` stores its list, and then `a`
  let t : System := ⟨⟨s.shared.hashRing, urls'⟩, s.calls.erase b⟩
  have ht : step s (.advance b) = some t := step_storing hb hpb
  have hta : t.calls.get? a = some pa := by rw [Table.get?_erase, if_neg hab, ha]
  let u : System := ⟨⟨s.shared.hashRing, urls⟩, t.calls.erase a⟩
  have hu : step t (.advance a) = some u := step_storing hta hpa
  refine ⟨[.advance b, .advance a], u, Interleaved.Finishing.nil.cons.cons, by simp [run, ht, hu],
    Interleaved.quiescent_iff.mpr fun j => ?_, hne⟩
  show ((s.calls.erase b).erase a).get? j = none
  rw [Table.get?_erase, Table.get?_erase]
  split
  · rfl
  · grind

/-- After a write that overlaps another, the calls in progress can finish in an order that
leaves a ring which is not that of the list. -/
theorem exists_not_built_of_storing (ha : t.calls.get? a = some pa)
    (hb : t.calls.get? b = some pb) (hne : buildRing urls' ≠ buildRing urls) :
    ∃ rest u, Interleaved.Finishing rest ∧ run step t rest = some u ∧ u.Quiescent ∧
      ¬ Built u.shared := by
  obtain ⟨es, s, hes, hs, hget⟩ := Interleaved.finish_all sectionsLeft_advance
    (t.calls.keys.filter fun j => j ≠ a ∧ j ≠ b) t
  have hsa : s.calls.get? a = some pa := by rw [hget, if_neg (by simp), ha]
  have hsb : s.calls.get? b = some pb := by rw [hget, if_neg (by simp), hb]
  have honly : ∀ j, j ≠ a → j ≠ b → s.calls.get? j = none := by
    intro j hja hjb
    rw [hget]
    split
    · rfl
    · next hj =>
      cases hc : t.calls.get? j with
      | none => rfl
      | some point =>
        have hkey : j ∈ t.calls.keys := by
          rw [← Table.contains_iff_mem_keys, Table.contains, hc]
          rfl
        exact absurd (List.mem_filter.mpr ⟨hkey, by simp [hja, hjb]⟩) hj
  -- the ring that is left now differs from the ring of one of the two
  obtain ⟨fs, u, hfs, hu, hq, hnot⟩ : ∃ rest u, Interleaved.Finishing rest ∧
      run step s rest = some u ∧ u.Quiescent ∧ ¬ Built u.shared := by
    by_cases hring : s.shared.hashRing = buildRing urls
    · refine exists_not_built_of_two hab.symm hpb hpa hsb hsa (fun j hjb hja => honly j hja hjb) ?_
      rw [hring]
      exact hne.symm
    · exact exists_not_built_of_two hab hpa hpb hsa hsb honly hring
  exact ⟨es ++ fs, u, hes.append hfs, by rw [run_append, hs]; exact hu, hq, hnot⟩

end

theorem exists_not_built_of_overlap {e : Section Operation} (hok : ¬ WritesApart s e)
    (hstep : step s e = some t) :
    ∃ rest u, Interleaved.Finishing rest ∧ run step t rest = some u ∧ u.Quiescent ∧
      ¬ Built u.shared := by
  -- the call that writes its ring, at `point` afterwards, and one that is not free of it
  have key : ∀ id urls point (done : Policy × (Point ⊕ Unit)), ¬ RingFree s id urls →
      done.2 = .inl point → Storing urls point → t = s.settle id done →
      ∃ rest u, Interleaved.Finishing rest ∧ run step t rest = some u ∧ u.Quiescent ∧
        ¬ Built u.shared := by
    intro id urls point done hfree hdone hpoint ht
    simp only [RingFree, not_forall] at hfree
    obtain ⟨urls', hother, hne⟩ := hfree
    obtain ⟨j, point', hj, hjid, hpoint'⟩ := Interleaved.another_iff.mp hother
    have hid : t.calls.get? id = some point := by
      rw [ht, Interleaved.get?_settle_self, hdone]
      rfl
    have hj' : t.calls.get? j = some point' := by rw [ht, Interleaved.get?_settle_ne s hjid, hj]
    exact exists_not_built_of_storing hjid.symm hpoint hpoint' hid hj' hne
  cases e with
  | call id op =>
    obtain ⟨_, ht⟩ := Interleaved.step_call hstep
    cases op with
    | updateHashRing urls => exact absurd trivial hok
    | reset => exact key id [] .ringCleared _ hok rfl rfl ht
  | advance id =>
    obtain ⟨point, hid, ht⟩ := Interleaved.step_advance hstep
    simp only [WritesApart, not_forall] at hok
    obtain ⟨urls, hurls, hfree⟩ := hok
    rw [hid] at hurls
    cases hurls
    exact key id urls (.ringStored urls) _ hfree rfl rfl ht

/-- **The ring belongs to the list between calls** in every run in which the writes of two calls
do not overlap. After a write that overlaps another, the calls in progress can always finish in an
order that leaves a ring which is not that of the list. -/
theorem built_of_writesApart (es : List (Section Operation)) :
    (Along step WritesApart init es →
      ∀ pre s, pre <+: es → run step init pre = some s → s.Quiescent → Built s.shared) ∧
    (∀ s e t, run step init es = some s → ¬ WritesApart s e → step s e = some t →
      ∃ rest u, Interleaved.Finishing rest ∧ run step t rest = some u ∧ u.Quiescent ∧
        ¬ Built u.shared) := by
  constructor
  · intro hal pre s hpre hs hq
    have hcons : Consistent s :=
      run_invariant (fun _ _ _ => step_consistent) pre init s consistent_init
        (along_initial_segment hpre hal) hs
    exact hcons.built_of_quiescent hq
  · intro s e t _ hok hstep
    exact exists_not_built_of_overlap hok hstep

/-- Two updates find new workers; one writes its ring and its list, and then the other. -/
def twoUpdates : List (Section Operation) :=
  [.call 0 (.updateHashRing ["http://a"]), .call 1 (.updateHashRing ["http://b"]), .advance 0,
    .advance 0, .advance 1, .advance 1]

theorem writesApart_twoUpdates : Along step WritesApart init twoUpdates := by
  refine ⟨trivial, ?_⟩
  rintro s ⟨⟩
  refine ⟨trivial, ?_⟩
  rintro s ⟨⟩
  refine ⟨fun urls _ l hother => ?_, fun s hs => ?_⟩
  · -- the other update has not written its ring
    obtain ⟨entry, hentry, hid, hstoring⟩ := hother
    rcases List.mem_cons.mp hentry with rfl | hentry
    · exact absurd rfl hid
    · rw [List.mem_singleton.mp hentry] at hstoring
      exact hstoring.elim
  obtain ⟨point, hid, rfl⟩ := Interleaved.step_advance hs
  cases hid
  refine ⟨fun urls hurls => (by cases hurls), fun s hs => ?_⟩
  obtain ⟨point, hid, rfl⟩ := Interleaved.step_advance hs
  cases hid
  refine ⟨fun urls _ l hother => ?_, fun s hs => ?_⟩
  · obtain ⟨entry, hentry, hid, _⟩ := hother
    exact absurd (List.mem_singleton.mp hentry ▸ rfl) hid
  obtain ⟨point, hid, rfl⟩ := Interleaved.step_advance hs
  cases hid
  exact ⟨fun urls hurls => (by cases hurls), fun _ _ => trivial⟩

theorem built_of_writesApart_twoUpdates :
    ∃ s, run step init twoUpdates = some s ∧ s.Quiescent ∧ Built s.shared :=
  ⟨_, rfl, rfl, (built_of_writesApart twoUpdates).1 writesApart_twoUpdates twoUpdates _
    (List.prefix_refl _) rfl rfl⟩

/-- **A ring can be left empty under a list of workers.** An update has stored its ring; a reset
clears ring and list; then the update stores its list. -/
theorem exists_quiescent_not_built :
    ∃ es s, run step init es = some s ∧ s.Quiescent ∧ ¬ Built s.shared := by
  refine ⟨[.call 0 (.updateHashRing ["http://a"]), .advance 0, .call 1 .reset, .advance 1,
    .advance 0], ⟨⟨OrderedMap.empty, ["http://a"]⟩, Table.empty⟩, rfl, rfl, ?_⟩
  intro h
  have hnil : (buildRing ["http://a"]).entries = [] := by rw [← h]; rfl
  exact absurd ((buildRing_eq_nil_iff _).mp hnil) (by simp)

end ConsistentHash

end CodexRouter.Policies
