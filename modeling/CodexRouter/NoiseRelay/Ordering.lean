import CodexRouter.Lib.Table
import CodexRouter.NoiseRelay.Framing

set_option autoImplicit false

/-! # Putting frames in order

`noise_relay/ordered_ciphertext.rs`: the relay may deliver the frames in any order, and the cipher
needs them in theirs. Frames that come early wait, those that come twice are dropped.
-/

namespace CodexRouter.NoiseRelay

open Lib

def MAX_REORDER_DISTANCE : Nat := 64
def MAX_PENDING_BYTES : Nat := 1024 * 1024

structure OrderedCiphertextFrames where
  nextSeq : Nat
  pending : Table Nat Bytes
  pendingBytes : Nat

namespace OrderedCiphertextFrames

def default : OrderedCiphertextFrames := ⟨0, .empty, 0⟩

/-- `checked_add` on 32 bits. -/
def advance (o : OrderedCiphertextFrames) : Except RelayError OrderedCiphertextFrames :=
  if o.nextSeq + 1 < 2 ^ 32 then .ok { o with nextSeq := o.nextSeq + 1 }
  else .error (.protocol "Noise relay sequence number exhausted")

/-- The loop of `push`: what is contiguous leaves. The first argument bounds the number of
rounds. -/
def releasePending : Nat → OrderedCiphertextFrames →
    Except RelayError (List Bytes × OrderedCiphertextFrames)
  | 0, o => .ok ([], o)
  | fuel + 1, o =>
    match o.pending.get? o.nextSeq with
    | none => .ok ([], o)
    | some payload => do
        let o ← advance
          { o with
            pending := o.pending.erase o.nextSeq
            pendingBytes := o.pendingBytes - payload.length }
        let (ready, o) ← releasePending fuel o
        return (payload :: ready, o)

def push (o : OrderedCiphertextFrames) (seq : Nat) (payload : Bytes) :
    Except RelayError (List Bytes × OrderedCiphertextFrames) :=
  if seq < o.nextSeq ∨ o.pending.contains seq then .ok ([], o)
  else if seq > o.nextSeq then
    if seq - o.nextSeq > MAX_REORDER_DISTANCE then
      .error (.protocol "Noise relay ciphertext exceeds reorder window")
    else if o.pendingBytes + payload.length > MAX_PENDING_BYTES then
      .error (.protocol "Noise relay pending ciphertext buffer is full")
    else
      .ok ([], { o with
        pending := o.pending.insert seq payload
        pendingBytes := o.pendingBytes + payload.length })
  else do
    let o ← o.advance
    let (ready, o) ← releasePending o.pending.size o
    return (payload :: ready, o)

/-! ## Genuine frames -/

/-- The buffer holds genuine frames, all of them ahead of the next one expected. -/
structure Genuine (ciphertexts : List Bytes) (o : OrderedCiphertextFrames) : Prop where
  next : o.nextSeq ≤ ciphertexts.length
  pending : ∀ k c, o.pending.get? k = some c → o.nextSeq < k ∧ ciphertexts[k]? = some c

/-- What has arrived has been released or waits. -/
def Holds (o : OrderedCiphertextFrames) (k : Nat) : Prop :=
  k < o.nextSeq ∨ o.pending.contains k = true

/-- The frame is within the window and the buffer takes it. -/
def InWindow (o : OrderedCiphertextFrames) (seq : Nat) (payload : Bytes) : Prop :=
  seq ≤ o.nextSeq + MAX_REORDER_DISTANCE ∧
    (¬ o.Holds seq → o.nextSeq < seq → o.pendingBytes + payload.length ≤ MAX_PENDING_BYTES)

variable {ciphertexts : List Bytes} {o : OrderedCiphertextFrames}

theorem genuine_default (ciphertexts : List Bytes) : Genuine ciphertexts default :=
  ⟨Nat.zero_le _, by rintro k c ⟨⟩⟩

/-- What a release gives: the ciphertexts from the next one on, without a gap, and a buffer that
again holds what it should. -/
structure Released (ciphertexts : List Bytes) (o : OrderedCiphertextFrames) (ready : List Bytes)
    (o' : OrderedCiphertextFrames) : Prop where
  genuine : Genuine ciphertexts o'
  next : o'.nextSeq = o.nextSeq + ready.length
  ready : ready <+: ciphertexts.drop o.nextSeq
  holds : ∀ k, o.Holds k → o'.Holds k

theorem contains_iff_exists {pending : Table Nat Bytes} {k : Nat} :
    pending.contains k = true ↔ ∃ c, pending.get? k = some c :=
  Option.isSome_iff_exists

/-- The next ciphertext is released in front of what follows it. -/
theorem Released.cons {o₁ o' : OrderedCiphertextFrames} {ready : List Bytes} {payload : Bytes}
    (h : Released ciphertexts o₁ ready o') (hnext : o₁.nextSeq = o.nextSeq + 1)
    (hpayload : ciphertexts[o.nextSeq]? = some payload) (hholds : ∀ k, o.Holds k → o₁.Holds k) :
    Released ciphertexts o (payload :: ready) o' := by
  obtain ⟨hlt, hget⟩ := List.getElem?_eq_some_iff.mp hpayload
  refine ⟨h.genuine, ?_, ?_, fun k hk => h.holds k (hholds k hk)⟩
  · rw [h.next, hnext, List.length_cons]
    omega
  · grind [List.drop_eq_getElem_cons, cases Released]

/-- The buffer after the next ciphertext has been taken out of it. -/
def takeNext (o : OrderedCiphertextFrames) (payload : Bytes) : OrderedCiphertextFrames where
  nextSeq := o.nextSeq + 1
  pending := o.pending.erase o.nextSeq
  pendingBytes := o.pendingBytes - payload.length

theorem size_takeNext {payload : Bytes} (hget : o.pending.get? o.nextSeq = some payload) :
    o.pending.size = (o.takeNext payload).pending.size + 1 := by
  have hperm := (Table.perm_of_get? hget).length_eq
  rwa [List.length_cons] at hperm

theorem holds_takeNext (payload : Bytes) {k : Nat} (hk : o.Holds k) :
    (o.takeNext payload).Holds k := by
  rcases hk with hk | hk
  · exact Or.inl (Nat.lt_succ_of_lt hk)
  · by_cases heq : k = o.nextSeq
    · exact Or.inl (heq ▸ Nat.lt_succ_self _)
    · obtain ⟨c, hc⟩ := contains_iff_exists.mp hk
      refine Or.inr (contains_iff_exists.mpr ⟨c, ?_⟩)
      rw [takeNext, Table.get?_erase, if_neg heq, hc]

theorem pending_takeNext {payload : Bytes}
    (hpending : ∀ k c, o.pending.get? k = some c → o.nextSeq ≤ k ∧ ciphertexts[k]? = some c) :
    ∀ k c, (o.takeNext payload).pending.get? k = some c →
      (o.takeNext payload).nextSeq ≤ k ∧ ciphertexts[k]? = some c := by
  intro k c hk
  rw [takeNext, Table.get?_erase] at hk
  split at hk
  · cases hk
  · next hne =>
    obtain ⟨hle, hc⟩ := hpending k c hk
    exact ⟨Nat.lt_of_le_of_ne hle (Ne.symm hne), hc⟩

/-- The pending frames that are contiguous are released, all of them. -/
theorem releasePending_released (hlen : ciphertexts.length < 2 ^ 32) :
    ∀ (fuel : Nat) (o : OrderedCiphertextFrames), o.pending.size ≤ fuel →
      o.nextSeq ≤ ciphertexts.length →
      (∀ k c, o.pending.get? k = some c → o.nextSeq ≤ k ∧ ciphertexts[k]? = some c) →
      ∃ ready o', releasePending fuel o = .ok (ready, o') ∧ Released ciphertexts o ready o' := by
  intro fuel
  induction fuel with
  | zero =>
    intro o hfuel hnext hpending
    have hnil : o.pending.entries = [] := List.length_eq_zero_iff.mp (Nat.le_zero.mp hfuel)
    refine ⟨[], o, rfl, ⟨hnext, fun k c hk => ?_⟩, rfl, List.nil_prefix, fun k hk => hk⟩
    rw [Table.get?_eq_some_iff, hnil] at hk
    cases hk
  | succ fuel ih =>
    intro o hfuel hnext hpending
    cases hget : o.pending.get? o.nextSeq with
    | none =>
      refine ⟨[], o, by rw [releasePending, hget], ⟨hnext, fun k c hk => ?_⟩, rfl,
        List.nil_prefix, fun k hk => hk⟩
      obtain ⟨hle, hc⟩ := hpending k c hk
      refine ⟨Nat.lt_of_le_of_ne hle fun heq => ?_, hc⟩
      rw [heq, hk] at hget
      cases hget
    | some payload =>
      obtain ⟨-, hpayload⟩ := hpending o.nextSeq payload hget
      have hlt : o.nextSeq < ciphertexts.length := (List.getElem?_eq_some_iff.mp hpayload).1
      have hadvance : advance
          { o with
            pending := o.pending.erase o.nextSeq
            pendingBytes := o.pendingBytes - payload.length } = .ok (o.takeNext payload) :=
        if_pos (by dsimp only; omega)
      have hsize := size_takeNext hget
      obtain ⟨ready, o', hrelease, hreleased⟩ :=
        ih (o.takeNext payload) (by omega) hlt (pending_takeNext hpending)
      refine ⟨payload :: ready, o', ?_,
        hreleased.cons rfl hpayload fun k hk => holds_takeNext payload hk⟩
      rw [releasePending, hget]
      exact bind_eq_ok_iff.mpr ⟨_, hadvance, bind_eq_ok_iff.mpr ⟨_, hrelease, rfl⟩⟩

/-- **A genuine frame within the window is taken.** It is released with all that is contiguous
behind it, or waits, or was there before. -/
theorem push_genuine (hlen : ciphertexts.length < 2 ^ 32) (h : Genuine ciphertexts o) {seq : Nat}
    {payload : Bytes} (hseq : ciphertexts[seq]? = some payload)
    (hwindow : o.InWindow seq payload) :
    ∃ ready o', o.push seq payload = .ok (ready, o') ∧ Released ciphertexts o ready o' ∧
      o'.Holds seq := by
  by_cases hheld : o.Holds seq
  · exact ⟨[], o, if_pos hheld, ⟨h, rfl, List.nil_prefix, fun k hk => hk⟩, hheld⟩
  · have hge : o.nextSeq ≤ seq := Nat.not_lt.mp fun hlt => hheld (Or.inl hlt)
    have hpush : o.push seq payload = if seq > o.nextSeq then _ else _ := if_neg hheld
    rw [hpush]
    by_cases hahead : seq > o.nextSeq
    · -- it waits
      have hdistance : ¬ seq - o.nextSeq > MAX_REORDER_DISTANCE := by
        have := hwindow.1
        omega
      have hroom := hwindow.2 hheld hahead
      rw [if_pos hahead, if_neg hdistance, if_neg (Nat.not_lt.mpr hroom)]
      refine ⟨_, _, rfl, ⟨⟨h.next, fun k c hk => ?_⟩, rfl, List.nil_prefix, fun k hk => ?_⟩, ?_⟩
      · grind [Table.get?_insert, cases Genuine]
      · refine hk.imp_right fun hk => ?_
        obtain ⟨c, hc⟩ := contains_iff_exists.mp hk
        refine contains_iff_exists.mpr ?_
        by_cases heq : k = seq
        · exact ⟨payload, by rw [Table.get?_insert, if_pos heq]⟩
        · exact ⟨c, by rw [Table.get?_insert, if_neg heq, hc]⟩
      · exact Or.inr (contains_iff_exists.mpr ⟨payload, by rw [Table.get?_insert, if_pos rfl]⟩)
    · -- it is the next one
      have heq : seq = o.nextSeq := Nat.le_antisymm (Nat.not_lt.mp hahead) hge
      subst heq
      have hlt : o.nextSeq < ciphertexts.length := (List.getElem?_eq_some_iff.mp hseq).1
      have hadvance : o.advance = .ok { o with nextSeq := o.nextSeq + 1 } :=
        if_pos (by omega)
      obtain ⟨ready, o', hrelease, hreleased⟩ :=
        releasePending_released hlen o.pending.size { o with nextSeq := o.nextSeq + 1 }
          (Nat.le_refl _) hlt h.pending
      refine ⟨payload :: ready, o', ?_,
        hreleased.cons rfl hseq fun k hk => hk.imp_left Nat.lt_succ_of_lt,
        hreleased.holds _ (Or.inl (Nat.lt_succ_self _))⟩
      rw [if_neg hahead]
      exact bind_eq_ok_iff.mpr ⟨_, hadvance, bind_eq_ok_iff.mpr ⟨_, hrelease, rfl⟩⟩

end OrderedCiphertextFrames

end CodexRouter.NoiseRelay
