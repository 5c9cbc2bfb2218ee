import CodexRouter.Lib.Chars
import CodexRouter.PrefixTree.Basic

set_option autoImplicit false

/-! # The text operations of the prefix tree on bytes

`shared_prefix_count` and `advance_by_chars` of `router/src/tree.rs` read the UTF-8 bytes of a
text as long as these are ASCII, and its characters otherwise. A text is the list of its
characters; a slice of it is given by its bytes. On every text they agree with the operations
on characters that the tree is modelled with.
-/

namespace CodexRouter.PrefixTree.Utf8

open Lib

def asBytes (s : Text) : List UInt8 := s.flatMap String.utf8EncodeChar

def isAscii (bytes : List UInt8) : Bool := bytes.all fun b => b < 128

def advanceByChars (s : Text) (n : Nat) : List UInt8 :=
  let bytes := asBytes s
  if n = 0 then bytes
  else if n ≥ bytes.length then []
  else if isAscii (bytes.take n) then bytes.drop n
  else (((charIndices 0 s)[n]?).map fun e => bytes.drop e.1).getD []

def sharedPrefixCountChars (a b : Text) : Nat :=
  ((a.zip b).takeWhile fun e => e.1 = e.2).length

def commonByteLen (a b : List UInt8) : Nat :=
  ((a.zip b).findIdx? fun e => e.1 ≠ e.2).getD (min a.length b.length)

def sharedPrefixCount (a b : Text) : Nat :=
  let common := commonByteLen (asBytes a) (asBytes b)
  if isAscii ((asBytes a).take common) then common else sharedPrefixCountChars a b

/-! ## The bytes of a character -/

/-- Only an ASCII character starts with an ASCII byte, and then it is that byte. -/
theorem utf8EncodeChar_head (c : Char) :
    ∃ u t, String.utf8EncodeChar c = u :: t ∧ (u < 128 → t = [] ∧ c = Char.ofNat u.toNat) := by
  fun_cases String.utf8EncodeChar c with
  | case1 v hv =>
    refine ⟨_, _, rfl, fun _ => ⟨rfl, ?_⟩⟩
    have hsmall : (UInt8.ofNat v).toNat = v := by simp; omega
    rw [hsmall]
    exact (Char.ofNat_toNat c).symm
  | _ =>
    refine ⟨_, _, rfl, fun h => ?_⟩
    rw [UInt8.lt_iff_toNat_lt] at h
    simp at h
    omega

theorem asBytes_cons (c : Char) (s : Text) :
    asBytes (c :: s) = String.utf8EncodeChar c ++ asBytes s := rfl

theorem asBytes_append (s t : Text) : asBytes (s ++ t) = asBytes s ++ asBytes t :=
  List.flatMap_append

theorem length_le_asBytes (s : Text) : s.length ≤ (asBytes s).length := by
  induction s with
  | nil => exact Nat.le_refl 0
  | cons c s ih =>
    obtain ⟨u, t, hc, -⟩ := utf8EncodeChar_head c
    simp only [asBytes_cons, hc, List.length_cons, List.length_append]
    omega

/-! ## The common beginning -/

theorem commonByteLen_eq (a b : List UInt8) : commonByteLen a b = commonLength a b := by
  rw [commonByteLen, ← List.length_zip, ← List.findIdx_eq_getD_findIdx?, commonLength,
    List.takeWhile_eq_take_findIdx_not, List.length_take, min_eq_left List.findIdx_le_length]
  simp only [ne_eq, decide_not]

/-- As long as the common bytes are ASCII, each of them is a character. -/
theorem commonLength_asBytes (a b : Text)
    (h : isAscii ((asBytes a).take (commonLength (asBytes a) (asBytes b)))) :
    commonLength (asBytes a) (asBytes b) = commonLength a b := by
  induction a generalizing b with
  | nil => rfl
  | cons x a ih =>
    cases b with
    | nil => simp [asBytes, commonLength]
    | cons y b =>
      obtain ⟨u, t, hx, hu⟩ := utf8EncodeChar_head x
      obtain ⟨v, t', hy, hv⟩ := utf8EncodeChar_head y
      simp only [asBytes_cons, hx, hy, List.cons_append, commonLength_cons] at h ⊢
      by_cases huv : u = v
      · rw [if_pos huv] at h ⊢
        simp only [isAscii, List.take_succ_cons, List.all_cons, Bool.and_eq_true,
          decide_eq_true_eq] at h
        obtain ⟨rfl, hcx⟩ := hu h.1
        obtain ⟨rfl, hcy⟩ := hv (huv ▸ h.1)
        rw [if_pos (by rw [hcx, hcy, huv])]
        exact congrArg (· + 1) (ih b h.2)
      · have hne : x ≠ y := by
          rintro rfl
          rw [hx] at hy
          exact huv (List.cons.inj hy).1
        rw [if_neg huv, if_neg hne]

theorem sharedPrefixCount_eq (a b : Text) :
    sharedPrefixCount a b = PrefixTree.sharedPrefixCount a b := by
  simp only [sharedPrefixCount, commonByteLen_eq]
  split_ifs with h
  · exact commonLength_asBytes a b h
  · rfl

/-! ## The rest after some characters -/

theorem drop_asBytes_of_isAscii (s : Text) (n : Nat) (h : isAscii ((asBytes s).take n)) :
    (asBytes s).drop n = asBytes (s.drop n) := by
  induction n generalizing s with
  | zero => rfl
  | succ n ih =>
    cases s with
    | nil => rfl
    | cons c s =>
      obtain ⟨u, t, hc, hu⟩ := utf8EncodeChar_head c
      simp only [asBytes_cons, hc, List.cons_append, isAscii, List.take_succ_cons,
        List.all_cons, Bool.and_eq_true, decide_eq_true_eq] at h
      obtain ⟨rfl, -⟩ := hu h.1
      rw [asBytes_cons, hc]
      exact ih s h.2

theorem getElem?_charIndices (s : Text) (i n : Nat) :
    (charIndices i s)[n]? = (s[n]?).map fun c => (i + (asBytes (s.take n)).length, c) := by
  induction s generalizing i n with
  | nil => rfl
  | cons c s ih =>
    cases n with
    | zero => rfl
    | succ n =>
      simp only [charIndices, List.getElem?_cons_succ, ih, List.take_succ_cons, asBytes_cons,
        List.length_append, String.length_utf8EncodeChar, Nat.add_assoc]

theorem advanceByChars_eq (s : Text) (n : Nat) :
    advanceByChars s n = asBytes (PrefixTree.advanceByChars s n) := by
  simp only [advanceByChars, getElem?_charIndices, Nat.zero_add, PrefixTree.advanceByChars]
  split_ifs with hn hlen hascii
  · rw [hn, List.drop_zero]
  · rw [List.drop_eq_nil_of_le ((length_le_asBytes s).trans hlen)]
    rfl
  · exact drop_asBytes_of_isAscii s n hascii
  · rcases Nat.lt_or_ge n s.length with h | h
    · have hsplit : asBytes s = asBytes (s.take n) ++ asBytes (s.drop n) := by
        rw [← asBytes_append, List.take_append_drop]
      rw [List.getElem?_eq_getElem h, hsplit]
      simp
    · rw [List.getElem?_eq_none h, List.drop_eq_nil_of_le h]
      rfl

/-- **The byte paths are exact.** The common length counts the characters of the longest common
beginning, and advancing leaves a text without its first characters. -/
theorem byte_paths_exact (a b s : Text) (n : Nat) :
    IsGreatest {k | ∃ p : Text, p <+: a ∧ p <+: b ∧ p.length = k} (sharedPrefixCount a b) ∧
      advanceByChars s n = asBytes (s.drop (min n s.length)) := by
  rw [sharedPrefixCount_eq, advanceByChars_eq]
  refine ⟨⟨?_, ?_⟩, ?_⟩
  · obtain ⟨p, a', b', ha, hb, hlen, -⟩ := commonLength_spec a b
    exact ⟨p, ⟨a', ha.symm⟩, ⟨b', hb.symm⟩, hlen.symm⟩
  · rintro k ⟨p, ha, hb, rfl⟩
    exact length_le_commonLength ha hb
  · rw [PrefixTree.advanceByChars]
    rcases Nat.le_total n s.length with h | h
    · rw [min_eq_left h]
    · rw [min_eq_right h, List.drop_length, List.drop_eq_nil_of_le h]

end CodexRouter.PrefixTree.Utf8
