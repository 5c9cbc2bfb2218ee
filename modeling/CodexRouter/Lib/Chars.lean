import Mathlib.Data.List.DropRight
import Mathlib.Tactic

set_option autoImplicit false

/-! # Texts of characters

A text is the list of its characters. Trimming takes away the white space at its ends; positions in
it are counted in bytes of UTF-8.
-/

namespace CodexRouter.Lib

/-- `char::is_whitespace`, the Unicode property `White_Space`. -/
def isWhitespace (c : Char) : Bool :=
  let n := c.toNat
  (0x9 ≤ n && n ≤ 0xD) || n == 0x20 || n == 0x85 || n == 0xA0 || n == 0x1680
    || (0x2000 ≤ n && n ≤ 0x200A) || n == 0x2028 || n == 0x2029 || n == 0x202F
    || n == 0x205F || n == 0x3000

def trimStart (s : List Char) : List Char := s.dropWhile isWhitespace

def trimEnd (s : List Char) : List Char := s.rdropWhile isWhitespace

def trim (s : List Char) : List Char := trimEnd (trimStart s)

/-- The length in bytes. -/
def len (s : List Char) : Nat := (s.map Char.utf8Size).sum

@[simp] theorem len_nil : len [] = 0 := rfl

@[simp] theorem len_cons (c : Char) (s : List Char) : len (c :: s) = c.utf8Size + len s := rfl

@[simp] theorem len_append (s t : List Char) : len (s ++ t) = len s + len t := by
  simp [len]

variable {s : List Char}

theorem len_le_of_isPrefix {t : List Char} (h : s <+: t) : len s ≤ len t := by
  obtain ⟨r, rfl⟩ := h
  rw [len_append]
  omega

/-- The characters with the positions where they start, from `idx` on. -/
def charIndices (idx : Nat) : List Char → List (Nat × Char)
  | [] => []
  | ch :: s => (idx, ch) :: charIndices (idx + ch.utf8Size) s

theorem charIndices_append (idx : Nat) (s t : List Char) :
    charIndices idx (s ++ t) = charIndices idx s ++ charIndices (idx + len s) t := by
  induction s generalizing idx with
  | nil => rfl
  | cons ch s ih =>
    have hidx : idx + ch.utf8Size + len s = idx + len (ch :: s) := by rw [len_cons]; omega
    simp only [List.cons_append, charIndices, ih, hidx]

theorem start_of_mem_charIndices {idx : Nat} {entry : Nat × Char} (h : entry ∈ charIndices idx s) :
    idx ≤ entry.1 ∧ entry.1 < idx + len s := by
  induction s generalizing idx with
  | nil => cases h
  | cons ch s ih =>
    have hpos : 0 < ch.utf8Size := Char.utf8Size_pos ch
    rw [len_cons]
    rcases List.mem_cons.mp h with rfl | h
    · exact ⟨le_refl _, by show idx < _; omega⟩
    · have := ih h
      omega

end CodexRouter.Lib
