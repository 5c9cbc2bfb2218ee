import CodexRouter.Lib.Chars
import CodexRouter.Lib.Longest

set_option autoImplicit false

/-! # Truncating the middle of a text

`truncate_middle_chars` keeps a beginning and an end of a text, at most `max_bytes` bytes of UTF-8
together, and says in between how many characters are missing. A text is the list of its
characters, and positions in it are counted in bytes. The loop of `split_string` goes once over
the characters and decides by their positions; it meets the beginning, the removed part and the
end in this order (`foldl_splitStep_beginning`, `foldl_splitStep_middle`, `foldl_splitStep_end`).
-/

namespace CodexRouter.Truncate

open CodexRouter.Lib

/-! ## Positions in a text -/

variable {s p m q : List Char} {left right : Nat}

/-- The two parts of a text around a position, if the position is between two characters. -/
def splitAtByte? : Nat → List Char → Option (List Char × List Char)
  | 0, s => some ([], s)
  | _ + 1, [] => none
  | n + 1, ch :: s =>
    if ch.utf8Size ≤ n + 1 then
      (splitAtByte? (n + 1 - ch.utf8Size) s).map fun parts => (ch :: parts.1, parts.2)
    else none

theorem splitAtByte?_append (s t : List Char) : splitAtByte? (len s) (s ++ t) = some (s, t) := by
  induction s with
  | nil => simp [splitAtByte?]
  | cons ch s ih =>
    have hpos : 0 < ch.utf8Size := Char.utf8Size_pos ch
    obtain ⟨n, hn⟩ := Nat.exists_eq_succ_of_ne_zero (show len (ch :: s) ≠ 0 by simp; omega)
    have hle : ch.utf8Size ≤ n + 1 := by rw [len_cons] at hn; omega
    have hrest : n + 1 - ch.utf8Size = len s := by rw [len_cons] at hn; omega
    rw [hn, List.cons_append, splitAtByte?, if_pos hle, hrest, ih]
    rfl

/-! ## Splitting -/

/-- The variables of the loop of `split_string`. -/
structure Loop where
  prefixEnd : Nat
  suffixStart : Nat
  removedChars : Nat
  suffixStarted : Bool
deriving DecidableEq

def splitStep (beginningBytes tailStartTarget : Nat) (loop : Loop) (entry : Nat × Char) : Loop :=
  let charEnd := entry.1 + entry.2.utf8Size
  if charEnd ≤ beginningBytes then { loop with prefixEnd := charEnd }
  else if tailStartTarget ≤ entry.1 then
    if loop.suffixStarted then loop
    else { loop with suffixStart := entry.1, suffixStarted := true }
  else { loop with removedChars := loop.removedChars + 1 }

/-- `none` is a slice that is not on character boundaries. -/
def splitString (s : List Char) (beginningBytes endBytes : Nat) :
    Option (Nat × List Char × List Char) :=
  if s.isEmpty then some (0, [], [])
  else
    let tailStartTarget := len s - endBytes
    let loop := (charIndices 0 s).foldl (splitStep beginningBytes tailStartTarget)
      { prefixEnd := 0, suffixStart := len s, removedChars := 0, suffixStarted := false }
    let suffixStart :=
      if loop.suffixStart < loop.prefixEnd then loop.prefixEnd else loop.suffixStart
    (splitAtByte? loop.prefixEnd s).bind fun before =>
      (splitAtByte? suffixStart s).map fun after => (loop.removedChars, before.1, after.2)

/-! ## Truncating -/

def approxBytesPerToken : Nat := 4

def approxTokensFromByteCount (bytes : Nat) : Nat :=
  (bytes + (approxBytesPerToken - 1)) / approxBytesPerToken

def splitBudget (budget : Nat) : Nat × Nat := (budget / 2, budget - budget / 2)

def formatTruncationMarker (useTokens : Bool) (removedCount : Nat) : List Char :=
  if useTokens then s!"…{removedCount} tokens truncated…".toList
  else s!"…{removedCount} chars truncated…".toList

def removedUnits (useTokens : Bool) (removedBytes removedChars : Nat) : Nat :=
  if useTokens then approxTokensFromByteCount removedBytes else removedChars

def assembleTruncatedOutput (before after marker : List Char) : List Char :=
  before ++ marker ++ after

def truncateWithByteEstimate (s : List Char) (maxBytes : Nat) (useTokens : Bool) :
    Option (List Char) :=
  if s.isEmpty then some []
  else if maxBytes = 0 then
    some (formatTruncationMarker useTokens (removedUnits useTokens (len s) s.length))
  else if len s ≤ maxBytes then some s
  else
    let (leftBudget, rightBudget) := splitBudget maxBytes
    (splitString s leftBudget rightBudget).map fun (removedChars, left, right) =>
      assembleTruncatedOutput left right
        (formatTruncationMarker useTokens (removedUnits useTokens (len s - maxBytes) removedChars))

def truncateMiddleChars (s : List Char) (maxBytes : Nat) : Option (List Char) :=
  truncateWithByteEstimate s maxBytes false

/-! ## The three parts that the loop meets -/

section Loop

variable {beginningBytes tailStartTarget : Nat}

variable {idx : Nat} {s : List Char}

/-- The characters that end within the first budget. -/
theorem foldl_splitStep_beginning (loop : Loop) (h : idx + len s ≤ beginningBytes)
    (hidx : loop.prefixEnd = idx) :
    (charIndices idx s).foldl (splitStep beginningBytes tailStartTarget) loop
      = { loop with prefixEnd := idx + len s } := by
  induction s generalizing idx loop with
  | nil => rw [← hidx]; rfl
  | cons ch s ih =>
    rw [len_cons, ← Nat.add_assoc] at h
    have hend : idx + ch.utf8Size ≤ beginningBytes := by omega
    simp only [charIndices, List.foldl_cons, splitStep, if_pos hend]
    rw [ih { loop with prefixEnd := idx + ch.utf8Size } h rfl, len_cons, Nat.add_assoc]

/-- The characters that end past the first budget and start before the second. -/
theorem foldl_splitStep_middle (loop : Loop)
    (hbeginning : ∀ entry ∈ charIndices idx s, beginningBytes < entry.1 + entry.2.utf8Size)
    (htail : ∀ entry ∈ charIndices idx s, entry.1 < tailStartTarget) :
    (charIndices idx s).foldl (splitStep beginningBytes tailStartTarget) loop
      = { loop with removedChars := loop.removedChars + s.length } := by
  induction s generalizing idx loop with
  | nil => rfl
  | cons ch s ih =>
    simp only [charIndices, List.forall_mem_cons] at hbeginning htail
    have hend : ¬ idx + ch.utf8Size ≤ beginningBytes := by omega
    have hstart : ¬ tailStartTarget ≤ idx := by omega
    simp only [charIndices, List.foldl_cons, splitStep, if_neg hend, if_neg hstart]
    rw [ih _ hbeginning.2 htail.2, List.length_cons, Nat.add_right_comm, Nat.add_assoc]

/-- The characters that start within the second budget. -/
theorem foldl_splitStep_end (loop : Loop)
    (hbeginning : ∀ entry ∈ charIndices idx s, beginningBytes < entry.1 + entry.2.utf8Size)
    (htail : tailStartTarget ≤ idx) :
    (charIndices idx s).foldl (splitStep beginningBytes tailStartTarget) loop
      = if s.isEmpty || loop.suffixStarted then loop
        else { loop with suffixStart := idx, suffixStarted := true } := by
  induction s generalizing idx loop with
  | nil => rfl
  | cons ch s ih =>
    simp only [charIndices, List.forall_mem_cons] at hbeginning
    have hend : ¬ idx + ch.utf8Size ≤ beginningBytes := by omega
    have hnext : tailStartTarget ≤ idx + ch.utf8Size := by omega
    simp only [charIndices, List.foldl_cons, splitStep, if_neg hend, if_pos htail]
    rw [ih _ hbeginning.2 hnext]
    cases hstarted : loop.suffixStarted <;> simp [hstarted]

end Loop

/-! ## Cutting a text at the budgets -/

/-- The longest beginning within a budget, and what follows it. -/
theorem exists_beginning (idx budget : Nat) (s : List Char) (hidx : idx ≤ budget) :
    ∃ p r, s = p ++ r ∧ idx + len p ≤ budget
      ∧ ∀ entry ∈ charIndices (idx + len p) r, budget < entry.1 + entry.2.utf8Size := by
  induction s generalizing idx with
  | nil => exact ⟨[], [], rfl, hidx, fun _ h => by cases h⟩
  | cons ch s ih =>
    by_cases hend : idx + ch.utf8Size ≤ budget
    · obtain ⟨p, r, rfl, hp, hr⟩ := ih (idx + ch.utf8Size) hend
      refine ⟨ch :: p, r, rfl, ?_, ?_⟩
      · rw [len_cons]
        omega
      · rw [len_cons, ← Nat.add_assoc]
        exact hr
    · refine ⟨[], ch :: s, rfl, hidx, List.forall_mem_cons.mpr ⟨?_, fun entry hentry => ?_⟩⟩
      · show budget < idx + ch.utf8Size
        omega
      · have hstart : idx + ch.utf8Size ≤ entry.1 := (start_of_mem_charIndices hentry).1
        omega

/-- What starts before a position, and what does not. -/
theorem exists_end (idx target : Nat) (s : List Char) (htarget : target ≤ idx + len s) :
    ∃ m q, s = m ++ q ∧ (∀ entry ∈ charIndices idx m, entry.1 < target)
      ∧ target ≤ idx + len m := by
  induction s generalizing idx with
  | nil => exact ⟨[], [], rfl, (fun _ h => by cases h), htarget⟩
  | cons ch s ih =>
    by_cases hstart : target ≤ idx
    · exact ⟨[], ch :: s, rfl, (fun _ h => by cases h), hstart⟩
    · rw [len_cons, ← Nat.add_assoc] at htarget
      obtain ⟨m, q, rfl, hm, hq⟩ := ih (idx + ch.utf8Size) htarget
      refine ⟨ch :: m, q, rfl, List.forall_mem_cons.mpr ⟨Nat.lt_of_not_le hstart, hm⟩, ?_⟩
      rw [len_cons]
      omega

/-- The three parts of a text: a beginning within the first budget, an end within the second, and
what is in neither. -/
theorem exists_parts (h : left + right < len s) :
    ∃ p m q, s = p ++ m ++ q ∧ len p ≤ left ∧ len s - right ≤ len p + len m
      ∧ (∀ entry ∈ charIndices (len p) (m ++ q), left < entry.1 + entry.2.utf8Size)
      ∧ ∀ entry ∈ charIndices 0 (p ++ m), entry.1 < len s - right := by
  obtain ⟨p, r, rfl, hp, hr⟩ := exists_beginning 0 left s (Nat.zero_le _)
  rw [Nat.zero_add] at hp hr
  rw [len_append] at h
  obtain ⟨m, q, rfl, hm, hq⟩ := exists_end (len p) (len (p ++ r) - right) r (by simp)
  refine ⟨p, m, q, by simp, hp, hq, hr, fun entry hentry => ?_⟩
  rw [charIndices_append, Nat.zero_add, List.mem_append] at hentry
  rcases hentry with hentry | hentry
  · have := (start_of_mem_charIndices hentry).2
    rw [len_append]
    omega
  · exact hm entry hentry

section

variable (hp : len p ≤ left)
  (hmq : ∀ entry ∈ charIndices (len p) (m ++ q), left < entry.1 + entry.2.utf8Size)

include hp hmq

/-- The loop finds the three parts. -/
theorem splitString_eq (hq : len (p ++ m ++ q) - right ≤ len p + len m)
    (hpm : ∀ entry ∈ charIndices 0 (p ++ m), entry.1 < len (p ++ m ++ q) - right) :
    splitString (p ++ m ++ q) left right = some (m.length, p, q) := by
  generalize htarget : len (p ++ m ++ q) - right = target at hq hpm
  rw [charIndices_append] at hmq hpm
  rw [List.forall_mem_append] at hmq hpm
  have hloop : (charIndices 0 (p ++ m ++ q)).foldl (splitStep left target)
      { prefixEnd := 0, suffixStart := len (p ++ m ++ q), removedChars := 0,
        suffixStarted := false }
      = { prefixEnd := len p, suffixStart := len (p ++ m), removedChars := m.length,
          suffixStarted := !q.isEmpty } := by
    rw [charIndices_append, charIndices_append, List.foldl_append, List.foldl_append,
      foldl_splitStep_beginning _ (by simpa using hp) rfl,
      foldl_splitStep_middle _ (by simpa using hmq.1) hpm.2,
      foldl_splitStep_end _ (by simpa using hmq.2) (by simpa using hq)]
    cases q <;> simp
  cases hs : (p ++ m ++ q).isEmpty with
  | true =>
    simp only [List.isEmpty_iff, List.append_eq_nil_iff] at hs
    obtain ⟨⟨rfl, rfl⟩, rfl⟩ := hs
    rfl
  | false =>
    have hle : ¬ len (p ++ m) < len p := by simp
    have hbefore := splitAtByte?_append p (m ++ q)
    have hafter := splitAtByte?_append (p ++ m) q
    rw [← List.append_assoc] at hbefore
    simp only [splitString, hs, htarget, hloop, if_neg hle, hbefore, hafter, Bool.false_eq_true,
      if_false, Option.bind_some, Option.map_some]

theorem isLongest_beginning :
    IsLongest (fun t => len t ≤ left) (p ++ m ++ q) p := by
  refine isLongest_of_stop (fun t r hr ht => (len_le_of_isPrefix hr).trans ht) (by simp) hp ?_
  intro ch hch hfits
  rw [List.append_assoc, List.prefix_append_right_inj] at hch
  obtain ⟨r, hr⟩ := hch
  have hlt : left < len p + ch.utf8Size := hmq (len p, ch) (by rw [← hr]; simp [charIndices])
  simp at hfits
  omega

end

theorem longest_end (hs : s = p ++ m ++ q)
    (hpm : ∀ entry ∈ charIndices 0 (p ++ m), entry.1 < len s - right) {r : List Char} (hr : r <:+ s)
    (hfits : len r ≤ right) : r <:+ q := by
  have hq : q <:+ s := hs ▸ List.suffix_append _ _
  rcases List.suffix_or_suffix_of_suffix hr hq with hshort | ⟨x, rfl⟩
  · exact hshort
  · obtain ⟨y, hy⟩ := hr
    have hyx : p ++ m = y ++ x := by grind [List.append_cancel_right]
    cases x with
    | nil => exact List.suffix_refl _
    | cons ch x =>
      -- the first character past `y` starts too early
      have hstart : len y < len s - right := by
        refine hpm (len y, ch) ?_
        rw [hyx, charIndices_append, Nat.zero_add]
        simp [charIndices]
      rw [← hy, len_append] at hstart
      omega

/-- **Truncation keeps as much as fits.** A text longer than a positive budget becomes its longest
beginning within half of the budget, the marker and its longest end within the rest; the marker
counts the characters in between. -/
theorem truncateMiddleChars_eq (s : List Char) (maxBytes : Nat) (hpos : 0 < maxBytes)
    (hlong : maxBytes < len s) :
    ∃ p removed q, s = p ++ removed ++ q
      ∧ truncateMiddleChars s maxBytes
        = some (p ++ formatTruncationMarker false removed.length ++ q)
      ∧ IsLongest (fun t => len t ≤ maxBytes / 2) s p
      ∧ len q ≤ maxBytes - maxBytes / 2
      ∧ ∀ r, r <:+ s → len r ≤ maxBytes - maxBytes / 2 → r <:+ q := by
  obtain ⟨p, m, q, hs, hp, hq, hmq, hpm⟩ :=
    exists_parts (show maxBytes / 2 + (maxBytes - maxBytes / 2) < len s by omega)
  refine ⟨p, m, q, hs, ?_, ?_, ?_, fun r hr hfits => longest_end hs hpm hr hfits⟩
  · have hne : s.isEmpty = false := by
      cases s with
      | nil => cases hlong
      | cons ch s => rfl
    have hsplit := splitString_eq hp hmq (hs ▸ hq) (hs ▸ hpm)
    rw [← hs] at hsplit
    simp [truncateMiddleChars, truncateWithByteEstimate, hne, Nat.pos_iff_ne_zero.mp hpos,
      Nat.not_le.mpr hlong, splitBudget, hsplit, removedUnits, assembleTruncatedOutput]
  · rw [hs]
    exact isLongest_beginning hp hmq
  · have hlen : len s = len p + len m + len q := by rw [hs, len_append, len_append]
    omega

/-- A budget that ends inside a character on either side. -/
theorem truncateMiddleChars_eq_emoji :
    0 < 9 ∧ 9 < len "😀abc😀😀".toList
      ∧ ∃ p removed q, "😀abc😀😀".toList = p ++ removed ++ q
        ∧ truncateMiddleChars "😀abc😀😀".toList 9
          = some (p ++ formatTruncationMarker false removed.length ++ q) := by
  have hlong : 9 < len "😀abc😀😀".toList := by decide +kernel
  obtain ⟨p, removed, q, hs, heq, _⟩ :=
    truncateMiddleChars_eq "😀abc😀😀".toList 9 (by decide) hlong
  exact ⟨by decide, hlong, p, removed, q, hs, heq⟩

example : truncateMiddleChars "😀abc😀😀".toList 9 = some "😀…4 chars truncated…😀".toList := by
  decide +kernel

end CodexRouter.Truncate
