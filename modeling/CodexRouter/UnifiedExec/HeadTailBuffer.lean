import Mathlib.Data.List.DropRight

set_option autoImplicit false

/-!
# The head and tail of a process's output

`HeadTailBuffer` keeps the first half of its capacity and the newest half, and counts what it
drops in between. Two buffers are merged without the dropped bytes. A buffer is compared with
the summary of everything that was pushed: `summary`.

`usizeMax` is the largest `usize`, where additions saturate. A `VecDeque` hands out its content
as two slices cut at an arbitrary place; the place is an argument of `pushBuffer`.
-/

namespace CodexRouter.UnifiedExec

structure HeadTailBuffer where
  head : List UInt8
  tail : List UInt8
  omittedBytes : Nat
deriving DecidableEq

namespace HeadTailBuffer

/-- `HeadTailBuffer::default`. -/
def empty : HeadTailBuffer := ⟨[], [], 0⟩

def headBudget (maxBytes : Nat) : Nat := maxBytes / 2

def tailBudget (maxBytes : Nat) : Nat := maxBytes - headBudget maxBytes

def saturatingAdd (usizeMax a b : Nat) : Nat := min (a + b) usizeMax

theorem saturatingAdd_eq {usizeMax a b : Nat} (h : a + b ≤ usizeMax) :
    saturatingAdd usizeMax a b = a + b :=
  Nat.min_eq_left h

variable (maxBytes usizeMax : Nat)

/-- The buffer with its head filled, and the bytes that did not fit. -/
def fillHead (buffer : HeadTailBuffer) (chunk : List UInt8) : HeadTailBuffer × List UInt8 :=
  let remainingHead := headBudget maxBytes - buffer.head.length
  -- `split_at_checked`: a shorter chunk fits entirely in the head
  let (chunkHead, chunkTail) :=
    if remainingHead ≤ chunk.length then (chunk.take remainingHead, chunk.drop remainingHead)
    else (chunk, [])
  ({ buffer with head := buffer.head ++ chunkHead }, chunkTail)

def pushTail (buffer : HeadTailBuffer) (chunk : List UInt8) : HeadTailBuffer :=
  let remainingTail := tailBudget maxBytes - buffer.tail.length
  let excessTail := chunk.length - remainingTail
  { buffer with
    tail :=
      if excessTail < buffer.tail.length then buffer.tail.drop excessTail ++ chunk
      else chunk.drop (excessTail - buffer.tail.length)
    omittedBytes := saturatingAdd usizeMax buffer.omittedBytes excessTail }

def pushChunk (buffer : HeadTailBuffer) (chunk : List UInt8) : HeadTailBuffer :=
  let (buffer, chunk) := buffer.fillHead maxBytes chunk
  buffer.pushTail maxBytes usizeMax chunk

/-- The first step of `push_buffer`: an existing prefix is preserved, otherwise the source's head
is reused. The second component is the part of the source's head that did not fit. -/
def takeHead (buffer : HeadTailBuffer) (head : List UInt8) : HeadTailBuffer × List UInt8 :=
  if buffer.head.isEmpty then ({ buffer with head }, []) else buffer.fillHead maxBytes head

/-- The second step of `push_buffer`; `first` is the length of the first slice of `tail`. -/
def takeTail (buffer : HeadTailBuffer) (overflow : List UInt8) (first : Nat) (tail : List UInt8) :
    HeadTailBuffer :=
  -- a full source tail displaces both the old tail and the unused source head
  if tail.length = tailBudget maxBytes then
    { buffer with
      tail
      omittedBytes := saturatingAdd usizeMax
        (saturatingAdd usizeMax buffer.omittedBytes buffer.tail.length) overflow.length }
  else
    let buffer := buffer.pushTail maxBytes usizeMax overflow
    if buffer.tail.isEmpty then { buffer with tail }
    else
      (buffer.pushTail maxBytes usizeMax (tail.take first)).pushTail maxBytes usizeMax
        (tail.drop first)

def pushBuffer (buffer : HeadTailBuffer) (first : Nat) (source : HeadTailBuffer) :
    HeadTailBuffer :=
  let buffer := { buffer with
    omittedBytes := saturatingAdd usizeMax buffer.omittedBytes source.omittedBytes }
  let (buffer, overflow) := buffer.takeHead maxBytes source.head
  buffer.takeTail maxBytes usizeMax overflow first source.tail

/-- The buffers that pushes can build, each with all the bytes pushed to it in order. -/
inductive Built : HeadTailBuffer → List UInt8 → Prop
  | empty : Built empty []
  | pushChunk {buffer : HeadTailBuffer} {bytes : List UInt8} (chunk : List UInt8) :
      Built buffer bytes → Built (buffer.pushChunk maxBytes usizeMax chunk) (bytes ++ chunk)
  | pushBuffer {buffer source : HeadTailBuffer} {bytes bytes' : List UInt8} (first : Nat) :
      Built buffer bytes → Built source bytes' →
        Built (buffer.pushBuffer maxBytes usizeMax first source) (bytes ++ bytes')

/-- What a buffer should hold of `bytes`: the first bytes, the last bytes of the rest, and the
number of bytes in neither. -/
def summary (bytes : List UInt8) : HeadTailBuffer :=
  let head := bytes.take (headBudget maxBytes)
  let rest := bytes.drop (headBudget maxBytes)
  let tail := rest.rtake (min (tailBudget maxBytes) rest.length)
  { head, tail, omittedBytes := bytes.length - head.length - tail.length }

/-! ## The last bytes of a list -/

theorem length_rtake (n : Nat) (l : List UInt8) : (l.rtake n).length = min n l.length := by
  simp only [List.rtake, List.length_drop]
  omega

theorem rtake_append_of_le {n : Nat} (l : List UInt8) {l' : List UInt8} (h : n ≤ l'.length) :
    (l ++ l').rtake n = l'.rtake n := by
  have hskip : (l ++ l').length - n = l.length + (l'.length - n) := by
    rw [List.length_append]; omega
  rw [List.rtake, hskip, ← List.drop_drop, List.drop_left, List.rtake]

theorem rtake_of_length_le {n : Nat} {l : List UInt8} (h : l.length ≤ n) : l.rtake n = l := by
  rw [List.rtake, Nat.sub_eq_zero_of_le h, List.drop_zero]

/-! ## The pushes on summaries -/

/-- The part of a buffer behind its head, for the bytes `rest` behind the head. -/
def withTail (head rest : List UInt8) : HeadTailBuffer :=
  ⟨head, rest.rtake (tailBudget maxBytes), rest.length - tailBudget maxBytes⟩

theorem summary_eq (bytes : List UInt8) :
    summary maxBytes bytes = withTail maxBytes (bytes.take (headBudget maxBytes))
      (bytes.drop (headBudget maxBytes)) := by
  have htail (rest : List UInt8) :
      rest.rtake (min (tailBudget maxBytes) rest.length) = rest.rtake (tailBudget maxBytes) := by
    rw [List.rtake, List.rtake]
    congr 1
    omega
  simp only [summary, withTail, htail]
  congr 1
  rw [length_rtake, List.length_take, List.length_drop]
  omega

variable {usizeMax}

theorem pushTail_withTail (head rest chunk : List UInt8)
    (h : (rest ++ chunk).length ≤ usizeMax) :
    (withTail maxBytes head rest).pushTail maxBytes usizeMax chunk =
      withTail maxBytes head (rest ++ chunk) := by
  rw [List.length_append] at h
  have homitted : rest.length - tailBudget maxBytes + (chunk.length -
      (tailBudget maxBytes - min (tailBudget maxBytes) rest.length)) =
        (rest ++ chunk).length - tailBudget maxBytes := by
    rw [List.length_append]; omega
  simp only [pushTail, withTail, length_rtake]
  rw [saturatingAdd_eq (by omega), homitted]
  congr 1
  split
  · next hkept =>
    rw [List.rtake, List.rtake, List.drop_drop, ← List.drop_append_of_le_length (by omega)]
    congr 1
  · next hkept =>
    -- either the chunk alone fills the tail, or nothing was there and it fits
    by_cases hfull : tailBudget maxBytes ≤ chunk.length
    · rw [rtake_append_of_le rest hfull, List.rtake]
      congr 1
      omega
    · have hnil : rest = [] := List.eq_nil_of_length_eq_zero (by omega)
      subst hnil
      have hskip : chunk.length - (tailBudget maxBytes - min (tailBudget maxBytes) 0) = 0 := by
        omega
      rw [List.nil_append, rtake_of_length_le (by omega), List.length_nil, hskip, Nat.zero_sub,
        List.drop_zero]

/-- The bytes of a chunk that go to the head of a buffer for `bytes`, and the others. -/
theorem fillHead_take (bytes tail chunk : List UInt8) (omitted : Nat) :
    fillHead maxBytes ⟨bytes.take (headBudget maxBytes), tail, omitted⟩ chunk =
      (⟨(bytes ++ chunk).take (headBudget maxBytes), tail, omitted⟩,
        chunk.drop (headBudget maxBytes - bytes.length)) := by
  have hremaining : headBudget maxBytes - (bytes.take (headBudget maxBytes)).length =
      headBudget maxBytes - bytes.length := by
    rw [List.length_take]; omega
  simp only [fillHead, hremaining, List.take_append]
  split
  · rfl
  · next hshort =>
    rw [List.take_of_length_le (l := chunk) (by omega), List.drop_of_length_le (by omega)]

/-- An empty head takes over the source's head, which is what filling it would do. -/
theorem takeHead_take (bytes bytes' tail : List UInt8) (omitted : Nat) :
    takeHead maxBytes ⟨bytes.take (headBudget maxBytes), tail, omitted⟩
        (bytes'.take (headBudget maxBytes)) =
      (⟨(bytes ++ bytes').take (headBudget maxBytes), tail, omitted⟩,
        (bytes'.take (headBudget maxBytes)).drop (headBudget maxBytes - bytes.length)) := by
  rw [takeHead]
  split
  · next hempty =>
    have hnone : headBudget maxBytes = 0 ∨ bytes = [] := by simpa using hempty
    rcases hnone with hbudget | rfl
    · simp [hbudget]
    · simp
  · rw [fillHead_take, List.take_append, List.take_append, List.take_take,
      Nat.min_eq_left (by omega)]

/-- With the omitted bytes of the source counted, the step leaves the bytes behind the head
followed by the overflow and the source's own rest. -/
theorem takeTail_withTail (head rest overflow rest' : List UInt8) (first : Nat)
    (h : (rest ++ overflow ++ rest').length ≤ usizeMax) :
    takeTail maxBytes usizeMax ⟨head, rest.rtake (tailBudget maxBytes),
        rest.length - tailBudget maxBytes + (rest'.length - tailBudget maxBytes)⟩
        overflow first (rest'.rtake (tailBudget maxBytes)) =
      withTail maxBytes head (rest ++ overflow ++ rest') := by
  rw [List.length_append, List.length_append] at h
  simp only [takeTail, length_rtake]
  split
  · next hfull =>
    rw [saturatingAdd_eq (b := min _ _) (by omega), saturatingAdd_eq (by omega), withTail,
      rtake_append_of_le _ (by omega)]
    congr 1
    simp only [List.length_append]
    omega
  · next hpartial =>
    have hsource : rest'.length - tailBudget maxBytes = 0 := by omega
    have hpush := pushTail_withTail maxBytes head rest overflow
      (show (rest ++ overflow).length ≤ usizeMax by rw [List.length_append]; omega)
    rw [withTail] at hpush
    rw [hsource, Nat.add_zero, rtake_of_length_le (l := rest') (by omega), hpush]
    split
    · next hempty =>
      -- nothing is behind the head yet, so the source's rest is all there is
      have hnil : rest ++ overflow = [] := by
        have hlength := length_rtake (tailBudget maxBytes) (rest ++ overflow)
        simp only [withTail, List.isEmpty_iff] at hempty
        rw [hempty, List.length_nil] at hlength
        exact List.eq_nil_of_length_eq_zero (by omega)
      rw [hnil, List.nil_append, withTail, withTail, rtake_of_length_le (l := rest') (by omega),
        hsource, List.length_nil, Nat.zero_sub]
    · rw [pushTail_withTail maxBytes head _ _ (by simp; omega),
        pushTail_withTail maxBytes head _ _ (by simp; omega), List.append_assoc _ _ (rest'.drop _),
        List.take_append_drop]

/-- `push_chunk` on a summary summarizes the longer sequence. -/
theorem pushChunk_summary (bytes chunk : List UInt8)
    (h : (bytes ++ chunk).length ≤ usizeMax) :
    (summary maxBytes bytes).pushChunk maxBytes usizeMax chunk =
      summary maxBytes (bytes ++ chunk) := by
  rw [summary_eq, summary_eq, pushChunk, withTail, fillHead_take, List.drop_append]
  refine pushTail_withTail maxBytes _ _ _ ?_
  simp only [List.length_append, List.length_drop] at h ⊢
  omega

/-- What lies behind the head of two sequences: the second one's head may overflow. -/
theorem drop_append_eq (n : Nat) (bytes bytes' : List UInt8) :
    (bytes ++ bytes').drop n =
      bytes.drop n ++ (bytes'.take n).drop (n - bytes.length) ++ bytes'.drop n := by
  rw [List.drop_append, List.append_assoc]
  congr 1
  have hsplit : bytes'.drop (n - bytes.length) =
      (bytes'.take n ++ bytes'.drop n).drop (n - bytes.length) := by
    rw [List.take_append_drop]
  by_cases hlen : n - bytes.length ≤ (bytes'.take n).length
  · rw [hsplit, List.drop_append_of_le_length hlen]
  · rw [List.length_take] at hlen
    have hnone : bytes'.drop n = [] := List.drop_of_length_le (by omega)
    rw [hsplit, hnone, List.append_nil, List.append_nil]

/-- `push_buffer` of one summary to another summarizes the concatenation. -/
theorem pushBuffer_summary (bytes bytes' : List UInt8) (first : Nat)
    (h : (bytes ++ bytes').length ≤ usizeMax) :
    (summary maxBytes bytes).pushBuffer maxBytes usizeMax first (summary maxBytes bytes') =
      summary maxBytes (bytes ++ bytes') := by
  have hrest := drop_append_eq (headBudget maxBytes) bytes bytes'
  have hbound : ((bytes ++ bytes').drop (headBudget maxBytes)).length ≤ usizeMax := by
    rw [List.length_drop]; omega
  rw [hrest] at hbound
  have hcount := hbound
  rw [List.length_append, List.length_append] at hcount
  rw [summary_eq, summary_eq, summary_eq, hrest]
  simp only [pushBuffer, withTail, takeHead_take]
  rw [saturatingAdd_eq (by omega)]
  exact takeTail_withTail maxBytes _ _ _ _ first hbound

/-! ## Buffers built by pushes -/

theorem eq_summary_of_built {buffer : HeadTailBuffer} {bytes : List UInt8}
    (hbuilt : Built maxBytes usizeMax buffer bytes) (h : bytes.length ≤ usizeMax) :
    buffer = summary maxBytes bytes := by
  induction hbuilt with
  | empty => simp [empty, summary, List.rtake]
  | pushChunk chunk _ ih =>
    rw [ih (by rw [List.length_append] at h; omega), pushChunk_summary maxBytes _ _ h]
  | pushBuffer first _ _ ih ih' =>
    have hlength := h
    rw [List.length_append] at hlength
    rw [ih (by omega), ih' (by omega), pushBuffer_summary maxBytes _ _ first h]

theorem built_foldl_pushChunk {buffer : HeadTailBuffer} {bytes : List UInt8}
    (hbuilt : Built maxBytes usizeMax buffer bytes) (chunks : List (List UInt8)) :
    Built maxBytes usizeMax (chunks.foldl (pushChunk maxBytes usizeMax) buffer)
      (bytes ++ chunks.flatten) := by
  induction chunks generalizing buffer bytes with
  | nil => simpa using hbuilt
  | cons chunk chunks ih =>
    rw [List.foldl_cons, List.flatten_cons, ← List.append_assoc]
    exact ih (hbuilt.pushChunk chunk)

/-- **A buffer is the summary of all bytes pushed**, however it was built; in particular pushing
another buffer has the effect of pushing the bytes that were pushed to that one, in any chunks. -/
theorem built_summarizes {buffer : HeadTailBuffer} {bytes : List UInt8}
    (hbuilt : Built maxBytes usizeMax buffer bytes) (h : bytes.length ≤ usizeMax) :
    buffer = summary maxBytes bytes ∧
      ∀ (first : Nat) (source : HeadTailBuffer) (chunks : List (List UInt8)),
        Built maxBytes usizeMax source chunks.flatten →
        (bytes ++ chunks.flatten).length ≤ usizeMax →
          buffer.pushBuffer maxBytes usizeMax first source =
            chunks.foldl (pushChunk maxBytes usizeMax) buffer := by
  refine ⟨eq_summary_of_built maxBytes hbuilt h, ?_⟩
  intro first source chunks hsource hlength
  calc buffer.pushBuffer maxBytes usizeMax first source
      = summary maxBytes (bytes ++ chunks.flatten) :=
        eq_summary_of_built maxBytes (hbuilt.pushBuffer first hsource) hlength
    _ = chunks.foldl (pushChunk maxBytes usizeMax) buffer :=
        (eq_summary_of_built maxBytes (built_foldl_pushChunk maxBytes hbuilt chunks) hlength).symm

/-- Six bytes, then a buffer that was given three more, with room for four. -/
theorem built_summarizes_nine :
    (empty.pushChunk 4 255 [1, 2, 3, 4, 5, 6]).pushBuffer 4 255 1
          (empty.pushChunk 4 255 [7, 8, 9]) =
        summary 4 [1, 2, 3, 4, 5, 6, 7, 8, 9] ∧
      summary 4 [1, 2, 3, 4, 5, 6, 7, 8, 9] = ⟨[1, 2], [8, 9], 5⟩ :=
  ⟨(built_summarizes 4 (.pushBuffer 1 (.pushChunk [1, 2, 3, 4, 5, 6] .empty)
    (.pushChunk [7, 8, 9] .empty)) (by decide)).1, by decide⟩

end HeadTailBuffer

end CodexRouter.UnifiedExec
