import CodexRouter.Streaming.TerminalEvents

set_option autoImplicit false

/-! # How a response is cut into chunks

The scanner carries its state from chunk to chunk, so that the events it finds do not depend on
the cuts. The outcome does: `feed` reports one outcome for a whole chunk, after all its values
have been observed. A response whose events show no value after the first terminal event is
recorded the same however it is cut; any other response is recorded differently when the cut
is right after that event.
-/

namespace CodexRouter.Streaming

open CodexRouter.Lib

/-! ## Items -/

def observed (items : List Item) : List Json := items.flatMap Item.observed

/-- What `feed` returns for the items of a chunk. -/
def terminal (items : List Item) : Option Bool := items.foldl Item.mark none

/-- After the first terminal item there is no value. -/
def Quiet : List Item → Prop
  | [] => True
  | item :: items => if (item.mark none).isSome then observed items = [] else Quiet items

@[simp] theorem observed_append (l₁ l₂ : List Item) :
    observed (l₁ ++ l₂) = observed l₁ ++ observed l₂ := by
  simp [observed]

/-- Without a value a recorded outcome stays. -/
theorem foldl_mark_quiet {items : List Item} (h : observed items = []) (b : Bool) :
    items.foldl Item.mark (some b) = some b := by
  induction items with
  | nil => rfl
  | cons item items ih =>
    cases item with
    | done => exact ih h
    | value v => simp [observed, Item.observed] at h

/-- Quiet items show no value wherever they are cut after a terminal item. -/
theorem quiet_iff (items : List Item) :
    Quiet items ↔ ∀ l₁ l₂, items = l₁ ++ l₂ → terminal l₁ ≠ none → observed l₂ = [] := by
  induction items with
  | nil =>
    refine iff_of_true trivial fun l₁ l₂ h _ => ?_
    rw [(List.append_eq_nil_iff.mp h.symm).2]
    rfl
  | cons item items ih =>
    cases hmark : item.mark none with
    | none =>
      simp only [Quiet, hmark, Option.isSome_none, Bool.false_eq_true, if_false, ih]
      constructor
      · intro h l₁ l₂ hcut hterm
        cases l₁ with
        | nil => exact absurd rfl hterm
        | cons first l₁ =>
          rw [List.cons_append, List.cons.injEq] at hcut
          obtain ⟨rfl, hcut⟩ := hcut
          exact h l₁ l₂ hcut (by simpa [terminal, hmark] using hterm)
      · intro h l₁ l₂ hcut hterm
        exact h (item :: l₁) l₂ (by rw [hcut]; rfl) (by simpa [terminal, hmark] using hterm)
    | some b =>
      simp only [Quiet, hmark, Option.isSome_some, if_true]
      constructor
      · intro h l₁ l₂ hcut hterm
        cases l₁ with
        | nil => exact absurd rfl hterm
        | cons first l₁ =>
          rw [List.cons_append, List.cons.injEq] at hcut
          rw [hcut.2, observed_append] at h
          exact (List.append_eq_nil_iff.mp h).2
      · exact fun h => h [item] items rfl (by simp [terminal, hmark])

/-! ## Calls of grouped items -/

/-- The calls for items that come in groups. -/
def groupCalls (gs : List (List Item)) : List Call :=
  gs.flatMap fun g => (observed g).map .observe ++ ((terminal g).map .finish).toList

theorem outcome_append (values : List Json) (calls : List Call) :
    outcome (values.map .observe ++ calls) = outcome calls := by
  induction values with
  | nil => rfl
  | cons v values ih => exact ih

theorem observedBefore_append (values : List Json) (calls : List Call) :
    observedBefore (values.map .observe ++ calls) = values ++ observedBefore calls := by
  induction values with
  | nil => rfl
  | cons v values ih => simp [observedBefore, ih]

/-- What is recorded of a response: the outcome and the values before it. -/
def record (calls : List Call) : Option Bool × List Json := (outcome calls, observedBefore calls)

theorem record_groupCalls_cons (g : List Item) (gs : List (List Item)) :
    record (groupCalls (g :: gs))
      = match terminal g with
        | some b => (some b, observed g)
        | none => ((record (groupCalls gs)).1, observed g ++ (record (groupCalls gs)).2) := by
  simp only [groupCalls, List.flatMap_cons, record, List.append_assoc, outcome_append,
    observedBefore_append]
  cases terminal g with
  | none => simp
  | some b => simp [outcome, observedBefore]

theorem record_single (g : List Item) :
    record (groupCalls [g]) = (terminal g, observed g) := by
  rw [record_groupCalls_cons]
  cases terminal g with
  | none => simp [groupCalls, record, outcome, observedBefore]
  | some b => rfl

/-- **Quiet items are recorded the same in any grouping.** -/
theorem record_of_quiet {gs : List (List Item)} (h : Quiet gs.flatten) :
    record (groupCalls gs) = (terminal gs.flatten, observed gs.flatten) := by
  induction gs with
  | nil => rfl
  | cons g gs ih =>
    rw [List.flatten_cons, quiet_iff] at h
    rw [record_groupCalls_cons, List.flatten_cons]
    cases hterm : terminal g with
    | none =>
      have hfold : ∀ l, terminal (g ++ l) = terminal l := by
        simp only [terminal] at hterm
        simp [terminal, hterm]
      have hrest : Quiet gs.flatten := (quiet_iff _).mpr fun l₁ l₂ hcut hl₁ =>
        h (g ++ l₁) l₂ (by rw [hcut, List.append_assoc]) (by rwa [hfold])
      simp [ih hrest, hfold]
    | some b =>
      have hgs := h g gs.flatten rfl (by simp [hterm])
      have hfold : terminal (g ++ gs.flatten) = some b := by
        simp only [terminal] at hterm
        simp [terminal, hterm, foldl_mark_quiet hgs]
      simp [hfold, hgs]

/-! ## The scanner -/

/-- The items of a byte stream. -/
def items (parse : List UInt8 → Option Json) (bytes : List UInt8) : List Item :=
  emitted (Scanner.byte parse) Scanner.init bytes

section Scanner

variable {parse : List UInt8 → Option Json}

theorem feed_eq (s : Scanner) (t : Option Bool) (bytes : List UInt8) :
    feed parse s t bytes
      = (after (Scanner.byte parse) s bytes, observed (emitted (Scanner.byte parse) s bytes),
          (emitted (Scanner.byte parse) s bytes).foldl Item.mark t) := by
  induction bytes generalizing s t with
  | nil => rfl
  | cons b bytes ih =>
    simp only [feed, after, emitted]
    rcases hb : s.byte parse b with ⟨s', _ | item⟩
    · simp [ih]
    · simp [ih, observed]

/-- The calls of an event stream are those of its items, grouped by chunk. -/
theorem chunkCalls_sse (s : Scanner) (chunks : List (List UInt8)) :
    chunkCalls parse true s chunks = groupCalls (groups (Scanner.byte parse) s chunks) := by
  induction chunks generalizing s with
  | nil => rfl
  | cons chunk chunks ih =>
    simp only [chunkCalls, if_true, feed_eq, ih, groups, groupCalls, List.flatMap_cons]
    rfl

theorem chunkCalls_plain (s : Scanner) (chunks : List (List UInt8)) :
    chunkCalls parse false s chunks = [] := by
  induction chunks generalizing s with
  | nil => rfl
  | cons chunk chunks ih => simpa [chunkCalls] using ih s

theorem forward_sse {x : Exchange} (hx : x.stream = true ∧ x.success = true ∧ x.sse = true)
    (chunks : List (List UInt8)) :
    forward parse x chunks
      = groupCalls (groups (Scanner.byte parse) Scanner.init chunks) := by
  simp [forward, hx, chunkCalls_sse]

/-- Outside an event stream the chunks do not count, only their bytes. -/
theorem forward_plain {x : Exchange} (hx : ¬ (x.stream = true ∧ x.success = true ∧ x.sse = true))
    {chunks : List (List UInt8)} {bytes : List UInt8} (hbytes : chunks.flatten = bytes) :
    forward parse x chunks = forward parse x [bytes] := by
  subst hbytes
  unfold forward
  split
  · simp
  · rename_i hstream
    have hsse : x.sse = false := by grind
    simp [hsse, chunkCalls_plain]

end Scanner

/-- **Chunks and outcome.** The outcome recorded for a response and the values observed before
it do not depend on how the response is cut into chunks, exactly when the response is not a
streamed event stream or no event with a value ends after its first terminal event. -/
theorem chunking_irrelevant_iff (parse : List UInt8 → Option Json) (x : Exchange)
    (bytes : List UInt8) :
    (∀ chunks : List (List UInt8), chunks.flatten = bytes →
        outcome (forward parse x chunks) = outcome (forward parse x [bytes])
        ∧ observedBefore (forward parse x chunks) = observedBefore (forward parse x [bytes]))
      ↔ (x.stream = true ∧ x.success = true ∧ x.sse = true → Quiet (items parse bytes)) := by
  constructor
  · intro hall hx
    refine (quiet_iff _).mpr fun l₁ l₂ hitems hterm => ?_
    obtain ⟨b, hb⟩ := Option.ne_none_iff_exists'.mp hterm
    obtain ⟨b₁, b₂, rfl, h₁, h₂⟩ := exists_cut _ hitems
    -- cut right after the terminal item
    have hcut := (hall [b₁, b₂] (by simp)).2
    have hsplit : observedBefore (forward parse x [b₁, b₂]) = observed l₁ := by
      have := record_groupCalls_cons l₁ [l₂]
      rw [hb] at this
      rw [forward_sse hx]
      simp only [groups, h₁, h₂]
      exact congrArg Prod.snd this
    have hwhole : observedBefore (forward parse x [b₁ ++ b₂]) = observed l₁ ++ observed l₂ := by
      have := record_single (items parse (b₁ ++ b₂))
      rw [forward_sse hx]
      simp only [groups]
      exact (congrArg Prod.snd this).trans (by rw [hitems, observed_append])
    rw [hsplit, hwhole] at hcut
    simpa using hcut
  · intro hquiet chunks hchunks
    by_cases hx : x.stream = true ∧ x.success = true ∧ x.sse = true
    · have hq := hquiet hx
      have hflat : (groups (Scanner.byte parse) Scanner.init chunks).flatten
          = items parse bytes := by rw [flatten_groups, hchunks, items]
      have hrec := record_of_quiet (hflat ▸ hq)
      rw [hflat, ← record_single] at hrec
      rw [forward_sse hx, forward_sse hx]
      exact ⟨congrArg Prod.fst hrec, congrArg Prod.snd hrec⟩
    · rw [forward_plain hx hchunks]
      exact ⟨rfl, rfl⟩

/-- A successful streamed event stream. -/
def eventStream : Exchange := ⟨true, false, true, true, false⟩

/-- The parser on the one value of the following streams. -/
def parseError (bytes : List UInt8) : Option Json :=
  if bytes = ascii "\x7b\"error\":1\x7d" then some (.obj [("error", .int 1)]) else none

/-- The end of a stream and then an error: in one chunk the attempt fails and the error is
observed before that, in two chunks it succeeds and nothing is observed before. -/
theorem error_after_done :
    outcome (forward parseError eventStream
        [ascii "data: [DONE]\n\n" ++ ascii "data: \x7b\"error\":1\x7d\n\n"]) = some false
    ∧ outcome (forward parseError eventStream
        [ascii "data: [DONE]\n\n", ascii "data: \x7b\"error\":1\x7d\n\n"]) = some true := by
  refine ⟨?_, ?_⟩ <;> decide +kernel

end CodexRouter.Streaming
