import Mathlib.Tactic
import CodexRouter.Lib.Text

set_option autoImplicit false

/-! # Inline tags that are hidden from streamed text

`InlineHiddenTagParser` takes text chunk by chunk. It hides the configured tags and extracts their
bodies, and holds back an end of a chunk that may be the beginning of a tag. `hideTags` says what
this comes to for a single tag and a whole text; the parser gives the same for every way of cutting
the text into chunks.

A text is the list of its characters, and a length counts characters. The source counts bytes;
searching and splitting agree, since a tag matches at character boundaries only.
-/

namespace CodexRouter.StreamParser

open Lib

abbrev Text := List Char

/-- The result of one pushed chunk, or of the end of the stream. -/
structure StreamTextChunk (E : Type) where
  visibleText : Text := []
  extracted : List E := []
deriving DecidableEq

namespace StreamTextChunk

variable {E : Type}

instance : Append (StreamTextChunk E) where
  append a b := ⟨a.visibleText ++ b.visibleText, a.extracted ++ b.extracted⟩

@[simp] theorem visibleText_append (a b : StreamTextChunk E) :
    (a ++ b).visibleText = a.visibleText ++ b.visibleText := rfl

@[simp] theorem extracted_append (a b : StreamTextChunk E) :
    (a ++ b).extracted = a.extracted ++ b.extracted := rfl

theorem append_assoc (a b c : StreamTextChunk E) : a ++ b ++ c = a ++ (b ++ c) := by
  show StreamTextChunk.mk _ _ = StreamTextChunk.mk _ _
  simp

end StreamTextChunk

/-- One hidden tag with its body. -/
structure ExtractedInlineTag (T : Type) where
  tag : T
  content : Text
deriving DecidableEq

/-- A literal tag. `InlineHiddenTagParser::new` refuses empty delimiters. -/
structure InlineTagSpec (T : Type) where
  tag : T
  openTag : Text
  closeTag : Text
  openTag_ne : openTag ≠ []
  closeTag_ne : closeTag ≠ []

structure ActiveTag (T : Type) where
  tag : T
  close : Text
  content : Text

structure InlineHiddenTagParser (T : Type) where
  specs : List (InlineTagSpec T)
  pending : Text
  active : Option (ActiveTag T)
  specs_ne : specs ≠ []

/-- The loop of `longest_suffix_prefix_len`, from the longest length to try down to one. -/
def longestSuffixPrefixLenFrom (s needle : Text) : Nat → Nat
  | 0 => 0
  | k + 1 => if needle.take (k + 1) <:+ s then k + 1 else longestSuffixPrefixLenFrom s needle k

/-- The length of the longest end of `s` that begins `needle` without being all of it. -/
def longestSuffixPrefixLen (s needle : Text) : Nat :=
  longestSuffixPrefixLenFrom s needle (min s.length (needle.length - 1))

namespace InlineHiddenTagParser

variable {T : Type}

def new (specs : List (InlineTagSpec T)) (hspecs : specs ≠ []) : InlineHiddenTagParser T :=
  ⟨specs, [], none, hspecs⟩

/-- The comparison of `find_next_open`: the leftmost opener, then the longest, then the first. -/
def opensBefore (a b : Nat × Nat × Nat) : Bool :=
  a.1 < b.1 || (a.1 == b.1 && (b.2.1 < a.2.1 || (a.2.1 == b.2.1 && a.2.2 ≤ b.2.2)))

def findNextOpen (p : InlineHiddenTagParser T) : Option (Nat × Nat) :=
  let found := p.specs.zipIdx.filterMap fun e =>
    (find? e.1.openTag p.pending).map fun pos => (pos, e.1.openTag.length, e.2)
  match found with
  | [] => none
  | first :: others =>
    let best := others.foldl (fun best e => if opensBefore best e then best else e) first
    some (best.1, best.2.2)

def maxOpenPrefixSuffixLen (p : InlineHiddenTagParser T) : Nat :=
  (p.specs.map fun spec => longestSuffixPrefixLen p.pending spec.openTag).foldl max 0

/-- The loop of `push_str`. Every round but the last takes a delimiter off the pending text. -/
def pushLoop : Nat → InlineHiddenTagParser T → StreamTextChunk (ExtractedInlineTag T) →
    InlineHiddenTagParser T × StreamTextChunk (ExtractedInlineTag T)
  | 0, p, out => (p, out)
  | fuel + 1, p, out =>
    match p.active with
    | some active =>
      match find? active.close p.pending with
      | some closeIdx =>
        let content := active.content ++ p.pending.take closeIdx
        pushLoop fuel
          { p with
            active := none
            pending := p.pending.drop (closeIdx + active.close.length) }
          (out ++ { extracted := [⟨active.tag, content⟩] })
      | none =>
        let take := p.pending.length - longestSuffixPrefixLen p.pending active.close
        let content := active.content ++ p.pending.take take
        ({ p with
            active := some { active with content }
            pending := p.pending.drop take }, out)
    | none =>
      match p.findNextOpen with
      | some (openIdx, specIdx) =>
        match p.specs[specIdx]? with
        | some spec =>
          pushLoop fuel
            { p with
              active := some ⟨spec.tag, spec.closeTag, []⟩
              pending := p.pending.drop (openIdx + spec.openTag.length) }
            (out ++ { visibleText := p.pending.take openIdx })
        -- `find_next_open` gives an index of `specs`
        | none => (p, out)
      | none =>
        let take := p.pending.length - p.maxOpenPrefixSuffixLen
        ({ p with pending := p.pending.drop take },
          out ++ { visibleText := p.pending.take take })

def pushStr (p : InlineHiddenTagParser T) (chunk : Text) :
    InlineHiddenTagParser T × StreamTextChunk (ExtractedInlineTag T) :=
  let pending := p.pending ++ chunk
  pushLoop (pending.length + 1) { p with pending } {}

/-- The end of the stream closes an open tag. -/
def finish (p : InlineHiddenTagParser T) :
    InlineHiddenTagParser T × StreamTextChunk (ExtractedInlineTag T) :=
  match p.active with
  | some active =>
    ({ p with active := none, pending := [] },
      { extracted := [⟨active.tag, active.content ++ p.pending⟩] })
  | none => ({ p with pending := [] }, { visibleText := p.pending })

end InlineHiddenTagParser

/-! ## What the tags of a whole text hide -/

variable {T : Type}

theorem length_drop_lt {needle text : Text} {i : Nat} (hne : needle ≠ [])
    (h : find? needle text = some i) : (text.drop (i + needle.length)).length < text.length := by
  have hlen := (find?_eq_some_spec h).1
  have hpos : 0 < needle.length := List.length_pos_iff.mpr hne
  rw [List.length_drop]
  omega

/-- The visible rest of a text and the bodies of its tags, from the left. With `some body` the text
starts inside a tag of which `body` has been read. A tag that is not closed runs to the end. -/
def hideTags (spec : InlineTagSpec T) (inside : Option Text) (text : Text) :
    StreamTextChunk (ExtractedInlineTag T) :=
  match inside with
  | none =>
    match _h : find? spec.openTag text with
    | none => { visibleText := text }
    | some i =>
      { visibleText := text.take i }
        ++ hideTags spec (some []) (text.drop (i + spec.openTag.length))
  | some body =>
    match _h : find? spec.closeTag text with
    | none => { extracted := [⟨spec.tag, body ++ text⟩] }
    | some i =>
      { extracted := [⟨spec.tag, body ++ text.take i⟩] }
        ++ hideTags spec none (text.drop (i + spec.closeTag.length))
termination_by text.length
decreasing_by
  · exact length_drop_lt spec.openTag_ne _h
  · exact length_drop_lt spec.closeTag_ne _h

theorem hideTags_outside (spec : InlineTagSpec T) (text : Text) :
    hideTags spec none text = match find? spec.openTag text with
      | none => { visibleText := text }
      | some i =>
        { visibleText := text.take i }
          ++ hideTags spec (some []) (text.drop (i + spec.openTag.length)) := by
  rw [hideTags]
  split <;> rename_i h <;> rw [h]

theorem hideTags_inside (spec : InlineTagSpec T) (body text : Text) :
    hideTags spec (some body) text = match find? spec.closeTag text with
      | none => { extracted := [⟨spec.tag, body ++ text⟩] }
      | some i =>
        { extracted := [⟨spec.tag, body ++ text.take i⟩] }
          ++ hideTags spec none (text.drop (i + spec.closeTag.length)) := by
  rw [hideTags]
  split <;> rename_i h <;> rw [h]

/-! ## What is held back -/

theorem le_longestSuffixPrefixLenFrom {s needle : Text} {k n : Nat} (hk : k ≤ n)
    (h : needle.take k <:+ s) : k ≤ longestSuffixPrefixLenFrom s needle n := by
  induction n with
  | zero => omega
  | succ n ih =>
    rw [longestSuffixPrefixLenFrom]
    split
    · exact hk
    · next hnot => grind

theorem length_le_longestSuffixPrefixLen {s needle t : Text} (hs : t <:+ s) (hn : t <+: needle)
    (hlt : t.length < needle.length) : t.length ≤ longestSuffixPrefixLen s needle := by
  have hlen := hs.length_le
  have htake : needle.take t.length = t := (List.prefix_iff_eq_take.mp hn).symm
  exact le_longestSuffixPrefixLenFrom (by omega) (htake.symm ▸ hs)

/-- A needle that is not in the pending text can only start in the part that is held back. -/
theorem find?_held_back {needle pending : Text} (hnone : find? needle pending = none) {take : Nat}
    (htake : take = pending.length - longestSuffixPrefixLen pending needle) (t : Text) :
    find? needle (pending.take take ++ (pending.drop take ++ t)) =
      (find? needle (pending.drop take ++ t)).map (· + (pending.take take).length) := by
  have hsplit : pending.take take ++ pending.drop take = pending :=
    List.take_append_drop take pending
  rw [← List.append_assoc]
  apply find?_cut (by rwa [hsplit])
  intro s hs hlong hshort hbegins
  rw [hsplit] at hs
  have hle := length_le_longestSuffixPrefixLen hs hbegins hshort
  have hle' := hs.length_le
  rw [List.length_drop] at hlong
  omega

section HideTags

variable {spec : InlineTagSpec T} {body pending : Text} {i : Nat}

theorem hideTags_of_open (h : find? spec.openTag pending = some i) (t : Text) :
    hideTags spec none (pending ++ t) =
      { visibleText := pending.take i }
        ++ hideTags spec (some []) (pending.drop (i + spec.openTag.length) ++ t) := by
  obtain ⟨hlen, hfind⟩ := find?_eq_some_spec h
  rw [hideTags_outside, hfind]
  simp only [List.take_append_of_le_length (show i ≤ pending.length by omega),
    List.drop_append_of_le_length hlen]

theorem hideTags_of_close (h : find? spec.closeTag pending = some i) (t : Text) :
    hideTags spec (some body) (pending ++ t) =
      { extracted := [⟨spec.tag, body ++ pending.take i⟩] }
        ++ hideTags spec none (pending.drop (i + spec.closeTag.length) ++ t) := by
  obtain ⟨hlen, hfind⟩ := find?_eq_some_spec h
  rw [hideTags_inside, hfind]
  simp only [List.take_append_of_le_length (show i ≤ pending.length by omega),
    List.drop_append_of_le_length hlen]

/-- Text in which no tag can start is visible. -/
theorem hideTags_visible {a l : Text}
    (h : find? spec.openTag (a ++ l) = (find? spec.openTag l).map (· + a.length)) :
    hideTags spec none (a ++ l) = { visibleText := a } ++ hideTags spec none l := by
  rw [hideTags_outside, h, hideTags_outside spec l]
  cases find? spec.openTag l with
  | none => rfl
  | some i =>
    rw [← StreamTextChunk.append_assoc]
    have hdrop : i + a.length + spec.openTag.length = a.length + (i + spec.openTag.length) := by
      omega
    simp only [Option.map_some, Nat.add_comm i a.length, List.take_length_add_append]
    rw [Nat.add_comm a.length i, hdrop, List.drop_length_add_append]
    rfl

/-- Text in which the tag cannot end belongs to its body. -/
theorem hideTags_hidden (body : Text) {a l : Text}
    (h : find? spec.closeTag (a ++ l) = (find? spec.closeTag l).map (· + a.length)) :
    hideTags spec (some body) (a ++ l) = hideTags spec (some (body ++ a)) l := by
  rw [hideTags_inside, h, hideTags_inside spec _ l]
  cases find? spec.closeTag l with
  | none => simp
  | some i =>
    have hdrop : i + a.length + spec.closeTag.length = a.length + (i + spec.closeTag.length) := by
      omega
    simp only [Option.map_some, Nat.add_comm i a.length, List.take_length_add_append]
    rw [Nat.add_comm a.length i, hdrop, List.drop_length_add_append, List.append_assoc]

end HideTags

namespace InlineHiddenTagParser

/-! ## The parser of a single tag -/

/-- A parser for the one tag `spec`. -/
structure Tracks (spec : InlineTagSpec T) (p : InlineHiddenTagParser T) : Prop where
  specs_eq : p.specs = [spec]
  active_tag : ∀ active, p.active = some active → active.tag = spec.tag
  active_close : ∀ active, p.active = some active → active.close = spec.closeTag

/-- The delimiter that the parser waits for. -/
def awaited (spec : InlineTagSpec T) (p : InlineHiddenTagParser T) : Text :=
  if p.active.isSome then spec.closeTag else spec.openTag

/-- What is still to come from the parser if `t` is the rest of the text. -/
def due (spec : InlineTagSpec T) (p : InlineHiddenTagParser T) (t : Text) :
    StreamTextChunk (ExtractedInlineTag T) :=
  hideTags spec (p.active.map ActiveTag.content) (p.pending ++ t)

/-- The delimiter that the parser waits for has not come yet. -/
structure Settled (spec : InlineTagSpec T) (p : InlineHiddenTagParser T) : Prop
    extends Tracks spec p where
  waiting : find? (p.awaited spec) p.pending = none

theorem Settled.new (spec : InlineTagSpec T) :
    Settled spec (InlineHiddenTagParser.new [spec] (List.cons_ne_nil _ _)) := by
  refine ⟨⟨rfl, ?_, ?_⟩, ?_⟩
  · rintro _ ⟨⟩
  · rintro _ ⟨⟩
  · show find? spec.openTag [] = none
    rw [find?, if_neg spec.openTag_ne]

variable {spec : InlineTagSpec T} {p : InlineHiddenTagParser T}

theorem Tracks.findNextOpen_eq (h : Tracks spec p) :
    p.findNextOpen = (find? spec.openTag p.pending).map fun pos => (pos, 0) := by
  cases hfind : find? spec.openTag p.pending <;> simp [findNextOpen, h.specs_eq, hfind]

theorem Tracks.maxOpenPrefixSuffixLen_eq (h : Tracks spec p) :
    p.maxOpenPrefixSuffixLen = longestSuffixPrefixLen p.pending spec.openTag := by
  simp [maxOpenPrefixSuffixLen, h.specs_eq]

/-- The loop gives out the beginning of what is due and leaves the rest. A round takes a delimiter
off the pending text, so that the fuel lasts until none is left. -/
theorem pushLoop_due {fuel : Nat} (out : StreamTextChunk (ExtractedInlineTag T))
    (h : Tracks spec p) (hfuel : p.pending.length < fuel) :
    Settled spec (pushLoop fuel p out).1 ∧
      ∀ t, out ++ p.due spec t = (pushLoop fuel p out).2 ++ (pushLoop fuel p out).1.due spec t := by
  induction fuel generalizing p out with
  | zero => omega
  | succ fuel ih =>
    cases hactive : p.active with
    | some active =>
      have htag := h.active_tag active hactive
      have hclose := h.active_close active hactive
      have hdue : ∀ t, p.due spec t = hideTags spec (some active.content) (p.pending ++ t) := by
        intro t
        rw [due, hactive, Option.map_some]
      cases hfind : find? spec.closeTag p.pending with
      | some i =>
        have hlt := length_drop_lt spec.closeTag_ne hfind
        simp only [pushLoop, hactive, hclose, hfind, htag, hdue, hideTags_of_close hfind]
        simp only [← StreamTextChunk.append_assoc]
        refine ih _ ⟨h.specs_eq, by rintro _ ⟨⟩, by rintro _ ⟨⟩⟩ ?_
        show (p.pending.drop (i + spec.closeTag.length)).length < fuel
        omega
      | none =>
        simp only [pushLoop, hactive, hclose, hfind, hdue]
        refine ⟨⟨⟨h.specs_eq, ?_, ?_⟩, ?_⟩, fun t => ?_⟩
        · rintro _ ⟨⟩
          exact htag
        · rintro _ ⟨⟩
          exact rfl
        · exact find?_eq_none_of_suffix hfind (List.drop_suffix _ _)
        · have hheld := hideTags_hidden active.content (find?_held_back hfind rfl t)
          rw [← List.append_assoc, List.take_append_drop] at hheld
          rw [hheld]
          rfl
    | none =>
      have hdue : ∀ t, p.due spec t = hideTags spec none (p.pending ++ t) := by
        intro t
        rw [due, hactive, Option.map_none]
      cases hfind : find? spec.openTag p.pending with
      | some i =>
        have hlt := length_drop_lt spec.openTag_ne hfind
        simp only [pushLoop, hactive, h.findNextOpen_eq, hfind, Option.map_some, h.specs_eq,
          List.getElem?_cons_zero, hdue, hideTags_of_open hfind]
        simp only [← StreamTextChunk.append_assoc]
        refine ih _ ⟨rfl, by rintro _ ⟨⟩; rfl, by rintro _ ⟨⟩; rfl⟩ ?_
        show (p.pending.drop (i + spec.openTag.length)).length < fuel
        omega
      | none =>
        simp only [pushLoop, hactive, h.findNextOpen_eq, hfind, Option.map_none,
          h.maxOpenPrefixSuffixLen_eq, hdue]
        refine ⟨⟨⟨h.specs_eq, ?_, ?_⟩, ?_⟩, fun t => ?_⟩
        · rintro _ ⟨⟩
        · rintro _ ⟨⟩
        · exact find?_eq_none_of_suffix hfind (List.drop_suffix _ _)
        · have hheld := hideTags_visible (find?_held_back hfind rfl t)
          rw [← List.append_assoc, List.take_append_drop] at hheld
          rw [hheld, ← StreamTextChunk.append_assoc]
          rfl

/-- **A chunk gives the beginning of what is due.** -/
theorem pushStr_due (h : Settled spec p) (chunk : Text) :
    Settled spec (p.pushStr chunk).1 ∧
      ∀ t, p.due spec (chunk ++ t) = (p.pushStr chunk).2 ++ (p.pushStr chunk).1.due spec t := by
  have htracks : Tracks spec { p with pending := p.pending ++ chunk } :=
    ⟨h.specs_eq, h.active_tag, h.active_close⟩
  obtain ⟨hsettled, hdue⟩ := pushLoop_due {} htracks (Nat.lt_succ_self _)
  refine ⟨hsettled, fun t => ?_⟩
  have hstart : p.due spec (chunk ++ t) = due spec { p with pending := p.pending ++ chunk } t := by
    rw [due, due, List.append_assoc]
  rw [hstart]
  exact hdue t

/-- **The end of the stream gives the rest.** -/
theorem finish_due (h : Settled spec p) : p.due spec [] = p.finish.2 := by
  have hwaiting := h.waiting
  cases hactive : p.active with
  | some active =>
    have htag := h.active_tag active hactive
    rw [awaited, hactive, Option.isSome_some, if_pos rfl] at hwaiting
    rw [due, hactive, Option.map_some, List.append_nil, hideTags_inside, hwaiting, ← htag]
    simp only [finish, hactive]
  | none =>
    rw [awaited, hactive] at hwaiting
    rw [due, hactive, Option.map_none, List.append_nil, hideTags_outside]
    rw [show find? spec.openTag p.pending = none from hwaiting]
    simp only [finish, hactive]

end InlineHiddenTagParser

/-! ## Citations -/

inductive CitationTag
  | citation
deriving DecidableEq

def citationSpec : InlineTagSpec CitationTag where
  tag := .citation
  openTag := "<oai-mem-citation>".toList
  closeTag := "</oai-mem-citation>".toList
  openTag_ne := by decide
  closeTag_ne := by decide

structure CitationStreamParser where
  inner : InlineHiddenTagParser CitationTag

/-- The bodies as plain texts. -/
def citationChunk (chunk : StreamTextChunk (ExtractedInlineTag CitationTag)) :
    StreamTextChunk Text :=
  ⟨chunk.visibleText, chunk.extracted.map ExtractedInlineTag.content⟩

namespace CitationStreamParser

def new : CitationStreamParser :=
  ⟨InlineHiddenTagParser.new [citationSpec] (List.cons_ne_nil _ _)⟩

def pushStr (p : CitationStreamParser) (chunk : Text) :
    CitationStreamParser × StreamTextChunk Text :=
  let r := p.inner.pushStr chunk
  (⟨r.1⟩, citationChunk r.2)

def finish (p : CitationStreamParser) : CitationStreamParser × StreamTextChunk Text :=
  let r := p.inner.finish
  (⟨r.1⟩, citationChunk r.2)

end CitationStreamParser

end CodexRouter.StreamParser
