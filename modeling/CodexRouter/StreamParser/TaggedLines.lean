import Mathlib.Tactic
import CodexRouter.Lib.Chars
import CodexRouter.StreamParser.HiddenTags

set_option autoImplicit false

/-! # Blocks between tag lines of streamed text

`TaggedLineParser` takes text piece by piece and finds the lines that are a tag. It buffers a line
until it is clear that the line is no tag. `tagLines` says what the lines of a whole text give. The
parser gives the same, up to how the text is cut into segments: two lists of segments are compared
by their letters, `spell`.
-/

namespace CodexRouter.StreamParser

open Lib

structure TagSpec (T : Type) where
  openTag : Text
  closeTag : Text
  tag : T

inductive TaggedLineSegment (T : Type)
  | normal (text : Text)
  | tagStart (tag : T)
  | tagDelta (tag : T) (text : Text)
  | tagEnd (tag : T)
deriving DecidableEq

structure TaggedLineParser (T : Type) where
  specs : List (TagSpec T)
  activeTag : Option T := none
  detectTag : Bool := true
  lineBuffer : Text := []

variable {T : Type}

def matchOpen (specs : List (TagSpec T)) (slug : Text) : Option T :=
  (specs.find? fun spec => spec.openTag = slug).map TagSpec.tag

def matchClose (specs : List (TagSpec T)) (slug : Text) : Option T :=
  (specs.find? fun spec => spec.closeTag = slug).map TagSpec.tag

def isTagPrefix (specs : List (TagSpec T)) (slug : Text) : Bool :=
  specs.any fun spec => trimEnd slug <+: spec.openTag || trimEnd slug <+: spec.closeTag

/-- `line.strip_suffix('\n').unwrap_or(line)`. -/
def stripNewline (line : Text) : Text :=
  if line.getLast? = some '\n' then line.dropLast else line

/-- The segment of some text between two tag lines. -/
def textSegment (active : Option T) (text : Text) : TaggedLineSegment T :=
  match active with
  | some tag => .tagDelta tag text
  | none => .normal text

section Parser

variable [DecidableEq T]

/-- Text is added to the last segment if that is of the same kind. -/
def pushSegment (segments : List (TaggedLineSegment T)) :
    TaggedLineSegment T → List (TaggedLineSegment T)
  | .normal delta =>
    if delta = [] then segments
    else match segments.getLast? with
      | some (.normal existing) => segments.dropLast ++ [.normal (existing ++ delta)]
      | _ => segments ++ [.normal delta]
  | .tagDelta tag delta =>
    if delta = [] then segments
    else match segments.getLast? with
      | some (.tagDelta existingTag existing) =>
        if existingTag = tag then
          segments.dropLast ++ [.tagDelta existingTag (existing ++ delta)]
        else segments ++ [.tagDelta tag delta]
      | _ => segments ++ [.tagDelta tag delta]
  | .tagStart tag => segments ++ [.tagStart tag]
  | .tagEnd tag => segments ++ [.tagEnd tag]

namespace TaggedLineParser

def new (specs : List (TagSpec T)) : TaggedLineParser T := { specs }

def pushText (p : TaggedLineParser T) (text : Text) (segments : List (TaggedLineSegment T)) :
    List (TaggedLineSegment T) :=
  pushSegment segments (textSegment p.activeTag text)

/-- The segment and the new active tag of a line that is a tag: `match_open` counts while no tag is
active, and `match_close` if it gives the active one. -/
def tagLine? (specs : List (TagSpec T)) (active : Option T) (line : Text) :
    Option (TaggedLineSegment T × Option T) :=
  let slug := trimEnd (trimStart (stripNewline line))
  match active with
  | none => (matchOpen specs slug).map fun tag => (.tagStart tag, some tag)
  | some tag => if matchClose specs slug = some tag then some (.tagEnd tag, none) else none

def finishLine (p : TaggedLineParser T) (segments : List (TaggedLineSegment T)) :
    TaggedLineParser T × List (TaggedLineSegment T) :=
  match tagLine? p.specs p.activeTag p.lineBuffer with
  | some (segment, active) =>
    ({ p with lineBuffer := [], activeTag := active, detectTag := true },
      pushSegment segments segment)
  | none => ({ p with lineBuffer := [], detectTag := true }, p.pushText p.lineBuffer segments)

/-- The loop of `parse` carries the run of text that no line start interrupts and the segments. -/
structure Parsing (T : Type) where
  parser : TaggedLineParser T
  run : Text := []
  segments : List (TaggedLineSegment T) := []

def parseChar (s : Parsing T) (ch : Char) : Parsing T :=
  if s.parser.detectTag then
    let segments := if s.run = [] then s.segments else s.parser.pushText s.run s.segments
    let buffered := s.parser.lineBuffer ++ [ch]
    let p := { s.parser with lineBuffer := buffered }
    if ch = '\n' then
      let r := p.finishLine segments
      { parser := r.1, segments := r.2 }
    else if trimStart buffered = [] ∨ isTagPrefix p.specs (trimStart buffered) then
      { parser := p, segments }
    else
      { parser := { p with lineBuffer := [], detectTag := false },
        segments := p.pushText buffered segments }
  else if ch = '\n' then
    { parser := { s.parser with detectTag := true },
      segments := s.parser.pushText (s.run ++ [ch]) s.segments }
  else { s with run := s.run ++ [ch] }

def parse (p : TaggedLineParser T) (delta : Text) :
    TaggedLineParser T × List (TaggedLineSegment T) :=
  let s := delta.foldl parseChar { parser := p }
  (s.parser, if s.run = [] then s.segments else s.parser.pushText s.run s.segments)

/-- The end of the text ends its last line and closes the active tag. -/
def finish (p : TaggedLineParser T) : TaggedLineParser T × List (TaggedLineSegment T) :=
  let r := if p.lineBuffer = [] then (p.activeTag, []) else
    match tagLine? p.specs p.activeTag p.lineBuffer with
    | some (segment, active) => (active, pushSegment [] segment)
    | none => (p.activeTag, p.pushText p.lineBuffer [])
  let segments := match r.1 with
    | some tag => pushSegment r.2 (.tagEnd tag)
    | none => r.2
  ({ p with lineBuffer := [], activeTag := none, detectTag := true }, segments)

end TaggedLineParser

/-! ## What the lines of a whole text give -/

/-- Line by line: an opening tag while none is active and the closing tag of the active one switch
and disappear, every other line is text. The end of the text closes the active tag. -/
def tagLines (specs : List (TagSpec T)) : Option T → List Text → List (TaggedLineSegment T)
  | none, [] => []
  | some tag, [] => [.tagEnd tag]
  | none, line :: lines =>
    match matchOpen specs (trim line) with
    | some tag => .tagStart tag :: tagLines specs (some tag) lines
    | none => .normal line :: tagLines specs none lines
  | some tag, line :: lines =>
    if matchClose specs (trim line) = some tag then .tagEnd tag :: tagLines specs none lines
    else .tagDelta tag line :: tagLines specs (some tag) lines

end Parser

/-! ## Letters -/

inductive Letter (T : Type)
  | normal (ch : Char)
  | tagStart (tag : T)
  | tagDelta (tag : T) (ch : Char)
  | tagEnd (tag : T)
deriving DecidableEq

namespace TaggedLineSegment

def letters : TaggedLineSegment T → List (Letter T)
  | .normal text => text.map .normal
  | .tagStart tag => [.tagStart tag]
  | .tagDelta tag text => text.map (.tagDelta tag)
  | .tagEnd tag => [.tagEnd tag]

/-- A segment that a reader of the stream would see. -/
def Visible (segment : TaggedLineSegment T) : Prop := segment.letters ≠ []

@[simp] theorem visible_normal (text : Text) :
    (normal text : TaggedLineSegment T).Visible ↔ text ≠ [] := by
  simp [Visible, letters]

@[simp] theorem visible_tagDelta (tag : T) (text : Text) :
    (tagDelta tag text).Visible ↔ text ≠ [] := by
  simp [Visible, letters]

end TaggedLineSegment

def spell (segments : List (TaggedLineSegment T)) : List (Letter T) :=
  segments.flatMap TaggedLineSegment.letters

@[simp] theorem spell_nil : spell ([] : List (TaggedLineSegment T)) = [] := rfl

@[simp] theorem spell_cons (s : TaggedLineSegment T) (segments : List (TaggedLineSegment T)) :
    spell (s :: segments) = s.letters ++ spell segments := rfl

@[simp] theorem spell_append (a b : List (TaggedLineSegment T)) :
    spell (a ++ b) = spell a ++ spell b := List.flatMap_append

/-- The letters of some text between two tag lines. -/
def ink (active : Option T) (text : Text) : List (Letter T) := (textSegment active text).letters

@[simp] theorem ink_nil (active : Option T) : ink active [] = [] := by
  cases active <;> rfl

@[simp] theorem ink_append (active : Option T) (a b : Text) :
    ink active (a ++ b) = ink active a ++ ink active b := by
  cases active <;> exact List.map_append

section Segments

variable [DecidableEq T]

theorem spell_pushSegment (segments : List (TaggedLineSegment T)) (s : TaggedLineSegment T) :
    spell (pushSegment segments s) = spell segments ++ s.letters := by
  -- a segment that is added to the last one continues its letters
  have hlast : ∀ {x y : TaggedLineSegment T}, segments.getLast? = some x →
      y.letters = x.letters ++ s.letters →
        spell (segments.dropLast ++ [y]) = spell segments ++ s.letters := by
    intro x y hx hy
    have hsplit : segments.dropLast ++ [x] = segments := List.dropLast_append_getLast? x hx
    calc spell (segments.dropLast ++ [y])
        = spell (segments.dropLast ++ [x]) ++ s.letters := by simp [hy]
      _ = spell segments ++ s.letters := by rw [hsplit]
  cases s with
  | normal delta =>
    rw [pushSegment]
    split
    · next hnil => simp [hnil, TaggedLineSegment.letters]
    · split
      · next existing hx => exact hlast hx List.map_append
      · simp
  | tagStart tag => simp [pushSegment]
  | tagDelta tag delta =>
    rw [pushSegment]
    split
    · next hnil => simp [hnil, TaggedLineSegment.letters]
    · split
      · next existingTag existing hx =>
        split
        · next htag =>
          subst htag
          exact hlast hx List.map_append
        · simp
      · simp
  | tagEnd tag => simp [pushSegment]

theorem visible_pushSegment {segments : List (TaggedLineSegment T)}
    (h : ∀ s ∈ segments, s.Visible) (segment : TaggedLineSegment T) :
    ∀ s ∈ pushSegment segments segment, s.Visible := by
  have hconcat : ∀ {l : List (TaggedLineSegment T)} {x : TaggedLineSegment T},
      l ⊆ segments → x.Visible → ∀ s ∈ l ++ [x], s.Visible := by grind
  have hall := List.Subset.refl segments
  have hinit : segments.dropLast ⊆ segments := List.dropLast_subset segments
  cases segment with
  | normal delta =>
    rw [pushSegment]
    split
    · exact h
    · next hne =>
      split
      · exact hconcat hinit (by simp [hne])
      · exact hconcat hall (by simp [hne])
  | tagStart tag | tagEnd tag => exact hconcat hall (List.cons_ne_nil _ _)
  | tagDelta tag delta =>
    rw [pushSegment]
    split
    · exact h
    · next hne =>
      have hnew : (TaggedLineSegment.tagDelta tag delta).Visible := by simp [hne]
      split
      · split
        · exact hconcat hinit (by simp [hne])
        · exact hconcat hall hnew
      · exact hconcat hall hnew

end Segments

/-! ## Tag lines -/

theorem trim_prefix_trim {a b : Text} (h : a <+: b) : trim a <+: trim b :=
  rdropWhile_prefix_rdropWhile (dropWhile_prefix_dropWhile h)

theorem trim_stripNewline (line : Text) : trimEnd (trimStart (stripNewline line)) = trim line := by
  rw [stripNewline]
  split
  · next hlast =>
    have hsplit : line.dropLast ++ ['\n'] = line := List.dropLast_append_getLast? _ hlast
    have hblank : isWhitespace '\n' = true := by decide
    calc trimEnd (trimStart line.dropLast)
        = trim (line.dropLast ++ ['\n']) := (rdropWhile_dropWhile_concat hblank).symm
      _ = trim line := by rw [hsplit]
  · rfl

theorem matchOpen_singleton (spec : TagSpec T) (slug : Text) :
    matchOpen [spec] slug = if slug = spec.openTag then some spec.tag else none := by
  by_cases h : slug = spec.openTag
  · simp [matchOpen, h]
  · simp [matchOpen, h, Ne.symm h]

theorem matchClose_singleton (spec : TagSpec T) (slug : Text) :
    matchClose [spec] slug = if slug = spec.closeTag then some spec.tag else none := by
  by_cases h : slug = spec.closeTag
  · simp [matchClose, h]
  · simp [matchClose, h, Ne.symm h]

/-- A line that begins with something that begins no tag is no tag. -/
theorem not_tag_of_not_isTagPrefix {specs : List (TagSpec T)} {start line : Text}
    (hstart : start <+: line) (h : isTagPrefix specs (trimStart start) = false) :
    matchOpen specs (trim line) = none ∧ matchClose specs (trim line) = none := by
  have htrim : trimEnd (trimStart start) <+: trim line := trim_prefix_trim hstart
  have hspec : ∀ spec ∈ specs, spec.openTag ≠ trim line ∧ spec.closeTag ≠ trim line := by
    intro spec hmem
    have hnot : ¬ trimEnd (trimStart start) <+: spec.openTag ∧
        ¬ trimEnd (trimStart start) <+: spec.closeTag := by
      simpa [isTagPrefix] using List.any_eq_false.mp h spec hmem
    constructor
    · intro heq
      exact hnot.1 (heq ▸ htrim)
    · intro heq
      exact hnot.2 (heq ▸ htrim)
  constructor
  · simpa [matchOpen] using fun spec hmem => (hspec spec hmem).1
  · simpa [matchClose] using fun spec hmem => (hspec spec hmem).2

namespace TaggedLineParser

variable [DecidableEq T]

/-- The first line decides by itself what it gives. -/
theorem spell_tagLines_cons (specs : List (TagSpec T)) (active : Option T) (line : Text)
    (lines : List Text) :
    spell (tagLines specs active (line :: lines)) = match tagLine? specs active line with
      | some (segment, active') => segment.letters ++ spell (tagLines specs active' lines)
      | none => ink active line ++ spell (tagLines specs active lines) := by
  cases active with
  | none =>
    cases hopen : matchOpen specs (trim line) with
    | some tag => simp [tagLines, tagLine?, trim_stripNewline, hopen]
    | none => simp [tagLines, tagLine?, trim_stripNewline, hopen, ink, textSegment]
  | some tag =>
    by_cases hclose : matchClose specs (trim line) = some tag
    · simp [tagLines, tagLine?, trim_stripNewline, hclose]
    · simp [tagLines, tagLine?, trim_stripNewline, hclose, ink, textSegment]

theorem visible_tagLines {specs : List (TagSpec T)} {active : Option T} {lines : List Text}
    (h : ∀ line ∈ lines, line ≠ []) : ∀ s ∈ tagLines specs active lines, s.Visible := by
  induction lines generalizing active with
  | nil => cases active <;> simp [tagLines, TaggedLineSegment.Visible, TaggedLineSegment.letters]
  | cons line lines ih =>
    have hline : line ≠ [] := h line (List.mem_cons_self ..)
    have hcons : ∀ {x : TaggedLineSegment T} {active' : Option T}, x.Visible →
        ∀ s ∈ x :: tagLines specs active' lines, s.Visible := by grind
    cases active with
    | none | some tag =>
      rw [tagLines]
      split
      · exact hcons (List.cons_ne_nil _ _)
      · exact hcons (by simpa using hline)

/-- What is still to come from the parser if `t` is the rest of the text. Once a line is known to be
no tag, the rest of it is text. -/
def due (p : TaggedLineParser T) (t : Text) : List (Letter T) :=
  if p.detectTag then spell (tagLines p.specs p.activeTag (cutLines '\n' (p.lineBuffer ++ t)))
  else ink p.activeTag (takeLine '\n' t)
    ++ spell (tagLines p.specs p.activeTag (cutLines '\n' (dropLine '\n' t)))

/-- The buffer holds the beginning of a line that may still be a tag. -/
structure Buffering (p : TaggedLineParser T) : Prop where
  one_line : '\n' ∉ p.lineBuffer
  detecting : p.detectTag = false → p.lineBuffer = []

section Steps

variable {p : TaggedLineParser T}

theorem spell_pushText (p : TaggedLineParser T) (text : Text)
    (segments : List (TaggedLineSegment T)) :
    spell (p.pushText text segments) = spell segments ++ ink p.activeTag text :=
  spell_pushSegment segments _

/-- A run that is empty is not pushed. -/
theorem spell_pushRun (p : TaggedLineParser T) (run : Text)
    (segments : List (TaggedLineSegment T)) :
    spell (if run = [] then segments else p.pushText run segments) =
      spell segments ++ ink p.activeTag run := by
  split
  · next hnil => simp [hnil]
  · exact spell_pushText p run segments

variable {segments : List (TaggedLineSegment T)} {s : Parsing T}

theorem finishLine_due (lines : Text) :
    spell segments ++ spell (tagLines p.specs p.activeTag (p.lineBuffer :: cutLines '\n' lines)) =
      spell (p.finishLine segments).2 ++ (p.finishLine segments).1.due lines := by
  rw [spell_tagLines_cons, finishLine]
  cases htag : tagLine? p.specs p.activeTag p.lineBuffer with
  | some r =>
    simp [due, spell_pushSegment]
  | none => simp [due, spell_pushText]

theorem finishLine_buffering (segments : List (TaggedLineSegment T)) :
    (p.finishLine segments).1.Buffering := by
  rw [finishLine]
  split
  · exact ⟨List.not_mem_nil, fun _ => rfl⟩
  · exact ⟨List.not_mem_nil, fun _ => rfl⟩

/-- A line whose beginning is no beginning of a tag is text. -/
theorem spell_tagLines_of_not_isTagPrefix {specs : List (TagSpec T)} {active : Option T}
    {start line : Text} (hstart : start <+: line)
    (h : isTagPrefix specs (trimStart start) = false) (lines : List Text) :
    spell (tagLines specs active (line :: lines)) =
      ink active line ++ spell (tagLines specs active lines) := by
  obtain ⟨hopen, hclose⟩ := not_tag_of_not_isTagPrefix hstart h
  cases active <;> simp [tagLines, hopen, hclose, ink, textSegment]

theorem due_endLine (h : p.Buffering) (hdetect : p.detectTag = true) (t : Text) :
    p.due ('\n' :: t) =
      spell (tagLines p.specs p.activeTag ((p.lineBuffer ++ ['\n']) :: cutLines '\n' t)) := by
  rw [due, if_pos hdetect, cutLines_append_stop h.one_line]

theorem due_buffer (hdetect : p.detectTag = true) (ch : Char) (t : Text) :
    p.due (ch :: t) = due { p with lineBuffer := p.lineBuffer ++ [ch] } t := by
  rw [due, due, if_pos hdetect, if_pos hdetect, List.append_assoc]
  rfl

omit [DecidableEq T] in
theorem Buffering.one_line_concat (h : p.Buffering) {ch : Char} (hch : ch ≠ '\n') :
    '\n' ∉ p.lineBuffer ++ [ch] := by
  rw [List.mem_append, List.mem_singleton, not_or]
  exact ⟨h.one_line, Ne.symm hch⟩

theorem due_giveUp (h : p.Buffering) (hdetect : p.detectTag = true) {ch : Char} (hch : ch ≠ '\n')
    (hbegins : isTagPrefix p.specs (trimStart (p.lineBuffer ++ [ch])) = false) (t : Text) :
    p.due (ch :: t) = ink p.activeTag (p.lineBuffer ++ [ch])
      ++ due { p with lineBuffer := [], detectTag := false } t := by
  have hline := h.one_line_concat hch
  have hsplit : p.lineBuffer ++ ch :: t = (p.lineBuffer ++ [ch]) ++ t := by simp
  obtain ⟨htake, hdrop⟩ := line_append hline t
  rw [due, if_pos hdetect, hsplit, cutLines_of_ne_nil (by simp), htake, hdrop,
    spell_tagLines_of_not_isTagPrefix (List.prefix_append _ _) hbegins, ink_append,
    List.append_assoc]
  rfl

theorem due_endText (h : p.Buffering) (hdetect : p.detectTag = false) (t : Text) :
    p.due ('\n' :: t) = ink p.activeTag ['\n'] ++ due { p with detectTag := true } t := by
  rw [due, due, if_neg (by simp [hdetect]), if_pos rfl, h.detecting hdetect, takeLine, if_pos rfl,
    dropLine, if_pos rfl, List.nil_append]

theorem due_text (hdetect : p.detectTag = false) {ch : Char} (hch : ch ≠ '\n') (t : Text) :
    p.due (ch :: t) = ink p.activeTag [ch] ++ p.due t := by
  have htake : takeLine '\n' (ch :: t) = [ch] ++ takeLine '\n' t := by
    rw [takeLine, if_neg hch, List.singleton_append]
  rw [due, due, if_neg (by simp [hdetect]), if_neg (by simp [hdetect]), htake, ink_append,
    dropLine, if_neg hch, List.append_assoc]

/-- What has been given and what is still to come inside the loop. -/
def Parsing.total (s : Parsing T) (t : Text) : List (Letter T) :=
  spell s.segments ++ ink s.parser.activeTag s.run ++ s.parser.due t

/-- A character moves letters from what is to come to what has been given. -/
theorem parseChar_total (h : s.parser.Buffering) (ch : Char) :
    (parseChar s ch).parser.Buffering ∧ ∀ t, s.total (ch :: t) = (parseChar s ch).total t := by
  cases hdetect : s.parser.detectTag with
  | true =>
    by_cases hnl : ch = '\n'
    · subst hnl
      simp only [parseChar, hdetect, if_true]
      refine ⟨finishLine_buffering _, fun t => ?_⟩
      rw [Parsing.total, Parsing.total, due_endLine h hdetect, ← spell_pushRun, ink_nil,
        List.append_nil, ← finishLine_due]
    · by_cases hbegins : trimStart (s.parser.lineBuffer ++ [ch]) = [] ∨
          isTagPrefix s.parser.specs (trimStart (s.parser.lineBuffer ++ [ch]))
      · simp only [parseChar, hdetect, if_true, if_neg hnl, if_pos hbegins]
        refine ⟨⟨h.one_line_concat hnl, by rintro ⟨⟩⟩, fun t => ?_⟩
        rw [Parsing.total, Parsing.total, due_buffer hdetect, ← spell_pushRun, ink_nil,
          List.append_nil, hdetect]
      · have hnot := Bool.eq_false_iff.mpr (not_or.mp hbegins).2
        simp only [parseChar, hdetect, if_true, if_neg hnl, if_neg hbegins]
        refine ⟨⟨List.not_mem_nil, fun _ => rfl⟩, fun t => ?_⟩
        rw [Parsing.total, Parsing.total, due_giveUp h hdetect hnl hnot, ← spell_pushRun, ink_nil,
          List.append_nil, spell_pushText, List.append_assoc]
  | false =>
    by_cases hnl : ch = '\n'
    · subst hnl
      simp only [parseChar, hdetect, if_true, Bool.false_eq_true, if_false]
      refine ⟨⟨h.one_line, fun hfalse => by cases hfalse⟩, fun t => ?_⟩
      rw [Parsing.total, Parsing.total, due_endText h hdetect, spell_pushText, ink_append,
        ink_nil, List.append_nil]
      simp only [List.append_assoc]
    · simp only [parseChar, hdetect, if_neg hnl, Bool.false_eq_true, if_false]
      refine ⟨h, fun t => ?_⟩
      rw [Parsing.total, Parsing.total, due_text hdetect hnl, ink_append]
      simp only [List.append_assoc]

theorem foldl_parseChar_total (h : s.parser.Buffering) (delta : Text) :
    (delta.foldl parseChar s).parser.Buffering ∧
      ∀ t, s.total (delta ++ t) = (delta.foldl parseChar s).total t := by
  induction delta generalizing s with
  | nil => exact ⟨h, fun _ => rfl⟩
  | cons ch delta ih =>
    obtain ⟨hbuffering, htotal⟩ := parseChar_total h ch
    obtain ⟨hbuffering', htotal'⟩ := ih hbuffering
    refine ⟨hbuffering', fun t => ?_⟩
    rw [List.cons_append, htotal, htotal', List.foldl_cons]

/-- **A piece gives the beginning of what is due.** -/
theorem parse_due (h : p.Buffering) (delta : Text) :
    (p.parse delta).1.Buffering ∧
      ∀ t, p.due (delta ++ t) = spell (p.parse delta).2 ++ (p.parse delta).1.due t := by
  obtain ⟨hbuffering, htotal⟩ := foldl_parseChar_total (s := { parser := p }) h delta
  refine ⟨hbuffering, fun t => ?_⟩
  have hstart : p.due (delta ++ t) = Parsing.total { parser := p } (delta ++ t) := by
    rw [Parsing.total, ink_nil]
    rfl
  rw [hstart, htotal, Parsing.total, ← spell_pushRun]
  rfl

/-- **The end of the text gives the rest.** -/
theorem finish_due (h : p.Buffering) : p.due [] = spell p.finish.2 := by
  -- the tag that is active in the end is closed
  have hend : ∀ active : Option T, ∀ segments : List (TaggedLineSegment T),
      spell (match active with
        | some tag => pushSegment segments (.tagEnd tag)
        | none => segments) = spell segments ++ spell (tagLines p.specs active []) := by
    intro active segments
    cases active with
    | some tag => simp [spell_pushSegment, tagLines]
    | none => simp [tagLines]
  rw [finish, hend]
  by_cases hnil : p.lineBuffer = []
  · rw [if_pos hnil, spell_nil, List.nil_append, due]
    split
    · rw [hnil]
      rfl
    · simp [takeLine, dropLine, cutLines]
  · have hdetect : p.detectTag = true := by grind [cases Buffering]
    have hlines : cutLines '\n' (p.lineBuffer ++ []) = [p.lineBuffer] := by
      obtain ⟨htake, hdrop⟩ := line_append h.one_line []
      rw [cutLines_of_ne_nil (by simpa using hnil), htake, hdrop]
      simp [takeLine, dropLine, cutLines]
    rw [if_neg hnil, due, if_pos hdetect, hlines, spell_tagLines_cons]
    cases tagLine? p.specs p.activeTag p.lineBuffer with
    | some r => simp [spell_pushSegment]
    | none => simp [spell_pushText]

/-! ### No segment is empty -/

theorem visible_pushRun (h : ∀ x ∈ segments, x.Visible) (run : Text) :
    ∀ x ∈ (if run = [] then segments else p.pushText run segments), x.Visible := by
  split
  · exact h
  · exact visible_pushSegment h _

theorem finishLine_visible (h : ∀ x ∈ segments, x.Visible) :
    ∀ x ∈ (p.finishLine segments).2, x.Visible := by
  rw [finishLine]
  split
  · exact visible_pushSegment h _
  · exact visible_pushSegment h _

theorem parseChar_visible (h : ∀ x ∈ s.segments, x.Visible) (ch : Char) :
    ∀ x ∈ (parseChar s ch).segments, x.Visible := by
  have hrun := visible_pushRun (p := s.parser) h s.run
  simp only [parseChar]
  split
  · split
    · exact finishLine_visible hrun
    · split
      · exact hrun
      · exact visible_pushSegment hrun _
  · split
    · exact visible_pushSegment h _
    · exact h

theorem parse_visible (delta : Text) : ∀ x ∈ (p.parse delta).2, x.Visible := by
  have hfold : ∀ (s : Parsing T), (∀ x ∈ s.segments, x.Visible) →
      ∀ x ∈ (delta.foldl parseChar s).segments, x.Visible := by
    induction delta with
    | nil => exact fun s h => h
    | cons ch delta ih => exact fun s h => ih _ (parseChar_visible h ch)
  exact visible_pushRun (hfold { parser := p } (by simp)) _

theorem finish_visible : ∀ x ∈ p.finish.2, x.Visible := by
  have hnil : ∀ x ∈ ([] : List (TaggedLineSegment T)), x.Visible := by simp
  have hline : ∀ x ∈ (if p.lineBuffer = [] then (p.activeTag, []) else
      match tagLine? p.specs p.activeTag p.lineBuffer with
      | some (segment, active) => (active, pushSegment [] segment)
      | none => (p.activeTag, p.pushText p.lineBuffer [])).2, x.Visible := by
    split
    · exact hnil
    · split
      · exact visible_pushSegment hnil _
      · exact visible_pushSegment hnil _
  simp only [finish]
  split
  · exact visible_pushSegment hline _
  · exact hline

end Steps

end TaggedLineParser

end CodexRouter.StreamParser
