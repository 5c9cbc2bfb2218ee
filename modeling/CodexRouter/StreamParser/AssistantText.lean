import Mathlib.Tactic
import CodexRouter.Lib.Transducer
import CodexRouter.StreamParser.TaggedLines

set_option autoImplicit false

/-! # The markup of streamed assistant text

`AssistantTextStreamParser` strips citations from the text and, in plan mode, takes the blocks
between `<proposed_plan>` and `</proposed_plan>` out of what is left. The two parsers are stacked:
what the first shows is the input of the second. Neither shows how the text was cut into chunks.
-/

namespace CodexRouter.StreamParser

open Lib

/-! ## Plans -/

inductive PlanTag
  | proposedPlan
deriving DecidableEq

def planSpec : TagSpec PlanTag where
  openTag := "<proposed_plan>".toList
  closeTag := "</proposed_plan>".toList
  tag := .proposedPlan

inductive ProposedPlanSegment
  | normal (text : Text)
  | proposedPlanStart
  | proposedPlanDelta (text : Text)
  | proposedPlanEnd
deriving DecidableEq

structure ProposedPlanParser where
  parser : TaggedLineParser PlanTag

def mapSegment : TaggedLineSegment PlanTag → ProposedPlanSegment
  | .normal text => .normal text
  | .tagStart .proposedPlan => .proposedPlanStart
  | .tagDelta .proposedPlan text => .proposedPlanDelta text
  | .tagEnd .proposedPlan => .proposedPlanEnd

def ProposedPlanSegment.normalText : ProposedPlanSegment → Text
  | .normal text => text
  | _ => []

def mapSegments (segments : List (TaggedLineSegment PlanTag)) :
    StreamTextChunk ProposedPlanSegment :=
  let mapped := segments.map mapSegment
  { visibleText := mapped.flatMap ProposedPlanSegment.normalText, extracted := mapped }

namespace ProposedPlanParser

def new : ProposedPlanParser := ⟨TaggedLineParser.new [planSpec]⟩

def pushStr (p : ProposedPlanParser) (chunk : Text) :
    ProposedPlanParser × StreamTextChunk ProposedPlanSegment :=
  let r := p.parser.parse chunk
  (⟨r.1⟩, mapSegments r.2)

def finish (p : ProposedPlanParser) : ProposedPlanParser × StreamTextChunk ProposedPlanSegment :=
  let r := p.parser.finish
  (⟨r.1⟩, mapSegments r.2)

end ProposedPlanParser

/-! ## The parser -/

structure AssistantTextChunk where
  visibleText : Text := []
  citations : List Text := []
  planSegments : List ProposedPlanSegment := []
deriving DecidableEq

structure AssistantTextStreamParser where
  planMode : Bool
  citations : CitationStreamParser := CitationStreamParser.new
  plan : ProposedPlanParser := ProposedPlanParser.new

namespace AssistantTextStreamParser

def new (planMode : Bool) : AssistantTextStreamParser := { planMode }

def parseVisibleText (p : AssistantTextStreamParser) (visibleText : Text) :
    AssistantTextStreamParser × AssistantTextChunk :=
  if p.planMode then
    let r := p.plan.pushStr visibleText
    ({ p with plan := r.1 }, { visibleText := r.2.visibleText, planSegments := r.2.extracted })
  else (p, { visibleText })

def pushStr (p : AssistantTextStreamParser) (chunk : Text) :
    AssistantTextStreamParser × AssistantTextChunk :=
  let cited := p.citations.pushStr chunk
  let r := parseVisibleText { p with citations := cited.1 } cited.2.visibleText
  (r.1, { r.2 with citations := cited.2.extracted })

def finish (p : AssistantTextStreamParser) : AssistantTextStreamParser × AssistantTextChunk :=
  let cited := p.citations.finish
  let r := parseVisibleText { p with citations := cited.1 } cited.2.visibleText
  if p.planMode then
    let tail := r.1.plan.finish
    ({ r.1 with plan := tail.1 },
      { visibleText := r.2.visibleText ++ tail.2.visibleText
        citations := cited.2.extracted
        planSegments := r.2.planSegments ++ tail.2.extracted })
  else (r.1, { r.2 with citations := cited.2.extracted })

end AssistantTextStreamParser

/-- What the parser gives on each chunk of a text and at its end. -/
def given (planMode : Bool) (chunks : List Text) : List AssistantTextChunk :=
  outputs AssistantTextStreamParser.pushStr (fun p => p.finish.2)
    (AssistantTextStreamParser.new planMode) chunks

/-- All of it together. -/
def collectChunks (planMode : Bool) (chunks : List Text) : AssistantTextChunk where
  visibleText := (given planMode chunks).flatMap AssistantTextChunk.visibleText
  citations := (given planMode chunks).flatMap AssistantTextChunk.citations
  planSegments := (given planMode chunks).flatMap AssistantTextChunk.planSegments

/-! ## What a whole text comes to -/

namespace ProposedPlanSegment

def join : ProposedPlanSegment → List ProposedPlanSegment → List ProposedPlanSegment
  | .normal a, .normal b :: rest => .normal (a ++ b) :: rest
  | .proposedPlanDelta a, .proposedPlanDelta b :: rest => .proposedPlanDelta (a ++ b) :: rest
  | segment, rest => segment :: rest

/-- Adjacent segments of text of one kind as a single segment. -/
def merged (segments : List ProposedPlanSegment) : List ProposedPlanSegment :=
  segments.foldr join []

end ProposedPlanSegment

/-- The lines of a text outside a plan (`false`) or inside one (`true`). A plan that is still open
in the end is closed. -/
def planLines : Bool → List Text → List ProposedPlanSegment
  | false, [] => []
  | true, [] => [.proposedPlanEnd]
  | false, line :: lines =>
    if trim line = planSpec.openTag then .proposedPlanStart :: planLines true lines
    else .normal line :: planLines false lines
  | true, line :: lines =>
    if trim line = planSpec.closeTag then .proposedPlanEnd :: planLines false lines
    else .proposedPlanDelta line :: planLines true lines

/-- The text without its citations, and the citations. -/
def stripped (text : Text) : StreamTextChunk Text := citationChunk (hideTags citationSpec none text)

/-- The segments of the text without its citations. -/
def expectedSegments (planMode : Bool) (text : Text) : List ProposedPlanSegment :=
  if planMode then planLines false (cutLines '\n' (stripped text).visibleText) else []

def expectedVisible (planMode : Bool) (text : Text) : Text :=
  if planMode then (expectedSegments planMode text).flatMap ProposedPlanSegment.normalText
  else (stripped text).visibleText

/-! ## Letters of plan segments -/

namespace ProposedPlanSegment

/-- A segment as segments of one character each. -/
def letters : ProposedPlanSegment → List ProposedPlanSegment
  | .normal text => text.map fun ch => .normal [ch]
  | .proposedPlanStart => [.proposedPlanStart]
  | .proposedPlanDelta text => text.map fun ch => .proposedPlanDelta [ch]
  | .proposedPlanEnd => [.proposedPlanEnd]

theorem join_normal (a b : Text) (rest : List ProposedPlanSegment) :
    join (.normal a) (join (.normal b) rest) = join (.normal (a ++ b)) rest := by
  cases rest with
  | nil => rfl
  | cons s rest => cases s <;> simp [join]

theorem join_proposedPlanDelta (a b : Text) (rest : List ProposedPlanSegment) :
    join (.proposedPlanDelta a) (join (.proposedPlanDelta b) rest) =
      join (.proposedPlanDelta (a ++ b)) rest := by
  cases rest with
  | nil => rfl
  | cons s rest => cases s <;> simp [join]

theorem foldr_join_map {kind : Text → ProposedPlanSegment}
    (hkind : ∀ a b rest, join (kind a) (join (kind b) rest) = join (kind (a ++ b)) rest)
    (ch : Char) (text : Text) (rest : List ProposedPlanSegment) :
    ((ch :: text).map fun ch => kind [ch]).foldr join rest = join (kind (ch :: text)) rest := by
  induction text generalizing ch with
  | nil => rfl
  | cons ch' text ih =>
    have htail := ih ch'
    rw [List.map_cons, List.foldr_cons, htail, hkind, List.singleton_append]

/-- A segment that is not empty is joined from its letters. -/
theorem foldr_join_letters {s : ProposedPlanSegment} (h : s.letters ≠ [])
    (rest : List ProposedPlanSegment) : s.letters.foldr join rest = join s rest := by
  cases s with
  | normal text =>
    cases text with
    | nil => exact absurd rfl h
    | cons ch text => exact foldr_join_map join_normal ch text rest
  | proposedPlanStart => rfl
  | proposedPlanDelta text =>
    cases text with
    | nil => exact absurd rfl h
    | cons ch text => exact foldr_join_map join_proposedPlanDelta ch text rest
  | proposedPlanEnd => rfl

/-- Lists without empty segments that have the same letters are the same when merged. -/
theorem merged_letters {segments : List ProposedPlanSegment} (h : ∀ s ∈ segments, s.letters ≠ []) :
    merged (segments.flatMap letters) = merged segments := by
  induction segments with
  | nil => rfl
  | cons s segments ih =>
    have hhead := h s (List.mem_cons_self ..)
    have htail := ih fun x hx => h x (List.mem_cons_of_mem _ hx)
    calc merged (s.letters ++ segments.flatMap letters)
        = s.letters.foldr join (merged (segments.flatMap letters)) := List.foldr_append
      _ = join s (merged segments) := by rw [htail, foldr_join_letters hhead]

end ProposedPlanSegment

def letterSegment : Letter PlanTag → ProposedPlanSegment
  | .normal ch => .normal [ch]
  | .tagStart .proposedPlan => .proposedPlanStart
  | .tagDelta .proposedPlan ch => .proposedPlanDelta [ch]
  | .tagEnd .proposedPlan => .proposedPlanEnd

/-- The character of a letter outside a plan. -/
def plain : Letter PlanTag → Option Char
  | .normal ch => some ch
  | _ => none

theorem letters_mapSegment (s : TaggedLineSegment PlanTag) :
    (mapSegment s).letters = s.letters.map letterSegment := by
  cases s with
  | normal text | tagDelta tag text =>
    simp [mapSegment, ProposedPlanSegment.letters, TaggedLineSegment.letters, letterSegment,
      Function.comp_def]
  | tagStart tag => rfl
  | tagEnd tag => rfl

theorem normalText_mapSegment (s : TaggedLineSegment PlanTag) :
    (mapSegment s).normalText = s.letters.filterMap plain := by
  cases s with
  | normal text | tagDelta tag text =>
    simp [mapSegment, ProposedPlanSegment.normalText, TaggedLineSegment.letters,
      List.filterMap_map, plain, Function.comp_def]
  | tagStart tag => rfl
  | tagEnd tag => rfl

theorem letters_map_mapSegment (segments : List (TaggedLineSegment PlanTag)) :
    (segments.map mapSegment).flatMap ProposedPlanSegment.letters =
      (spell segments).map letterSegment := by
  induction segments with
  | nil => rfl
  | cons s segments ih => simp [letters_mapSegment, ih]

theorem normalText_map_mapSegment (segments : List (TaggedLineSegment PlanTag)) :
    (segments.map mapSegment).flatMap ProposedPlanSegment.normalText =
      (spell segments).filterMap plain := by
  induction segments with
  | nil => rfl
  | cons s segments ih => simp [normalText_mapSegment, ih]

theorem visible_map_mapSegment {segments : List (TaggedLineSegment PlanTag)}
    (h : ∀ s ∈ segments, s.Visible) : ∀ s ∈ segments.map mapSegment, s.letters ≠ [] := by
  intro s hs
  obtain ⟨x, hx, rfl⟩ := List.mem_map.mp hs
  rw [letters_mapSegment]
  exact fun hnil => h x hx (List.map_eq_nil_iff.mp hnil)

theorem map_tagLines (active : Option PlanTag) (lines : List Text) :
    (tagLines [planSpec] active lines).map mapSegment = planLines active.isSome lines := by
  induction lines generalizing active with
  | nil => cases active <;> rfl
  | cons line lines ih =>
    cases active with
    | none =>
      rw [tagLines, matchOpen_singleton, Option.isSome_none, planLines]
      by_cases hopen : trim line = planSpec.openTag
      · rw [if_pos hopen, if_pos hopen, List.map_cons, ih]
        rfl
      · rw [if_neg hopen, if_neg hopen, List.map_cons, ih]
        rfl
    | some tag =>
      rw [tagLines, matchClose_singleton, Option.isSome_some, planLines]
      by_cases hclose : trim line = planSpec.closeTag
      · rw [if_pos hclose, if_pos rfl, if_pos hclose, List.map_cons, ih]
        rfl
      · rw [if_neg hclose, if_neg (by simp), if_neg hclose, List.map_cons, ih]
        rfl

theorem planLines_eq_map (lines : List Text) :
    planLines false lines = (tagLines [planSpec] none lines).map mapSegment :=
  (map_tagLines none lines).symm

theorem citationChunk_append (a b : StreamTextChunk (ExtractedInlineTag CitationTag)) :
    citationChunk (a ++ b) = citationChunk a ++ citationChunk b := by
  show StreamTextChunk.mk _ _ = StreamTextChunk.mk _ _
  rw [StreamTextChunk.visibleText_append, StreamTextChunk.extracted_append, List.map_append]
  rfl

/-! ## The stacked parsers -/

namespace AssistantTextStreamParser

/-- Both parsers are between two chunks. -/
structure Between (p : AssistantTextStreamParser) : Prop where
  cited : p.citations.inner.Settled citationSpec
  buffering : p.plan.parser.Buffering

theorem Between.new (planMode : Bool) : (AssistantTextStreamParser.new planMode).Between :=
  ⟨InlineHiddenTagParser.Settled.new citationSpec, ⟨List.not_mem_nil, fun _ => rfl⟩⟩

/-- What is still to come from the second parser if `t` is the rest of its input. -/
def dueLetters (p : AssistantTextStreamParser) (t : Text) : List ProposedPlanSegment :=
  if p.planMode then (p.plan.parser.due t).map letterSegment else []

def dueVisible (p : AssistantTextStreamParser) (t : Text) : Text :=
  if p.planMode then (p.plan.parser.due t).filterMap plain else t

/-- The input of the second parser that is still to come if `t` is the rest of the text, and the
citations. -/
def dueCited (p : AssistantTextStreamParser) (t : Text) : StreamTextChunk Text :=
  citationChunk (p.citations.inner.due citationSpec t)

variable {p : AssistantTextStreamParser}

theorem parseVisibleText_due (h : p.plan.parser.Buffering) (text : Text) :
    (p.parseVisibleText text).1.plan.parser.Buffering ∧
      (p.parseVisibleText text).1.planMode = p.planMode ∧
      (p.parseVisibleText text).1.citations = p.citations ∧
      (∀ t, p.dueLetters (text ++ t) =
        (p.parseVisibleText text).2.planSegments.flatMap ProposedPlanSegment.letters
          ++ (p.parseVisibleText text).1.dueLetters t) ∧
      ∀ t, p.dueVisible (text ++ t) =
        (p.parseVisibleText text).2.visibleText ++ (p.parseVisibleText text).1.dueVisible t := by
  cases hmode : p.planMode with
  | false => simp [parseVisibleText, hmode, dueLetters, dueVisible, h]
  | true =>
    obtain ⟨hbuffering, hdue⟩ := TaggedLineParser.parse_due h text
    simp only [parseVisibleText, hmode, if_true, dueLetters, dueVisible,
      ProposedPlanParser.pushStr, mapSegments, letters_map_mapSegment, normalText_map_mapSegment,
      hdue, List.map_append, List.filterMap_append, implies_true, and_true]
    exact hbuffering

theorem dueCited_pushStr (h : p.citations.inner.Settled citationSpec) (chunk t : Text) :
    p.dueCited (chunk ++ t) = (p.citations.pushStr chunk).2
      ++ dueCited { p with citations := (p.citations.pushStr chunk).1 } t := by
  obtain ⟨-, hdue⟩ := InlineHiddenTagParser.pushStr_due h chunk
  rw [dueCited, hdue, citationChunk_append]
  rfl

theorem dueCited_finish (h : p.citations.inner.Settled citationSpec) :
    p.dueCited [] = p.citations.finish.2 := by
  rw [dueCited, InlineHiddenTagParser.finish_due h]
  rfl

theorem pushStr_between (h : p.Between) (chunk : Text) : (p.pushStr chunk).1.Between := by
  obtain ⟨hsettled, -⟩ := InlineHiddenTagParser.pushStr_due h.cited chunk
  obtain ⟨hbuffering, -, hcitations, -, -⟩ := parseVisibleText_due
    (p := { p with citations := (p.citations.pushStr chunk).1 }) h.buffering
    (p.citations.pushStr chunk).2.visibleText
  refine ⟨?_, hbuffering⟩
  rw [pushStr, hcitations]
  exact hsettled

/-- **A chunk gives the beginning of what is due.** -/
theorem pushStr_due (h : p.Between) (chunk t : Text) :
    (p.dueCited (chunk ++ t)).extracted =
        (p.pushStr chunk).2.citations ++ ((p.pushStr chunk).1.dueCited t).extracted ∧
      p.dueLetters (p.dueCited (chunk ++ t)).visibleText =
        (p.pushStr chunk).2.planSegments.flatMap ProposedPlanSegment.letters
          ++ (p.pushStr chunk).1.dueLetters ((p.pushStr chunk).1.dueCited t).visibleText ∧
      p.dueVisible (p.dueCited (chunk ++ t)).visibleText =
        (p.pushStr chunk).2.visibleText
          ++ (p.pushStr chunk).1.dueVisible ((p.pushStr chunk).1.dueCited t).visibleText := by
  obtain ⟨-, -, hcitations, hletters, hvisible⟩ := parseVisibleText_due
    (p := { p with citations := (p.citations.pushStr chunk).1 }) h.buffering
    (p.citations.pushStr chunk).2.visibleText
  have hcited : (p.pushStr chunk).1.dueCited t =
      dueCited { p with citations := (p.citations.pushStr chunk).1 } t := by
    rw [dueCited, pushStr, hcitations]
    rfl
  rw [hcited, dueCited_pushStr h.cited]
  refine ⟨rfl, ?_, ?_⟩
  · exact hletters _
  · exact hvisible _

theorem plan_finish_due (h : p.plan.parser.Buffering) (hmode : p.planMode = true) :
    p.dueLetters [] = p.plan.finish.2.extracted.flatMap ProposedPlanSegment.letters ∧
      p.dueVisible [] = p.plan.finish.2.visibleText := by
  rw [dueLetters, dueVisible, if_pos hmode, if_pos hmode, TaggedLineParser.finish_due h,
    ← letters_map_mapSegment, ← normalText_map_mapSegment]
  exact ⟨rfl, rfl⟩

/-- **The end of the text gives the rest.** -/
theorem finish_due (h : p.Between) :
    (p.dueCited []).extracted = p.finish.2.citations ∧
      p.dueLetters (p.dueCited []).visibleText =
        p.finish.2.planSegments.flatMap ProposedPlanSegment.letters ∧
      p.dueVisible (p.dueCited []).visibleText = p.finish.2.visibleText := by
  rw [dueCited_finish h.cited]
  cases hmode : p.planMode with
  | false => simp [finish, hmode, parseVisibleText, dueLetters, dueVisible]
  | true =>
    obtain ⟨hbuffering, hmode', -, hletters, hvisible⟩ := parseVisibleText_due
      (p := { p with citations := p.citations.finish.1 }) h.buffering
      p.citations.finish.2.visibleText
    obtain ⟨htail, htail'⟩ := plan_finish_due hbuffering (hmode'.trans hmode)
    have hletters' := hletters []
    have hvisible' := hvisible []
    rw [List.append_nil, htail, ← List.flatMap_append] at hletters'
    rw [List.append_nil, htail'] at hvisible'
    rw [finish, if_pos hmode]
    exact ⟨rfl, hletters', hvisible'⟩

/-! ## Whole texts -/

theorem parseVisibleText_visible (p : AssistantTextStreamParser) (text : Text) :
    ∀ s ∈ (p.parseVisibleText text).2.planSegments, s.letters ≠ [] := by
  rw [parseVisibleText]
  split
  · exact visible_map_mapSegment (TaggedLineParser.parse_visible text)
  · simp

theorem pushStr_visible (p : AssistantTextStreamParser) (chunk : Text) :
    ∀ s ∈ (p.pushStr chunk).2.planSegments, s.letters ≠ [] :=
  parseVisibleText_visible _ _

theorem finish_visible (p : AssistantTextStreamParser) :
    ∀ s ∈ p.finish.2.planSegments, s.letters ≠ [] := by
  have hparse := parseVisibleText_visible { p with citations := p.citations.finish.1 }
    p.citations.finish.2.visibleText
  rw [finish]
  split
  · intro s hs
    rcases List.mem_append.mp hs with hs | hs
    · exact hparse s hs
    · exact visible_map_mapSegment TaggedLineParser.finish_visible s hs
  · exact hparse

end AssistantTextStreamParser

section Collected

open AssistantTextStreamParser

/-- What holds of every chunk holds of what is collected. -/
theorem flatMap_given {B : Type} (observe : AssistantTextChunk → List B)
    (due : AssistantTextStreamParser → Text → List B)
    (hpush : ∀ p : AssistantTextStreamParser, p.Between → ∀ chunk t,
      due p (chunk ++ t) = observe (p.pushStr chunk).2 ++ due (p.pushStr chunk).1 t)
    (hfinish : ∀ p : AssistantTextStreamParser, p.Between → due p [] = observe p.finish.2)
    (planMode : Bool) (chunks : List Text) :
    (given planMode chunks).flatMap observe = due (new planMode) chunks.flatten := by
  have hinv : ∀ (p : AssistantTextStreamParser) (chunk : Text), p.Between →
      (p.pushStr chunk).1.Between := fun p chunk h => pushStr_between h chunk
  exact flatMap_outputs hinv (fun p chunk h => hpush p h chunk) hfinish (Between.new planMode)
    chunks

section

variable (planMode : Bool) (chunks : List Text)

theorem collectChunks_citations :
    (collectChunks planMode chunks).citations = (stripped chunks.flatten).extracted :=
  flatMap_given AssistantTextChunk.citations (fun p t => (p.dueCited t).extracted)
    (fun _ h chunk t => (pushStr_due h chunk t).1) (fun _ h => (finish_due h).1) planMode chunks

theorem collectChunks_visibleText :
    (collectChunks planMode chunks).visibleText = expectedVisible planMode chunks.flatten := by
  have hgiven : (collectChunks planMode chunks).visibleText =
      (new planMode).dueVisible (stripped chunks.flatten).visibleText :=
    flatMap_given AssistantTextChunk.visibleText
      (fun p t => p.dueVisible (p.dueCited t).visibleText)
      (fun _ h chunk t => (pushStr_due h chunk t).2.2) (fun _ h => (finish_due h).2.2)
      planMode chunks
  rw [hgiven, dueVisible, expectedVisible, expectedSegments]
  cases planMode with
  | false => rfl
  | true =>
    rw [if_pos rfl, if_pos rfl, planLines_eq_map, normalText_map_mapSegment]
    rfl

theorem collectChunks_letters :
    (collectChunks planMode chunks).planSegments.flatMap ProposedPlanSegment.letters =
      (expectedSegments planMode chunks.flatten).flatMap ProposedPlanSegment.letters := by
  have hgiven : (given planMode chunks).flatMap
        (fun out => out.planSegments.flatMap ProposedPlanSegment.letters) =
      (new planMode).dueLetters (stripped chunks.flatten).visibleText :=
    flatMap_given _ (fun p t => p.dueLetters (p.dueCited t).visibleText)
      (fun _ h chunk t => (pushStr_due h chunk t).2.1) (fun _ h => (finish_due h).2.1)
      planMode chunks
  rw [collectChunks, List.flatMap_assoc, hgiven, dueLetters, expectedSegments]
  cases planMode with
  | false => rfl
  | true =>
    rw [if_pos rfl, planLines_eq_map, letters_map_mapSegment]
    rfl

theorem collectChunks_visible :
    ∀ s ∈ (collectChunks planMode chunks).planSegments, s.letters ≠ [] := by
  intro s hs
  obtain ⟨out, hout, hs⟩ := List.mem_flatMap.mp hs
  have hall : ∀ out ∈ given planMode chunks, ∀ s ∈ out.planSegments, s.letters ≠ [] :=
    forall_mem_outputs pushStr_visible finish_visible _ chunks
  exact hall out hout s hs

end

theorem expectedSegments_visible (planMode : Bool) (text : Text) :
    ∀ s ∈ expectedSegments planMode text, s.letters ≠ [] := by
  rw [expectedSegments]
  split
  · rw [planLines_eq_map]
    exact visible_map_mapSegment
      (TaggedLineParser.visible_tagLines fun line hline => ne_nil_of_mem_cutLines hline)
  · simp

theorem merged_collectChunks (planMode : Bool) (chunks : List Text) :
    ProposedPlanSegment.merged (collectChunks planMode chunks).planSegments =
      ProposedPlanSegment.merged (expectedSegments planMode chunks.flatten) := by
  rw [← ProposedPlanSegment.merged_letters (collectChunks_visible planMode chunks),
    collectChunks_letters, ProposedPlanSegment.merged_letters (expectedSegments_visible _ _)]

/-- **Streamed text is parsed as a whole text is.** However a text is cut into chunks, the visible
text, the citations and the plan segments, with adjacent text of one kind merged, are those of the
whole text pushed at once. The citations are the bodies of the leftmost tags. Of the text that is
left, the tag lines switch a plan on and off, and every other line is visible or in the plan. -/
theorem collectChunks_eq_whole (planMode : Bool) (chunks : List Text) :
    let cut := collectChunks planMode chunks
    let whole := collectChunks planMode [chunks.flatten]
    cut.visibleText = whole.visibleText ∧ cut.citations = whole.citations ∧
      ProposedPlanSegment.merged cut.planSegments =
        ProposedPlanSegment.merged whole.planSegments ∧
      cut.citations = (stripped chunks.flatten).extracted ∧
      cut.visibleText = expectedVisible planMode chunks.flatten ∧
      ProposedPlanSegment.merged cut.planSegments =
        ProposedPlanSegment.merged (expectedSegments planMode chunks.flatten) := by
  have hflatten : [chunks.flatten].flatten = chunks.flatten := by simp
  refine ⟨?_, ?_, ?_, collectChunks_citations planMode chunks,
    collectChunks_visibleText planMode chunks, merged_collectChunks planMode chunks⟩
  · rw [collectChunks_visibleText, collectChunks_visibleText, hflatten]
  · rw [collectChunks_citations, collectChunks_citations, hflatten]
  · rw [merged_collectChunks, merged_collectChunks, hflatten]

example : collectChunks true ["Intro\n<proposed".toList,
      "_plan>\n- step <oai-mem-citation>doc</oai-mem-citation>\n".toList,
      "</proposed_plan>\nOutro".toList] =
    { visibleText := "Intro\nOutro".toList
      citations := ["doc".toList]
      planSegments := [.normal "Intro\n".toList, .proposedPlanStart,
        .proposedPlanDelta "- step \n".toList, .proposedPlanEnd, .normal "Outro".toList] } := by
  decide +kernel

end Collected

end CodexRouter.StreamParser
