import CodexRouter.ContextManager.AnnotatedContent
import CodexRouter.Lib.Json
import CodexRouter.Lib.Positions

set_option autoImplicit false

/-! # Normalization of the history

`context_manager/normalize.rs`: before a history goes to the model, every call gets an output,
every output without a call goes, and media that the model does not support are replaced. This is
the release build, in which a missing or an orphan output is logged and no panic.
-/

namespace CodexRouter.ContextManager

open Lib

/-! ## Items -/

/-- The fields of a record that normalization does not look at, as they are serialized. -/
abbrev Fields := List (String × Json)

inductive InputModality
  | text
  | image
  | audio
  deriving DecidableEq

inductive ContentItem
  | inputText (text : String)
  | inputImage (imageUrl : String) (detail : Option String)
  | inputAudio (audioUrl : String)
  | outputText (text : String)

inductive FunctionCallOutputContentItem
  | inputText (text : String)
  | inputImage (imageUrl : String) (detail : Option String)
  | inputAudio (audioUrl : String)
  | encryptedContent (encryptedContent : String)

inductive FunctionCallOutputBody
  | text (content : String)
  | contentItems (items : List FunctionCallOutputContentItem)

structure FunctionCallOutputPayload where
  body : FunctionCallOutputBody
  success : Option Bool

def FunctionCallOutputPayload.fromText (content : String) : FunctionCallOutputPayload :=
  ⟨.text content, none⟩

inductive ResponseItem
  | message (content : List ContentItem) (passthrough : Option Passthrough) (rest : Fields)
  | localShellCall (id callId : Option String) (rest : Fields)
  | functionCall (id : Option String) (callId : String) (rest : Fields)
  | toolSearchCall (id callId : Option String) (rest : Fields)
  | functionCallOutput (id callId name toolNamespace : Option String)
      (output : FunctionCallOutputPayload) (passthrough : Option Passthrough)
  | customToolCall (id : Option String) (callId : String) (rest : Fields)
  | customToolCallOutput (id : Option String) (callId : String) (name : Option String)
      (output : FunctionCallOutputPayload) (passthrough : Option Passthrough)
  | toolSearchOutput (id callId : Option String) (status execution : String) (tools : List Json)
      (passthrough : Option Passthrough)
  | imageGenerationCall (result : String) (rest : Fields)
  /-- The kinds of items that normalization leaves alone. -/
  | other (rest : Fields)

structure ResponseItemEnvelope where
  item : ResponseItem
  metadata : Option Fields

/-! ## Calls and outputs -/

/-- The ids of different kinds are kept apart; a local shell call is answered as a function call. -/
inductive CallKind
  | function
  | toolSearch
  | customTool
  deriving DecidableEq

namespace ResponseItem

def call? : ResponseItem → Option (CallKind × String)
  | functionCall _ callId _ => some (.function, callId)
  | localShellCall _ (some callId) _ => some (.function, callId)
  | toolSearchCall _ (some callId) _ => some (.toolSearch, callId)
  | customToolCall _ callId _ => some (.customTool, callId)
  | _ => none

def output? : ResponseItem → Option (CallKind × String)
  | functionCallOutput _ (some callId) _ _ _ _ => some (.function, callId)
  | toolSearchOutput _ (some callId) _ _ _ _ => some (.toolSearch, callId)
  | customToolCallOutput _ callId _ _ _ => some (.customTool, callId)
  | _ => none

def serverExecuted : ResponseItem → Bool
  | toolSearchOutput _ _ _ execution _ _ => execution = "server"
  | _ => false

end ResponseItem

/-- The sets of ids of the three kinds, as one set of pairs. -/
def callIds (items : List ResponseItemEnvelope) : List (CallKind × String) :=
  items.filterMap fun e => e.item.call?

def outputIds (items : List ResponseItemEnvelope) : List (CallKind × String) :=
  items.filterMap fun e => e.item.output?

section Outputs

-- `Uuid::new_v5` in the namespace of the synthetic outputs
variable (newV5 : String → String)

def syntheticOutputId (kind : String) (itemId : Option String) : Option String :=
  (itemId.filter fun id => id ≠ "").map fun sourceId =>
    kind ++ "_" ++ newV5 (kind ++ ":" ++ sourceId)

/-- The output that stands in for one that is missing. -/
def missingOutput (outputIds : List (CallKind × String)) : ResponseItem → Option ResponseItem
  | .functionCall id callId _ =>
    if (.function, callId) ∈ outputIds then none
    else
      some (.functionCallOutput (syntheticOutputId newV5 "fco" id) (some callId) none none
        (.fromText "aborted") none)
  | .toolSearchCall id (some callId) _ =>
    if (.toolSearch, callId) ∈ outputIds then none
    else
      some (.toolSearchOutput (syntheticOutputId newV5 "tso" id) (some callId) "completed"
        "client" [] none)
  | .customToolCall id callId _ =>
    if (.customTool, callId) ∈ outputIds then none
    else
      some (.customToolCallOutput (syntheticOutputId newV5 "ctco" id) callId none
        (.fromText "aborted") none)
  | .localShellCall id (some callId) _ =>
    if (.function, callId) ∈ outputIds then none
    else
      some (.functionCallOutput (syntheticOutputId newV5 "fco" id) (some callId) none none
        (.fromText "aborted") none)
  | _ => none

def missingEnvelope (outputIds : List (CallKind × String)) (e : ResponseItemEnvelope) :
    Option ResponseItemEnvelope :=
  (missingOutput newV5 outputIds e.item).map fun item => ⟨item, none⟩

def ensureCallOutputsPresent (items : List ResponseItemEnvelope) : List ResponseItemEnvelope :=
  let missingOutputsToInsert := items.zipIdx.filterMap fun e =>
    (missingEnvelope newV5 (outputIds items) e.1).map fun output => (e.2, output)
  insertAfter items missingOutputsToInsert

end Outputs

def isOrphan (callIds : List (CallKind × String)) : ResponseItem → Bool
  | .functionCallOutput _ (some callId) _ _ _ _ => (.function, callId) ∉ callIds
  | .customToolCallOutput _ callId _ _ _ => (.customTool, callId) ∉ callIds
  | .toolSearchOutput _ (some callId) _ execution _ _ =>
    execution ≠ "server" ∧ (.toolSearch, callId) ∉ callIds
  | _ => false

def removeOrphanOutputs (items : List ResponseItemEnvelope) : List ResponseItemEnvelope :=
  let orphanPositions := items.zipIdx.filterMap fun e =>
    if isOrphan (callIds items) e.1.item then some e.2 else none
  if orphanPositions ≠ [] then retainExcept 0 orphanPositions items else items

/-! ## Media -/

structure UnsupportedMedia where
  text : String
  contentKind : String

namespace UnsupportedMedia

def image : UnsupportedMedia :=
  ⟨"image content omitted because you do not support image input", "images.unsupported"⟩

def audio : UnsupportedMedia :=
  ⟨"audio content omitted because you do not support audio input", "audio.unsupported"⟩

end UnsupportedMedia

/-- Where a medium occurs, what stands in for it, and what is left of an image that was
generated. -/
structure Medium where
  inContent : ContentItem → Bool
  inOutput : FunctionCallOutputContentItem → Bool
  generated : String → String
  unsupported : UnsupportedMedia

def imageMedium : Medium where
  inContent
    | .inputImage _ _ => true
    | _ => false
  inOutput
    | .inputImage _ _ => true
    | _ => false
  generated _ := ""
  unsupported := .image

def audioMedium : Medium where
  inContent
    | .inputAudio _ => true
    | _ => false
  inOutput
    | .inputAudio _ => true
    | _ => false
  generated := id
  unsupported := .audio

/-- A change of the parts of an item that can be media. -/
@[ext] structure Change where
  content : AnnotatedContent ContentItem → AnnotatedContent ContentItem
  output : FunctionCallOutputContentItem → FunctionCallOutputContentItem
  generated : String → String

namespace Change

def toOutput (change : Change) (output : FunctionCallOutputPayload) : FunctionCallOutputPayload :=
  match output.body with
  | .text _ => output
  | .contentItems items => { output with body := .contentItems (items.map change.output) }

def toItem (change : Change) : ResponseItem → ResponseItem
  | .message content passthrough rest =>
    let annotated := (toAnnotatedContent content passthrough).map change.content
    .message (annotated.map AnnotatedContent.content)
      (some (setAnnotatedContent annotated passthrough)) rest
  | .functionCallOutput id callId name toolNamespace output passthrough =>
    .functionCallOutput id callId name toolNamespace (change.toOutput output) passthrough
  | .customToolCallOutput id callId name output passthrough =>
    .customToolCallOutput id callId name (change.toOutput output) passthrough
  | .imageGenerationCall result rest => .imageGenerationCall (change.generated result) rest
  | item => item

end Change

def Medium.strip (m : Medium) : Change where
  content c :=
    if m.inContent c.content then ⟨.inputText m.unsupported.text, m.unsupported.contentKind⟩ else c
  output c := if m.inOutput c then .inputText m.unsupported.text else c
  generated := m.generated

def stripImage (item : ResponseItem) : ResponseItem := imageMedium.strip.toItem item

def stripAudio (item : ResponseItem) : ResponseItem := audioMedium.strip.toItem item

def stripImagesWhenUnsupported (inputModalities : List InputModality)
    (items : List ResponseItemEnvelope) : List ResponseItemEnvelope :=
  if .image ∈ inputModalities then items
  else items.map fun e => { e with item := stripImage e.item }

def stripAudioWhenUnsupported (inputModalities : List InputModality)
    (items : List ResponseItemEnvelope) : List ResponseItemEnvelope :=
  if .audio ∈ inputModalities then items
  else items.map fun e => { e with item := stripAudio e.item }

def normalizeHistory (newV5 : String → String) (inputModalities : List InputModality)
    (items : List ResponseItemEnvelope) : List ResponseItemEnvelope :=
  let items := ensureCallOutputsPresent newV5 items
  let items := removeOrphanOutputs items
  let items := stripImagesWhenUnsupported inputModalities items
  stripAudioWhenUnsupported inputModalities items

/-! ## The passes, item by item -/

theorem ensureCallOutputsPresent_eq (newV5 : String → String) (items : List ResponseItemEnvelope) :
    ensureCallOutputsPresent newV5 items
      = items.flatMap fun e => e :: (missingEnvelope newV5 (outputIds items) e).toList :=
  insertAfter_zipIdx _ items

theorem removeOrphanOutputs_eq (items : List ResponseItemEnvelope) :
    removeOrphanOutputs items = items.filter fun e => !isOrphan (callIds items) e.item := by
  have hretain := retainExcept_zipIdx (fun e => isOrphan (callIds items) e.item) items
  unfold removeOrphanOutputs
  dsimp only
  split
  · exact hretain
  · next hnone =>
    rw [not_not] at hnone
    rw [hnone] at hretain
    rw [← hretain]
    -- without positions everything is retained
    have hall : ∀ (l : List ResponseItemEnvelope) (n : Nat), retainExcept n [] l = l := by
      intro l
      induction l with
      | nil => exact fun _ => rfl
      | cons e l ih => intro n; simp [retainExcept, ih]
    exact (hall items 0).symm

variable {ids : List (CallKind × String)} {item : ResponseItem} {key : CallKind × String}
  {items : List ResponseItemEnvelope}

theorem missingOutput_some {newV5 : String → String} {output : ResponseItem}
    (h : missingOutput newV5 ids item = some output) :
    ∃ key, item.call? = some key ∧ key ∉ ids ∧ output.output? = some key ∧
      output.call? = none ∧ stripAudio output = output ∧ stripImage output = output := by
  unfold missingOutput at h
  split at h
  all_goals first
    | cases h
    | (split at h
       · cases h
       · next hid =>
         cases h
         exact ⟨_, rfl, hid, rfl, rfl, rfl, rfl⟩)

theorem missingOutput_of_call (newV5 : String → String) (hcall : item.call? = some key)
    (hkey : key ∉ ids) : ∃ output, missingOutput newV5 ids item = some output := by
  unfold ResponseItem.call? at hcall
  split at hcall
  all_goals first
    | (cases hcall
       exact ⟨_, if_neg hkey⟩)
    | cases hcall

theorem isOrphan_iff :
    isOrphan ids item = true
      ↔ ∃ key, item.output? = some key ∧ item.serverExecuted = false ∧ key ∉ ids := by
  unfold isOrphan
  split <;> simp [ResponseItem.output?, ResponseItem.serverExecuted]

theorem call?_of_output? (h : item.output? = some key) : item.call? = none := by
  unfold ResponseItem.output? at h
  split at h
  all_goals first
    | rfl
    | cases h

/-! ## What survives -/

/-- The parts of an item that can be media. -/
inductive Part
  | content (c : AnnotatedContent ContentItem)
  | output (c : FunctionCallOutputContentItem)
  | generated (result : String)

namespace ResponseItem

def parts : ResponseItem → List Part
  | message content passthrough _ => (toAnnotatedContent content passthrough).map .content
  | functionCallOutput _ _ _ _ ⟨.contentItems items, _⟩ _
  | customToolCallOutput _ _ _ ⟨.contentItems items, _⟩ _ => items.map .output
  | imageGenerationCall result _ => [.generated result]
  | _ => []

/-- The item without its parts and their classifications. -/
def bare : ResponseItem → ResponseItem
  | message _ passthrough rest => .message [] (some ⟨passthrough.bind Passthrough.turnId,
      passthrough.bind Passthrough.createTime, none⟩) rest
  | functionCallOutput id callId name toolNamespace ⟨.contentItems _, success⟩ passthrough =>
    .functionCallOutput id callId name toolNamespace ⟨.contentItems [], success⟩ passthrough
  | customToolCallOutput id callId name ⟨.contentItems _, success⟩ passthrough =>
    .customToolCallOutput id callId name ⟨.contentItems [], success⟩ passthrough
  | imageGenerationCall _ rest => .imageGenerationCall "" rest
  | item => item

end ResponseItem

/-- A part stays as it is, or it is a medium that the model does not take: then a text stands in
for it, or what was generated is emptied. -/
inductive Shown (inputModalities : List InputModality) : Part → Part → Prop
  | kept (part : Part) : Shown inputModalities part part
  | image (imageUrl : String) (detail : Option String) (kind : String)
      (h : .image ∉ inputModalities) :
      Shown inputModalities (.content ⟨.inputImage imageUrl detail, kind⟩) (.content
        ⟨.inputText UnsupportedMedia.image.text, UnsupportedMedia.image.contentKind⟩)
  | audio (audioUrl kind : String) (h : .audio ∉ inputModalities) :
      Shown inputModalities (.content ⟨.inputAudio audioUrl, kind⟩) (.content
        ⟨.inputText UnsupportedMedia.audio.text, UnsupportedMedia.audio.contentKind⟩)
  | imageOutput (imageUrl : String) (detail : Option String) (h : .image ∉ inputModalities) :
      Shown inputModalities (.output (.inputImage imageUrl detail))
        (.output (.inputText UnsupportedMedia.image.text))
  | audioOutput (audioUrl : String) (h : .audio ∉ inputModalities) :
      Shown inputModalities (.output (.inputAudio audioUrl))
        (.output (.inputText UnsupportedMedia.audio.text))
  | generated (result : String) (h : .image ∉ inputModalities) :
      Shown inputModalities (.generated result) (.generated "")

/-- The parts are there in their order, each as it is shown, and the rest of the item, with its
role and its ids, is as it was. -/
structure Survives (inputModalities : List InputModality) (item item' : ResponseItem) : Prop where
  parts : List.Forall₂ (Shown inputModalities) item.parts item'.parts
  bare : item'.bare = item.bare

theorem Survives.refl (inputModalities : List InputModality) (item : ResponseItem) :
    Survives inputModalities item item :=
  ⟨List.forall₂_same.mpr fun part _ => .kept part, rfl⟩

/-- An item is as much a call or an output as another. -/
def SameKind (item item' : ResponseItem) : Prop :=
  item.call? = item'.call? ∧ item.output? = item'.output? ∧
    item.serverExecuted = item'.serverExecuted

theorem sameKind_bare (item : ResponseItem) : SameKind item.bare item := by
  cases item with
  | functionCallOutput _ callId _ _ output _ =>
    obtain ⟨body, success⟩ := output
    cases body <;> cases callId <;> exact ⟨rfl, rfl, rfl⟩
  | customToolCallOutput _ _ _ output _ =>
    obtain ⟨body, success⟩ := output
    cases body <;> exact ⟨rfl, rfl, rfl⟩
  | _ => exact ⟨rfl, rfl, rfl⟩

theorem Survives.sameKind {inputModalities : List InputModality} {item' : ResponseItem}
    (h : Survives inputModalities item item') : SameKind item' item := by
  have hitem := sameKind_bare item
  have hitem' := sameKind_bare item'
  rw [h.bare] at hitem'
  exact ⟨hitem'.1.symm.trans hitem.1, hitem'.2.1.symm.trans hitem.2.1,
    hitem'.2.2.symm.trans hitem.2.2⟩

namespace Change

def comp (f g : Change) : Change :=
  ⟨f.content ∘ g.content, f.output ∘ g.output, f.generated ∘ g.generated⟩

def toPart (change : Change) : Part → Part
  | .content c => .content (change.content c)
  | .output c => .output (change.output c)
  | .generated result => .generated (change.generated result)

/-- Changing twice is changing once. -/
theorem toItem_toItem (f g : Change) (item : ResponseItem) :
    f.toItem (g.toItem item) = (f.comp g).toItem item := by
  cases item with
  | message content passthrough rest =>
    simp only [toItem, toAnnotatedContent_set, comp, ← List.map_map]
    rfl
  | functionCallOutput _ _ _ _ output _ | customToolCallOutput _ _ _ output _ =>
    obtain ⟨body, success⟩ := output
    cases body with
    | text content => rfl
    | contentItems items => simp only [toItem, toOutput, List.map_map, comp]
  | _ => rfl

theorem parts_toItem (change : Change) (item : ResponseItem) :
    (change.toItem item).parts = item.parts.map change.toPart := by
  cases item with
  | message content passthrough rest =>
    simp only [toItem, ResponseItem.parts, toAnnotatedContent_set]
    rw [List.map_map, List.map_map]
    rfl
  | functionCallOutput _ _ _ _ output _ | customToolCallOutput _ _ _ output _ =>
    obtain ⟨body, success⟩ := output
    cases body with
    | text content => rfl
    | contentItems items =>
      simp only [toItem, toOutput, ResponseItem.parts, List.map_map]
      rfl
  | _ => rfl

theorem bare_toItem (change : Change) (item : ResponseItem) :
    (change.toItem item).bare = item.bare := by
  cases item with
  | message content passthrough rest => cases passthrough <;> rfl
  | functionCallOutput _ _ _ _ output _ | customToolCallOutput _ _ _ output _ =>
    obtain ⟨body, success⟩ := output
    cases body <;> rfl
  | _ => rfl

end Change

/-! ## Both media -/

/-- What both passes over the media do to one item. -/
def strip (inputModalities : List InputModality) (e : ResponseItemEnvelope) :
    ResponseItemEnvelope :=
  let image := if .image ∈ inputModalities then e.item else stripImage e.item
  { e with item := if .audio ∈ inputModalities then image else stripAudio image }

/-- Both passes as one change. -/
def stripBoth (inputModalities : List InputModality) : Change :=
  (if .audio ∈ inputModalities then ⟨id, id, id⟩ else audioMedium.strip).comp
    (if .image ∈ inputModalities then ⟨id, id, id⟩ else imageMedium.strip)

variable (inputModalities : List InputModality)

theorem stripWhenUnsupported_eq (items : List ResponseItemEnvelope) :
    stripAudioWhenUnsupported inputModalities (stripImagesWhenUnsupported inputModalities items)
      = items.map (strip inputModalities) := by
  unfold stripAudioWhenUnsupported stripImagesWhenUnsupported strip
  by_cases himage : InputModality.image ∈ inputModalities
  · by_cases haudio : InputModality.audio ∈ inputModalities
    · simp [himage, haudio]
    · simp [himage, haudio]
  · by_cases haudio : InputModality.audio ∈ inputModalities
    · simp [himage, haudio]
    · simp [himage, haudio]

/-- If the model takes both, the item stays, classified or not. -/
theorem strip_eq : strip inputModalities = id ∨ strip inputModalities = fun e =>
    { e with item := (stripBoth inputModalities).toItem e.item } := by
  unfold strip stripBoth
  by_cases himage : InputModality.image ∈ inputModalities
  · by_cases haudio : InputModality.audio ∈ inputModalities
    · left
      simp only [if_pos himage, if_pos haudio]
      rfl
    · right
      simp only [if_pos himage, if_neg haudio]
      rfl
  · by_cases haudio : InputModality.audio ∈ inputModalities
    · right
      simp only [if_neg himage, if_pos haudio]
      rfl
    · right
      simp only [if_neg himage, if_neg haudio, stripImage, stripAudio, Change.toItem_toItem]

/-- What stands in for a medium is a text, which stays. -/
theorem stripBoth_comp_self :
    (stripBoth inputModalities).comp (stripBoth inputModalities) = stripBoth inputModalities := by
  have hcontent : ∀ c, (stripBoth inputModalities).content ((stripBoth inputModalities).content c)
      = (stripBoth inputModalities).content c := by
    rintro ⟨content, kind⟩
    unfold stripBoth
    split <;> split <;> cases content <;> rfl
  have houtput : ∀ c, (stripBoth inputModalities).output ((stripBoth inputModalities).output c)
      = (stripBoth inputModalities).output c := by
    intro c
    unfold stripBoth
    split <;> split <;> cases c <;> rfl
  have hgenerated : ∀ result, (stripBoth inputModalities).generated
      ((stripBoth inputModalities).generated result)
        = (stripBoth inputModalities).generated result := by
    intro result
    unfold stripBoth
    split <;> split <;> rfl
  exact Change.ext (funext hcontent) (funext houtput) (funext hgenerated)

theorem strip_strip (e : ResponseItemEnvelope) :
    strip inputModalities (strip inputModalities e) = strip inputModalities e := by
  rcases strip_eq inputModalities with heq | heq
  · simp only [heq, id]
  · simp only [heq, Change.toItem_toItem, stripBoth_comp_self]

theorem shown_stripBoth (part : Part) :
    Shown inputModalities part ((stripBoth inputModalities).toPart part) := by
  unfold stripBoth
  split <;> split <;> rcases part with ⟨_ | _ | _ | _, _⟩ | (_ | _ | _ | _) | _
  all_goals constructor
  all_goals assumption

theorem survives_strip (e : ResponseItemEnvelope) :
    Survives inputModalities e.item (strip inputModalities e).item := by
  rcases strip_eq inputModalities with heq | heq
  · rw [heq]
    exact .refl inputModalities e.item
  · rw [heq]
    refine ⟨?_, Change.bare_toItem _ e.item⟩
    rw [Change.parts_toItem]
    exact List.forall₂_map_right_iff.mpr
      (List.forall₂_same.mpr fun part _ => shown_stripBoth inputModalities part)

/-! ## The history -/

/-- An output that no call asked for, and that no server executed. -/
def Orphan (items : List ResponseItemEnvelope) (e : ResponseItemEnvelope) : Prop :=
  ∃ key, e.item.output? = some key ∧ e.item.serverExecuted = false ∧
    ∀ c ∈ items, c.item.call? ≠ some key

theorem mem_callIds : key ∈ callIds items ↔ ∃ c ∈ items, c.item.call? = some key :=
  List.mem_filterMap

theorem mem_outputIds : key ∈ outputIds items ↔ ∃ o ∈ items, o.item.output? = some key :=
  List.mem_filterMap

theorem orphan_iff {e : ResponseItemEnvelope} :
    Orphan items e ↔ isOrphan (callIds items) e.item = true := by
  rw [isOrphan_iff]
  refine exists_congr fun key => and_congr_right fun _ => and_congr_right fun _ => ?_
  rw [mem_callIds, not_exists]
  exact forall_congr' fun c => not_and.symm

instance (items : List ResponseItemEnvelope) (e : ResponseItemEnvelope) :
    Decidable (Orphan items e) :=
  decidable_of_iff _ orphan_iff.symm

theorem isOrphan_eq_decide (items : List ResponseItemEnvelope) (e : ResponseItemEnvelope) :
    isOrphan (callIds items) e.item = decide (Orphan items e) := by
  rw [Bool.eq_iff_iff, decide_eq_true_iff, orphan_iff]

section History

variable {newV5 : String → String}

theorem missingEnvelope_some {e o : ResponseItemEnvelope}
    (h : missingEnvelope newV5 (outputIds items) e = some o) :
    ∃ key, e.item.call? = some key ∧ o.item.output? = some key ∧ key ∉ outputIds items ∧
      o.item.call? = none ∧ ∀ inputModalities, strip inputModalities o = o := by
  obtain ⟨output, houtput, rfl⟩ := Option.map_eq_some_iff.mp h
  obtain ⟨key, hcall, hkey, hout, hnocall, haudio, himage⟩ := missingOutput_some houtput
  refine ⟨key, hcall, hout, hkey, hnocall, fun inputModalities => ?_⟩
  unfold strip
  split <;> split <;> simp [haudio, himage]

section

variable (newV5) (items)

/-- The calls are those from before. -/
theorem callIds_ensure :
    callIds (ensureCallOutputsPresent newV5 items) = callIds items := by
  rw [ensureCallOutputsPresent_eq, callIds, List.filterMap_flatMap, callIds,
    List.filterMap_eq_flatMap_toList]
  refine List.flatMap_congr fun e _ => ?_
  cases hmissing : missingEnvelope newV5 (outputIds items) e with
  | none => cases hcall : e.item.call? <;> simp [hcall]
  | some o =>
    obtain ⟨_, _, _, _, hnocall, _⟩ := missingEnvelope_some hmissing
    cases hcall : e.item.call? <;> simp [hcall, hnocall]

/-- What the first two passes leave: the items that are no orphans, each call without an output
with the one that stands in. -/
theorem removeOrphanOutputs_ensure :
    removeOrphanOutputs (ensureCallOutputsPresent newV5 items)
      = (items.filter fun e => ¬ Orphan items e).flatMap fun e =>
          e :: (missingEnvelope newV5 (outputIds items) e).toList := by
  rw [removeOrphanOutputs_eq, callIds_ensure, ensureCallOutputsPresent_eq, List.filter_flatMap,
    flatMap_filter]
  refine List.flatMap_congr fun e he => ?_
  cases hmissing : missingEnvelope newV5 (outputIds items) e with
  | none => by_cases h : Orphan items e <;> simp [h, isOrphan_eq_decide]
  | some o =>
    -- the call is no output, and the output that stands in has its call
    obtain ⟨key, hcall, hout, _⟩ := missingEnvelope_some hmissing
    have he' : ¬ Orphan items e := by grind [call?_of_output?, Orphan]
    have ho : ¬ Orphan items o := by grind [Orphan]
    simp [he', ho, isOrphan_eq_decide]

theorem normalizeHistory_eq (inputModalities : List InputModality) :
    normalizeHistory newV5 inputModalities items
      = (items.filter fun e => ¬ Orphan items e).flatMap fun e =>
          strip inputModalities e :: (missingEnvelope newV5 (outputIds items) e).toList := by
  unfold normalizeHistory
  rw [stripWhenUnsupported_eq, removeOrphanOutputs_ensure, List.map_flatMap]
  refine List.flatMap_congr fun e _ => ?_
  cases hmissing : missingEnvelope newV5 (outputIds items) e with
  | none => rfl
  | some o =>
    obtain ⟨_, _, _, _, _, hstrip⟩ := missingEnvelope_some hmissing
    simp [hstrip]

end

/-- A history in which every call has its output and every output its call is only stripped. -/
theorem normalizeHistory_of_paired {inputModalities : List InputModality}
    (hcalls : ∀ e ∈ items, ∀ key, e.item.call? = some key →
      ∃ o ∈ items, o.item.output? = some key)
    (houtputs : ∀ o ∈ items, ∀ key, o.item.output? = some key → o.item.serverExecuted = false →
      ∃ e ∈ items, e.item.call? = some key) :
    normalizeHistory newV5 inputModalities items = items.map (strip inputModalities) := by
  have hkept : (items.filter fun e => ¬ Orphan items e) = items := by
    refine List.filter_eq_self.mpr fun e he => ?_
    rw [decide_eq_true_iff]
    rintro ⟨key, hkey, hserver, hnone⟩
    obtain ⟨c, hc, hcall⟩ := houtputs e he key hkey hserver
    exact hnone c hc hcall
  rw [normalizeHistory_eq, hkept, List.map_eq_flatMap]
  refine List.flatMap_congr fun e he => ?_
  cases hmissing : missingEnvelope newV5 (outputIds items) e with
  | none => rfl
  | some o =>
    obtain ⟨key, hcall, _, hkey, _⟩ := missingEnvelope_some hmissing
    exact absurd (mem_outputIds.mpr (hcalls e he key hcall)) hkey

end History

section Paired

variable {newV5 : String → String} {inputModalities} {x : ResponseItemEnvelope}

/-- Where an item of the result comes from. -/
theorem mem_normalizeHistory :
    x ∈ normalizeHistory newV5 inputModalities items
      ↔ ∃ e ∈ items, ¬ Orphan items e ∧
          (x = strip inputModalities e ∨ missingEnvelope newV5 (outputIds items) e = some x) := by
  rw [normalizeHistory_eq]
  simp only [List.mem_flatMap, List.mem_filter, decide_eq_true_iff, List.mem_cons,
    Option.mem_toList, and_assoc]

/-- A call of the result is one of the history. -/
theorem call_mem_normalizeHistory {e : ResponseItemEnvelope} (he : e ∈ items)
    (hcall : e.item.call? = some key) :
    strip inputModalities e ∈ normalizeHistory newV5 inputModalities items := by
  refine mem_normalizeHistory.mpr ⟨e, he, ?_, Or.inl rfl⟩
  rintro ⟨key', hkey', _⟩
  rw [call?_of_output? hkey'] at hcall
  cases hcall

theorem call_has_output (hx : x ∈ normalizeHistory newV5 inputModalities items)
    (hcall : x.item.call? = some key) :
    ∃ o ∈ normalizeHistory newV5 inputModalities items, o.item.output? = some key := by
  obtain ⟨e, he, horphan, rfl | hmissing⟩ := mem_normalizeHistory.mp hx
  · rw [(survives_strip inputModalities e).sameKind.1] at hcall
    by_cases hkey : key ∈ outputIds items
    · -- an output that was there stays, since its call is there
      obtain ⟨o, ho, hout⟩ := mem_outputIds.mp hkey
      refine ⟨strip inputModalities o, ?_,
        by rw [(survives_strip inputModalities o).sameKind.2.1, hout]⟩
      refine mem_normalizeHistory.mpr ⟨o, ho, ?_, Or.inl rfl⟩
      rintro ⟨key', hkey', _, hnone⟩
      rw [hout] at hkey'
      cases hkey'
      exact hnone e he hcall
    · obtain ⟨output, houtput⟩ := missingOutput_of_call newV5 hcall hkey
      have hmissing : missingEnvelope newV5 (outputIds items) e = some ⟨output, none⟩ := by
        rw [missingEnvelope, houtput, Option.map_some]
      obtain ⟨key', hcall', hout, _⟩ := missingEnvelope_some hmissing
      rw [hcall] at hcall'
      cases hcall'
      exact ⟨⟨output, none⟩, mem_normalizeHistory.mpr
        ⟨e, he, horphan, Or.inr hmissing⟩, hout⟩
  · grind [missingEnvelope_some]

theorem output_has_call (hx : x ∈ normalizeHistory newV5 inputModalities items)
    (hout : x.item.output? = some key) (hserver : x.item.serverExecuted = false) :
    ∃ e ∈ normalizeHistory newV5 inputModalities items, e.item.call? = some key := by
  obtain ⟨e, he, horphan, rfl | hmissing⟩ := mem_normalizeHistory.mp hx
  · obtain ⟨_, houtput, hexecuted⟩ := (survives_strip inputModalities e).sameKind
    rw [houtput] at hout
    rw [hexecuted] at hserver
    -- it is no orphan, so there is a call
    have hcall : ∃ c ∈ items, c.item.call? = some key := by
      by_contra hnone
      push Not at hnone
      exact horphan ⟨key, hout, hserver, hnone⟩
    obtain ⟨c, hc, hcall⟩ := hcall
    exact ⟨strip inputModalities c, call_mem_normalizeHistory hc hcall,
      by rw [(survives_strip inputModalities c).sameKind.1, hcall]⟩
  · obtain ⟨key', hcall, hout', _⟩ := missingEnvelope_some hmissing
    rw [hout'] at hout
    cases hout
    exact ⟨strip inputModalities e, call_mem_normalizeHistory he hcall,
      by rw [(survives_strip inputModalities e).sameKind.1, hcall]⟩

end Paired

/-- **Calls and outputs are paired.** In the normalized history every call has an output, and every
output that no server executed has a call. The items that are no orphans are there in their order,
with nothing but unsupported media replaced, and what was added stands right after its call, which
had no output. Normalizing again changes nothing. -/
theorem normalizeHistory_paired (newV5 : String → String) (inputModalities : List InputModality)
    (items : List ResponseItemEnvelope) :
    let normalized := normalizeHistory newV5 inputModalities items
    (∀ e ∈ normalized, ∀ key, e.item.call? = some key →
        ∃ o ∈ normalized, o.item.output? = some key) ∧
      (∀ o ∈ normalized, ∀ key, o.item.output? = some key → o.item.serverExecuted = false →
        ∃ e ∈ normalized, e.item.call? = some key) ∧
      (∃ (shown : ResponseItemEnvelope → ResponseItemEnvelope)
          (added : ResponseItemEnvelope → Option ResponseItemEnvelope),
        normalized = (items.filter fun e => ¬ Orphan items e).flatMap (fun e =>
          shown e :: (added e).toList) ∧
        (∀ e, Survives inputModalities e.item (shown e).item ∧ (shown e).metadata = e.metadata) ∧
        (.image ∈ inputModalities → .audio ∈ inputModalities → ∀ e, shown e = e) ∧
        ∀ e o, added e = some o → ∃ key, e.item.call? = some key ∧ o.item.output? = some key ∧
          ∀ o' ∈ items, o'.item.output? ≠ some key) ∧
      normalizeHistory newV5 inputModalities normalized = normalized := by
  refine ⟨fun e he key => call_has_output he,
    fun o ho key => output_has_call ho,
    ⟨strip inputModalities, missingEnvelope newV5 (outputIds items),
      normalizeHistory_eq items newV5 inputModalities,
      fun e => ⟨survives_strip inputModalities e, rfl⟩, ?_, ?_⟩,
    ?_⟩
  · intro himage haudio e
    simp [strip, himage, haudio]
  · intro e o hadded
    obtain ⟨key, hcall, hout, hkey, _⟩ := missingEnvelope_some hadded
    refine ⟨key, hcall, hout, fun o' ho' hout' => ?_⟩
    exact hkey (mem_outputIds.mpr ⟨o', ho', hout'⟩)
  · rw [normalizeHistory_of_paired
      (fun e he key => call_has_output he)
      (fun o ho key => output_has_call ho)]
    refine (List.map_congr_left fun x hx => ?_).trans (List.map_id _)
    obtain ⟨e, _, _, rfl | hmissing⟩ := mem_normalizeHistory.mp hx
    · exact strip_strip inputModalities e
    · obtain ⟨_, _, _, _, _, hstrip⟩ := missingEnvelope_some hmissing
      exact hstrip inputModalities

end CodexRouter.ContextManager
