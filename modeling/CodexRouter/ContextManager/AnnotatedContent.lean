import Mathlib.Tactic.Common

set_option autoImplicit false

/-! # Content with its classifications

The classifications of a message's parts stand in its metadata, by position. `to_annotated_content`
puts them beside the parts, and `set_annotated_content` writes both back.
-/

namespace CodexRouter.ContextManager

/-- `InternalChatMessageMetadataPassthrough`; the time as it is serialized. -/
structure Passthrough where
  turnId : Option String
  createTime : Option String
  contentItemKinds : Option (List String)
deriving DecidableEq

def Passthrough.default : Passthrough := ⟨none, none, none⟩

structure AnnotatedContent (C : Type) where
  content : C
  kind : String

variable {C : Type}

/-- Classifications that are missing are unknown. -/
def annotate : List C → List String → List (AnnotatedContent C)
  | [], _ => []
  | c :: content, [] => ⟨c, "unknown"⟩ :: annotate content []
  | c :: content, kind :: kinds => ⟨c, kind⟩ :: annotate content kinds

def toAnnotatedContent (content : List C) (passthrough : Option Passthrough) :
    List (AnnotatedContent C) :=
  annotate content ((passthrough.bind Passthrough.contentItemKinds).getD [])

/-- The metadata that `set_annotated_content` leaves; the content is that of the parts. -/
def setAnnotatedContent (annotated : List (AnnotatedContent C)) (passthrough : Option Passthrough) :
    Passthrough :=
  { passthrough.getD .default with
    contentItemKinds := some (annotated.map AnnotatedContent.kind) }

theorem annotate_parts (annotated : List (AnnotatedContent C)) :
    annotate (annotated.map AnnotatedContent.content) (annotated.map AnnotatedContent.kind)
      = annotated := by
  induction annotated with
  | nil => rfl
  | cons c annotated ih => simp [annotate, ih]

/-- What is set is read back. -/
theorem toAnnotatedContent_set (annotated : List (AnnotatedContent C))
    (passthrough : Option Passthrough) :
    toAnnotatedContent (annotated.map AnnotatedContent.content)
      (some (setAnnotatedContent annotated passthrough)) = annotated :=
  annotate_parts annotated

end CodexRouter.ContextManager
