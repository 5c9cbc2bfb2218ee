import Mathlib.Data.List.DropRight
import CodexRouter.ContextManager.AnnotatedContent
import CodexRouter.Rollout.Reconstruction

set_option autoImplicit false

/-! # Rolling back in several steps

`drop_last_n_user_turns` cuts the history at a turn boundary, takes the context messages before the
cut with it and, when the first turn goes, rebuilds the developer messages of that turn. Dropping
`n` turns and then `m` leaves what dropping `n + m` leaves: a history is split at the boundary it
is cut at, and the messages that go with the cut hold no boundary.
-/

namespace CodexRouter.Rollout

open ContextManager HistoryItem

/-! ## Response items -/

inductive ContentItem
  | inputText (text : String)
  /-- Images and output text, as serialized. -/
  | other (content : String)
deriving DecidableEq

/-- The last argument has the other fields, as serialized. -/
inductive ResponseItem
  | message (role : String) (content : List ContentItem) (metadata : Option Passthrough)
      (rest : String)
  | agentMessage (metadata : Option Passthrough) (rest : String)
  | other (metadata : Option Passthrough) (rest : String)
deriving DecidableEq

/-- What other modules recognize in a content, and the functions of replay that rollback does not
use. -/
class Fragments where
  isContextualUserFragment : ContentItem → Bool
  isContextualDevFragment : ContentItem → Bool
  /-- `InterAgentCommunication::is_message_content` -/
  isInterAgentInstruction : List ContentItem → Bool
  /-- `ModelSwitchInstructions::matches_text` or `PersistentModeState::matches_text` -/
  isModelState : String → Bool
  isApiMessage : ResponseItem → Bool
  truncateOutput : ResponseItem → ResponseItem
  buildCompactedHistory : List ResponseItem → String → List ResponseItem

namespace ResponseItem

variable [Fragments]

def metadata : ResponseItem → Option Passthrough
  | .message _ _ metadata _ | .agentMessage metadata _ | .other metadata _ => metadata

def isUserTurnBoundary : ResponseItem → Bool
  | .agentMessage _ _ => true
  | .message role content _ _ =>
    role = "user" && !content.any Fragments.isContextualUserFragment
      || role = "assistant" && Fragments.isInterAgentInstruction content
  | .other _ _ => false

def isContextUpdate : ResponseItem → Bool
  | .message role content _ _ =>
    role = "developer" && content.any Fragments.isContextualDevFragment
      || role = "user" && content.any Fragments.isContextualUserFragment
  | _ => false

def isDeveloperMessage : ResponseItem → Bool
  | .message role _ _ _ => role = "developer"
  | _ => false

/-- A part that stays with the developer messages of a turn that is dropped. -/
def staysWithoutModelState : ContentItem → Bool
  | .inputText text => !Fragments.isModelState text
  | .other _ => true

/-- The content with its classifications, filtered and put back; a message without content is not
retained. -/
def withoutModelState : ResponseItem → Option ResponseItem
  | .message role content metadata rest =>
    let annotated := (toAnnotatedContent content metadata).filter fun c =>
      staysWithoutModelState c.content
    if annotated.isEmpty then none
    else
      some (.message role (annotated.map AnnotatedContent.content)
        (some (setAnnotatedContent annotated metadata)) rest)
  | _ => none

instance : HistoryItem ResponseItem where
  isUserTurnBoundary := isUserTurnBoundary
  isContextUpdate := isContextUpdate
  isApiMessage := Fragments.isApiMessage
  truncateOutput := Fragments.truncateOutput
  turnId item := (item.metadata.bind Passthrough.turnId).filter (· ≠ "")
  isDeveloperMessage := isDeveloperMessage
  withoutModelState := withoutModelState
  buildCompactedHistory := Fragments.buildCompactedHistory

end ResponseItem

/-- What rollback relies on: context messages and rebuilt developer messages start no turn. -/
class LawfulHistoryItem (I : Type) [HistoryItem I] : Prop where
  isContextUpdate_of_boundary (item : I) :
    isUserTurnBoundary item = true → isContextUpdate item = false
  withoutModelState_no_boundary (item kept : I) : isDeveloperMessage item = true →
    withoutModelState item = some kept → isUserTurnBoundary kept = false

instance [Fragments] : LawfulHistoryItem ResponseItem where
  isContextUpdate_of_boundary item h := by
    cases item with
    | message role content metadata rest =>
      simp only [HistoryItem.isUserTurnBoundary, ResponseItem.isUserTurnBoundary, Bool.or_eq_true,
        Bool.and_eq_true, decide_eq_true_eq, Bool.not_eq_true'] at h
      rcases h with ⟨rfl, hplain⟩ | ⟨rfl, _⟩
      · simp [HistoryItem.isContextUpdate, ResponseItem.isContextUpdate, hplain]
      · simp [HistoryItem.isContextUpdate, ResponseItem.isContextUpdate]
    | agentMessage metadata rest => rfl
    | other metadata rest => rfl
  withoutModelState_no_boundary item kept hdeveloper hkept := by
    cases item with
    | message role content metadata rest =>
      have hrole : role = "developer" := of_decide_eq_true hdeveloper
      subst hrole
      simp only [HistoryItem.withoutModelState, ResponseItem.withoutModelState] at hkept
      split at hkept
      · cases hkept
      · cases hkept
        simp [HistoryItem.isUserTurnBoundary, ResponseItem.isUserTurnBoundary]
    | agentMessage metadata rest => cases hdeveloper
    | other metadata rest => cases hdeveloper

/-! ## A history split at a boundary -/

section

variable {I : Type} [HistoryItem I]

/-- The number of turn boundaries. -/
def turns (items : List I) : Nat := items.countP isUserTurnBoundary

theorem userMessagePositions_append (items later : List I) :
    userMessagePositions (items ++ later) =
      userMessagePositions items ++ (userMessagePositions later).map (items.length + ·) := by
  simp only [userMessagePositions, List.zipIdx_append, List.filter_append, List.map_append,
    Nat.zero_add, List.append_cancel_left_eq]
  rw [List.zipIdx_eq_map_add, List.filter_map, List.map_map, List.map_map]
  rfl

theorem length_userMessagePositions (items : List I) :
    (userMessagePositions items).length = turns items := by
  induction items using List.reverseRecOn with
  | nil => rfl
  | append_singleton items item ih =>
    rw [userMessagePositions_append, List.length_append, List.length_map, ih, turns, turns,
      List.countP_append]
    cases h : isUserTurnBoundary item <;> simp [userMessagePositions, h]

theorem userMessagePositions_split (before : List I) {item : I} (after : List I)
    (h : isUserTurnBoundary item = true) :
    userMessagePositions (before ++ item :: after) = userMessagePositions before ++
      before.length :: (userMessagePositions after).map (before.length + 1 + ·) := by
  have hone : userMessagePositions [item] = [0] := by simp [userMessagePositions, h]
  rw [List.append_cons, userMessagePositions_append, userMessagePositions_append, hone]
  simp

theorem mem_userMessagePositions {items : List I} {idx : Nat} :
    idx ∈ userMessagePositions items ↔
      ∃ item, items[idx]? = some item ∧ isUserTurnBoundary item = true := by
  simp [userMessagePositions, List.mem_zipIdx_iff_getElem?]

theorem turns_append (items later : List I) : turns (items ++ later) = turns items + turns later :=
  List.countP_append

theorem turns_cons {item : I} (h : isUserTurnBoundary item = true) (items : List I) :
    turns (item :: items) = turns items + 1 :=
  List.countP_cons_of_pos h

theorem turns_split {before after : List I} {item : I} (h : isUserTurnBoundary item = true) :
    turns (before ++ item :: after) = turns before + (turns after + 1) := by
  rw [turns_append, turns_cons h]

/-- Each boundary of a history splits it, counted from the end. -/
theorem exists_split (items : List I) {n : Nat} (h : n < turns items) :
    ∃ before item after, items = before ++ item :: after ∧ isUserTurnBoundary item = true
      ∧ turns after = n := by
  induction items with
  | nil => cases h
  | cons first items ih =>
    by_cases hlater : n < turns items
    · obtain ⟨before, item, after, rfl, hitem, hafter⟩ := ih hlater
      exact ⟨first :: before, item, after, rfl, hitem, hafter⟩
    · simp only [turns, List.countP_cons] at h hlater
      split at h
      · next hfirst => exact ⟨[], first, items, rfl, hfirst, by rw [turns]; omega⟩
      · omega

theorem dropLastNUserTurns_zero (items : List I) : dropLastNUserTurns 0 items = items :=
  rfl

theorem dropLastNUserTurns_of_turns_eq_zero {items : List I} (h : turns items = 0) (n : Nat) :
    dropLastNUserTurns n items = items := by
  have hnone : userMessagePositions items = [] :=
    List.eq_nil_of_length_eq_zero (by rw [length_userMessagePositions, h])
  rw [dropLastNUserTurns, hnone]
  split <;> rfl

/-- The items that stay when the first turn, of the boundary `item`, is dropped. -/
def withoutFirstTurn (before : List I) (item : I) : List I :=
  match HistoryItem.turnId item with
  | some turnId => retainDeveloperMessages turnId before
  | none => before

theorem dropLastNUserTurns_first {n : Nat} {before after : List I} {item : I}
    (hitem : isUserTurnBoundary item = true) (hbefore : turns before = 0)
    (hafter : turns after < n) :
    dropLastNUserTurns n (before ++ item :: after) = withoutFirstTurn before item := by
  have hpositions := userMessagePositions_split before after hitem
  have hnone : userMessagePositions before = [] :=
    List.eq_nil_of_length_eq_zero (by rw [length_userMessagePositions, hbefore])
  have htrim (c : Nat) (items : List I) : trimPreTurnContextUpdates items c c = c := by
    cases c <;> simp [trimPreTurnContextUpdates]
  rw [hnone, List.nil_append] at hpositions
  rw [dropLastNUserTurns, if_neg (by omega), hpositions]
  simp only [List.length_cons, List.length_map, length_userMessagePositions,
    if_pos (show turns after + 1 ≤ n by omega), htrim, if_true, List.take_left,
    List.getElem?_append_right (Nat.le_refl _), Nat.sub_self, List.getElem?_cons_zero,
    Option.bind_some]
  rfl

/-- What may become of an item: a developer message may be rebuilt. -/
def Remains (item kept : I) : Prop :=
  kept = item ∨ isDeveloperMessage item = true ∧ withoutModelState item = some kept

theorem remains_of_retained {turnId : String} {item kept : I}
    (h : (if HistoryItem.turnId item = some turnId ∧ isDeveloperMessage item then
      withoutModelState item else some item) = some kept) : Remains item kept := by
  split at h
  · next hdeveloper => exact .inr ⟨hdeveloper.2, h⟩
  · exact .inl (Option.some.inj h).symm

theorem remains_of_mem_withoutFirstTurn {before : List I} {item kept : I}
    (h : kept ∈ withoutFirstTurn before item) : ∃ x ∈ before, Remains x kept := by
  rw [withoutFirstTurn] at h
  split at h
  · obtain ⟨x, hx, hkept⟩ := List.mem_filterMap.mp h
    exact ⟨x, hx, remains_of_retained hkept⟩
  · exact ⟨kept, h, .inl rfl⟩

variable [LawfulHistoryItem I]

theorem turns_withoutFirstTurn {before : List I} {item : I} (h : turns before = 0) :
    turns (withoutFirstTurn before item) = 0 := by
  refine List.countP_eq_zero.mpr fun kept hkept hboundary => ?_
  obtain ⟨x, hmem, rfl | ⟨hdeveloper, hrebuilt⟩⟩ := remains_of_mem_withoutFirstTurn hkept
  · exact List.countP_eq_zero.mp h kept hmem hboundary
  · rw [LawfulHistoryItem.withoutModelState_no_boundary x kept hdeveloper hrebuilt] at hboundary
    cases hboundary

/-- Trimming steps back over the context messages at the end, and stops at a boundary. -/
theorem trimPreTurnContextUpdates_eq (before after : List I) {first : Nat} {item : I}
    (hfirst : before[first]? = some item) (hitem : isUserTurnBoundary item = true) :
    first < trimPreTurnContextUpdates (before ++ after) first before.length ∧
      (before ++ after).take (trimPreTurnContextUpdates (before ++ after) first before.length) =
        before.rdropWhile isContextUpdate := by
  induction before using List.reverseRecOn generalizing after with
  | nil => cases hfirst
  | append_singleton before last ih =>
    have hlt : first < before.length + 1 := by
      simpa using (List.getElem?_eq_some_iff.mp hfirst).1
    have hlast : (before ++ [last] ++ after)[before.length]? = some last := by simp
    rw [List.length_append, List.length_singleton, trimPreTurnContextUpdates, hlast]
    by_cases hcontext : isContextUpdate last = true
    · -- the boundary is no context message, so it is not the last item
      have hne : first ≠ before.length := by
        rintro rfl
        rw [List.getElem?_concat_length, Option.some.injEq] at hfirst
        have := LawfulHistoryItem.isContextUpdate_of_boundary item hitem
        rw [← hfirst, hcontext] at this
        cases this
      rw [List.getElem?_append_left (by omega)] at hfirst
      rw [if_pos ⟨hlt, hcontext⟩, List.append_assoc, List.rdropWhile_concat_pos _ _ _ hcontext]
      exact ih _ hfirst
    · rw [if_neg (by simp [hcontext]), List.rdropWhile_concat_neg _ _ _ hcontext]
      exact ⟨hlt, List.take_left' (by simp)⟩

theorem dropLastNUserTurns_later {n : Nat} {before after : List I} {item : I}
    (hitem : isUserTurnBoundary item = true) (hbefore : 0 < turns before)
    (hafter : turns after + 1 = n) :
    dropLastNUserTurns n (before ++ item :: after) = before.rdropWhile isContextUpdate := by
  have hlength := length_userMessagePositions before
  have hpositions := userMessagePositions_split before after hitem
  obtain ⟨first, more, hfirst⟩ := List.exists_cons_of_length_pos (hlength ▸ hbefore)
  obtain ⟨boundary, hget, hboundary⟩ := mem_userMessagePositions.mp
    (hfirst ▸ List.mem_cons_self : first ∈ userMessagePositions before)
  obtain ⟨hlt, htake⟩ := trimPreTurnContextUpdates_eq before (item :: after) hget hboundary
  have hcount : (userMessagePositions (before ++ item :: after)).length = turns before + n := by
    rw [hpositions, List.length_append, List.length_cons, List.length_map, hlength,
      length_userMessagePositions, hafter]
  have hcut : (userMessagePositions (before ++ item :: after)).getD (turns before + n - n) 0 =
      before.length := by
    rw [Nat.add_sub_cancel, hpositions, ← hlength, List.getD_eq_getElem?_getD,
      List.getElem?_append_right le_rfl, Nat.sub_self]
    rfl
  rw [dropLastNUserTurns, if_neg (by omega)]
  simp only [hcount, hcut, if_neg (show ¬ turns before + n ≤ n by omega)]
  rw [hpositions, hfirst, List.cons_append]
  simp only [if_neg (show ¬ trimPreTurnContextUpdates (before ++ item :: after) first
    before.length = first by omega), htake]

/-- Dropping turns in two steps. -/
theorem dropLastNUserTurns_dropLastNUserTurns (n m : Nat) (items : List I) :
    dropLastNUserTurns m (dropLastNUserTurns n items) = dropLastNUserTurns (n + m) items := by
  rcases Nat.eq_zero_or_pos n with rfl | hn
  · rw [Nat.zero_add, dropLastNUserTurns_zero]
  rcases Nat.eq_zero_or_pos m with rfl | hm
  · rw [dropLastNUserTurns_zero, Nat.add_zero]
  rcases Nat.eq_zero_or_pos (turns items) with hnone | hsome
  · simp only [dropLastNUserTurns_of_turns_eq_zero hnone]
  by_cases hall : turns items ≤ n
  · -- the first turn goes in the first step, and nothing is left to drop
    obtain ⟨before, item, after, rfl, hitem, hafter⟩ :=
      exists_split items (Nat.sub_lt hsome Nat.one_pos)
    have hbefore : turns before = 0 := by
      rw [turns_split hitem] at hafter; omega
    rw [dropLastNUserTurns_first hitem hbefore (by omega),
      dropLastNUserTurns_first hitem hbefore (by omega),
      dropLastNUserTurns_of_turns_eq_zero (turns_withoutFirstTurn hbefore)]
  obtain ⟨before, item, after, rfl, hitem, hafter⟩ := exists_split items (n := n - 1) (by omega)
  rw [turns_split hitem] at hall hsome
  rw [dropLastNUserTurns_later hitem (by omega) (by omega)]
  -- what the first step leaves is followed by items without a boundary before the cut
  have hkept := List.rdropWhile_append_rtakeWhile (p := isContextUpdate) (l := before)
  have htrimmed : turns (before.rtakeWhile isContextUpdate) = 0 := by
    refine List.countP_eq_zero.mpr fun item hmem hboundary => ?_
    have hcontext := List.mem_rtakeWhile_imp hmem
    rw [LawfulHistoryItem.isContextUpdate_of_boundary item hboundary] at hcontext
    cases hcontext
  generalize before.rdropWhile isContextUpdate = kept at hkept ⊢
  generalize before.rtakeWhile isContextUpdate = trimmed at hkept htrimmed
  subst hkept
  rw [turns_append, htrimmed, Nat.add_zero] at hall hsome
  by_cases hfirst : turns kept ≤ m
  · obtain ⟨before', item', after', rfl, hitem', hafter'⟩ :=
      exists_split kept (n := turns kept - 1) (by omega)
    rw [turns_split hitem'] at hafter' hfirst hall
    rw [dropLastNUserTurns_first hitem' (by omega) (by omega), List.append_assoc,
      List.append_assoc, List.cons_append, dropLastNUserTurns_first hitem' (by omega)]
    rw [turns_append, turns_append, turns_cons hitem]
    omega
  · obtain ⟨before', item', after', rfl, hitem', hafter'⟩ :=
      exists_split kept (n := m - 1) (by omega)
    rw [turns_split hitem'] at hfirst
    rw [dropLastNUserTurns_later hitem' (by omega) (by omega), List.append_assoc,
      List.append_assoc, List.cons_append, dropLastNUserTurns_later hitem' (by omega)]
    rw [turns_append, turns_append, turns_cons hitem]
    omega

end

/-! ## What is kept -/

section

variable {I : Type} [HistoryItem I]

/-- `kept` are items of the history in their order, each as `R` has it. -/
def KeptOf (R : I → I → Prop) (items kept : List I) : Prop :=
  ∃ originals : List I, originals.Sublist items ∧ List.Forall₂ R originals kept

theorem keptOf_of_sublist {items kept : List I} (h : kept.Sublist items) :
    KeptOf Remains items kept :=
  ⟨kept, h, List.forall₂_same.mpr fun _ _ => .inl rfl⟩

theorem keptOf_retainDeveloperMessages (turnId : String) (items : List I) :
    KeptOf Remains items (retainDeveloperMessages turnId items) := by
  induction items with
  | nil => exact ⟨[], List.Sublist.slnil, .nil⟩
  | cons item items ih =>
    obtain ⟨originals, hsublist, hremains⟩ := ih
    rw [retainDeveloperMessages, List.filterMap_cons]
    split
    · exact ⟨originals, hsublist.cons item, hremains⟩
    · next kept hkept =>
      exact ⟨item :: originals, hsublist.cons_cons item, .cons (remains_of_retained hkept) hremains⟩

theorem keptOf_dropLastNUserTurns (n : Nat) (items : List I) :
    KeptOf Remains items (dropLastNUserTurns n items) := by
  rw [dropLastNUserTurns]
  split
  · exact keptOf_of_sublist (List.Sublist.refl items)
  · dsimp only
    split
    · exact keptOf_of_sublist (List.Sublist.refl items)
    · generalize trimPreTurnContextUpdates items _ _ = cutIdx
      split
      · split
        · next turnId _ =>
          obtain ⟨originals, hsublist, hremains⟩ :=
            keptOf_retainDeveloperMessages turnId (items.take cutIdx)
          exact ⟨originals, hsublist.trans (List.take_sublist _ _), hremains⟩
        · exact keptOf_of_sublist (List.take_sublist _ _)
      · exact keptOf_of_sublist (List.take_sublist _ _)

end

/-- The item is kept as it is, or it is a developer message that keeps its role, its turn, its
time, its other fields and, with their classifications, the parts that are no state of the
model. -/
def ResponseItem.StaysAs [Fragments] (item kept : ResponseItem) : Prop :=
  kept = item ∨ ∃ content metadata content' metadata' rest,
    item = .message "developer" content metadata rest ∧
      kept = .message "developer" content' (some metadata') rest ∧
      metadata'.turnId = metadata.bind Passthrough.turnId ∧
      metadata'.createTime = metadata.bind Passthrough.createTime ∧
      toAnnotatedContent content' (some metadata') =
        (toAnnotatedContent content metadata).filter fun c => staysWithoutModelState c.content

theorem staysAs_of_remains [Fragments] (item kept : ResponseItem) (h : Remains item kept) :
    item.StaysAs kept := by
  rcases h with rfl | ⟨hdeveloper, hkept⟩
  · exact .inl rfl
  · cases item with
    | message role content metadata rest =>
      obtain rfl : role = "developer" := of_decide_eq_true hdeveloper
      simp only [HistoryItem.withoutModelState, ResponseItem.withoutModelState] at hkept
      split at hkept
      · cases hkept
      · cases hkept
        refine .inr ⟨content, metadata, _, _, rest, rfl, rfl, ?_, ?_, toAnnotatedContent_set _ _⟩
        · cases metadata <;> rfl
        · cases metadata <;> rfl
    | agentMessage metadata rest | other metadata rest => cases hdeveloper

/-- **Rollbacks add up**: dropping `n` turns and then `m` leaves what dropping `n + m` turns leaves,
and every kept item comes from the history, in its order. -/
theorem rollbacks_add_up [Fragments] (n m : Nat) (items : List ResponseItem) :
    dropLastNUserTurns m (dropLastNUserTurns n items) = dropLastNUserTurns (n + m) items ∧
      KeptOf ResponseItem.StaysAs items (dropLastNUserTurns (n + m) items) := by
  obtain ⟨originals, hsublist, hremains⟩ := keptOf_dropLastNUserTurns (n + m) items
  exact ⟨dropLastNUserTurns_dropLastNUserTurns n m items,
    originals, hsublist, hremains.imp staysAs_of_remains⟩

end CodexRouter.Rollout
